import Amqp.Encoder
import Amqp.Proofs.Grammar

/-!
# The canonical encoding

The bytes of a value as one plain recursion over it, for a text hook without memory.
Nothing is patched or widened here: the content of a container is known before its prefix
is chosen.

An array has one form for each way of being contained in it. An element has the full width
of the constructor it shares, and a container among the elements has a prefix of four
bytes. What an array holds of a described element is its raw body, the body that a reader
without knowledge of the form would see: the slots of a composite up to the last one that
is set, or the content of a section.
-/

namespace Amqp

/-- The body of a described value without its form. -/
def Described.rawBody : Described → Value
  | composite _ slots => .list (slots.take (setSlots slots))
  | content _ body => body
  | unknown _ body => body

/-- What an array holds of an element: the raw body of a described one, or the element. -/
def Value.bare : Value → Value
  | described contained => contained.rawBody
  | value => value

/-- The descriptor of a described value. -/
def Value.label? : Value → Option Descriptor
  | described contained => some contained.descriptor
  | _ => none

namespace Canonical

open Encoder (choose payloadFits)
open Grammar (counted frame)

variable (text : String → Bytes)

/-- A constructor and a number of a width. -/
def numbered (code : Code) (width number : Nat) : Bytes := code.toByte :: Bytes.be width number

/-- An unsigned number in the shortest of three forms: zero is a constructor alone, what fits a
byte is one byte, and anything else has full width. -/
def unsigned (zero small full : Code) (width number : Nat) : Bytes :=
  if number = 0 then [zero.toByte]
  else if number < 256 then numbered small 1 number
  else numbered full width number

/-- An unsigned number of 32 bits in its shortest form. -/
def shortUint (value : UInt32) : Bytes := unsigned .uint0 .smallUint .uint 4 value.toNat

/-- An unsigned number of 64 bits in its shortest form. -/
def shortUlong (value : UInt64) : Bytes := unsigned .ulong0 .smallUlong .ulong 8 value.toNat

/-- A signed number in the shorter of two forms, given its byte and its pattern at full width:
one byte if it fits, and full width otherwise. -/
def signed (small full : Code) (width : Nat) (number : Int) (byte : Int8) (pattern : Nat) :
    Bytes :=
  if -128 ≤ number ∧ number < 128 then numbered small 1 byte.toUInt8.toNat
  else numbered full width pattern

/-- A signed number of 32 bits in its shorter form. -/
def shortInt (value : Int32) : Bytes :=
  signed .smallInt .int 4 value.toInt value.toInt8 value.toUInt32.toNat

/-- A signed number of 64 bits in its shorter form. -/
def shortLong (value : Int64) : Bytes :=
  signed .smallLong .long 8 value.toInt value.toInt8 value.toUInt64.toNat

/-- Bytes behind the shorter prefix that fits their length. -/
def measured (narrow : Code) (bytes : Bytes) : Bytes :=
  if bytes.length < 256 then narrow.toByte :: counted 1 bytes
  else narrow.widen.toByte :: counted 4 bytes

/-- A container with the shorter prefix that fits, unless the longer one is demanded. -/
def container (narrow : Code) (wide : Bool) (count : Nat) (content : Bytes) : Bytes :=
  if wide = false ∧ content.length < 255 ∧ count ≤ 255 then narrow.toByte :: frame 1 count content
  else narrow.widen.toByte :: frame 4 count content

/-- A descriptor. -/
def label : Descriptor → Bytes
  | .code number => shortUlong number
  | .symbol name => measured .symbol8 (Utf8.encode name)

/-- The constructor of full width of each kind. -/
def fullCode : Kind → Code
  | .null => .null
  | .boolean => .boolean
  | .ubyte => .ubyte
  | .ushort => .ushort
  | .uint => .uint
  | .ulong => .ulong
  | .byte => .byte
  | .short => .short
  | .int => .int
  | .long => .long
  | .float => .float
  | .double => .double
  | .decimal32 => .decimal32
  | .decimal64 => .decimal64
  | .decimal128 => .decimal128
  | .char => .char
  | .timestamp => .timestamp
  | .uuid => .uuid
  | .binary => .binary32
  | .string => .string32
  | .symbol => .symbol32
  | .list => .list32
  | .map => .map32
  | .array => .array32
  | .described => .described

/-- Whether the payload of a string fits a one-byte length, if a value is one. -/
def stringFits : Value → Bool
  | .string value => (text value).length ≤ 255
  | _ => true

/-- The constructor that some values share as elements of an array. -/
def sharedCode : List Value → Code
  | [] => .null
  | first :: rest =>
    match first.kind with
    | .binary => choose .binary8 ((first :: rest).all payloadFits)
    | .symbol => choose .symbol8 ((first :: rest).all payloadFits)
    | .string => choose .string8 ((first :: rest).all (stringFits text))
    | kind => fullCode kind

/-- What stands in front of the elements of an array: the descriptor that they share, if
they are described, and the constructor. -/
def arrayHead (items : List Value) : Bytes :=
  (match items.head?.bind Value.label? with
  | some descriptor => Code.described.toByte :: label descriptor
  | none => []) ++ [(sharedCode text (items.map Value.bare)).toByte]

/-- The payload of a value of fixed width. -/
def fixedPayload : Value → Bytes
  | .boolean value => [if value then 1 else 0]
  | .ubyte value => .be 1 value.toNat
  | .ushort value => .be 2 value.toNat
  | .uint value => .be 4 value.toNat
  | .ulong value => .be 8 value.toNat
  | .byte value => .be 1 value.toUInt8.toNat
  | .short value => .be 2 value.toUInt16.toNat
  | .int value => .be 4 value.toUInt32.toNat
  | .long value => .be 8 value.toUInt64.toNat
  | .float bits => .be 4 bits.toNat
  | .double bits => .be 8 bits.toNat
  | .decimal32 bytes => bytes.toList
  | .decimal64 bytes => bytes.toList
  | .decimal128 bytes => bytes.toList
  | .char value => .be 4 value.toNat
  | .timestamp value => .be 8 value.toUInt64.toNat
  | .uuid bytes => bytes.toList
  | _ => []

/-- The width of the length of a payload behind a shared constructor. -/
def lengthWidth (shared : Code) : Nat := if shared.category = .variable 1 then 1 else 4

/-- A payload behind a length of the width that a shared constructor fixes. -/
def measuredAs (shared : Code) (bytes : Bytes) : Bytes := counted (lengthWidth shared) bytes

/-- The payload of a value that contains no values, behind a shared constructor. -/
def simplePayload (shared : Code) : Value → Bytes
  | .binary bytes => measuredAs shared bytes
  | .string value => measuredAs shared (text value)
  | .symbol name => measuredAs shared (Utf8.encode name)
  | value => fixedPayload value

/-- The encoding of a value that contains no values. -/
def simpleEncoding : Value → Bytes
  | .boolean value => [(if value then Code.booleanTrue else .booleanFalse).toByte]
  | .uint value => shortUint value
  | .ulong value => shortUlong value
  | .int value => shortInt value
  | .long value => shortLong value
  | .binary bytes => measured .binary8 bytes
  | .string value => measured .string8 (text value)
  | .symbol name => measured .symbol8 (Utf8.encode name)
  | value => (fullCode value.kind).toByte :: fixedPayload value

/-- The constructor that some symbols share, also if there are none. -/
def symbolCode (names : List String) : Code :=
  if names.all fun name => (Utf8.encode name).length ≤ 255 then .symbol8 else .symbol32

/-- What an array of symbols holds: a constructor, even without elements, and the symbols. -/
def symbolContent (names : List String) : Bytes :=
  (symbolCode names).toByte ::
    names.flatMap fun name => measuredAs (symbolCode names) (Utf8.encode name)

/-- An array of symbols. -/
def symbolArray (names : List String) : Bytes :=
  container .array8 false names.length (symbolContent names)

mutual

/-- The encoding of a value. -/
def encoding : Value → Bytes
  | .list items =>
    if items.isEmpty then [Code.list0.toByte]
    else container .list8 false items.length (encodings items)
  | .map entries => container .map8 false (entries.length * 2) (entryEncodings entries)
  | .array items =>
    container .array8 false items.length
      (arrayHead text items ++ elements (sharedCode text (items.map Value.bare)) items)
  | .described described =>
    Code.described.toByte :: label described.descriptor ++ bodyEncoding described
  | value => simpleEncoding text value
termination_by structural value => value

/-- The encoding of the body of a described value. -/
def bodyEncoding : Described → Bytes
  | .composite form slots =>
    if form.fields.isEmpty then [Code.list0.toByte]
    else container .list8 (needsWideList form.fields slots) (setSlots slots)
      (slotEncodings form.fields (setSlots slots) slots)
  | .content _ body => encoding body
  | .unknown _ body => encoding body
termination_by structural described => described

/-- The encodings of values, one after the other. -/
def encodings : List Value → Bytes
  | [] => []
  | item :: rest => encoding item ++ encodings rest
termination_by structural items => items

/-- The encodings of keys and values, one after the other. -/
def entryEncodings : Entries → Bytes
  | [] => []
  | (key, value) :: rest => encoding key ++ (encoding value ++ entryEncodings rest)
termination_by structural entries => entries

/-- The encodings of so many slots, in which a list of symbols is an array of symbols. -/
def slotEncodings (fields : List Field) (count : Nat) : List Value → Bytes
  | [] => []
  | slot :: rest =>
    match count with
    | 0 => []
    | count + 1 =>
      (match fields.head?.bind fun field => Encoder.slotSymbols? field.type slot with
      | some names => symbolArray names
      | none => encoding slot) ++ slotEncodings fields.tail count rest
termination_by structural slots => slots

/-- The payload of an element of an array behind a shared constructor. -/
def element (shared : Code) : Value → Bytes
  | .list items => frame 4 items.length (encodings items)
  | .map entries => frame 4 (entries.length * 2) (entryEncodings entries)
  | .array items =>
    frame 4 items.length
      (arrayHead text items ++ elements (sharedCode text (items.map Value.bare)) items)
  | .described described => rawElement shared described
  | value => simplePayload text shared value
termination_by structural value => value

/-- The payload of the raw body of a described value. -/
def rawElement (shared : Code) : Described → Bytes
  | .composite _ slots => frame 4 (setSlots slots) (firstEncodings (setSlots slots) slots)
  | .content _ body => element shared body
  | .unknown _ body => element shared body
termination_by structural described => described

/-- The elements of the elements of an array, one after the other. -/
def elements (shared : Code) : List Value → Bytes
  | [] => []
  | item :: rest => element shared item ++ elements shared rest
termination_by structural items => items

/-- The encodings of the first values of some. -/
def firstEncodings (count : Nat) : List Value → Bytes
  | [] => []
  | item :: rest =>
    match count with
    | 0 => []
    | count + 1 => encoding item ++ firstEncodings count rest
termination_by structural items => items

end

section Equations

variable {text : String → Bytes}

/-- Values are encoded each on its own. -/
theorem encodings_eq (items : List Value) :
    encodings text items = items.flatMap (encoding text) := by
  induction items with
  | nil => rfl
  | cons item rest inductionHypothesis =>
    rw [encodings, inductionHypothesis, List.flatMap_cons]

/-- Entries are encoded each on its own, the key in front. -/
theorem entryEncodings_eq (entries : Entries) : entryEncodings text entries =
    entries.flatMap fun entry => encoding text entry.1 ++ encoding text entry.2 := by
  induction entries with
  | nil => rfl
  | cons entry rest inductionHypothesis =>
    rw [entryEncodings, inductionHypothesis, List.flatMap_cons, List.append_assoc]

/-- Elements have a payload each of their own. -/
theorem elements_eq (shared : Code) (items : List Value) :
    elements text shared items = items.flatMap (element text shared) := by
  induction items with
  | nil => rfl
  | cons item rest inductionHypothesis =>
    rw [elements, inductionHypothesis, List.flatMap_cons]

/-- The first values of some are encoded as values on their own. -/
theorem firstEncodings_eq (count : Nat) (items : List Value) :
    firstEncodings text count items = encodings text (items.take count) := by
  induction items generalizing count with
  | nil => cases count <;> rfl
  | cons item rest inductionHypothesis =>
    cases count with
    | zero => rfl
    | succ count => rw [firstEncodings, inductionHypothesis, List.take_succ_cons, encodings]

/-- No more slots are set than there are. -/
theorem setSlots_le (slots : List Value) : setSlots slots ≤ slots.length := by
  have bound := trailingCount_le (slots.map fun slot => !slot.isNull)
  rwa [List.length_map] at bound

/-- A raw body as an element is what its described value is as an element. -/
theorem element_rawBody (shared : Code) (described : Described) :
    element text shared described.rawBody = rawElement text shared described := by
  cases described with
  | composite form slots =>
    rw [Described.rawBody, element, rawElement, firstEncodings_eq, List.length_take,
      Nat.min_eq_left (setSlots_le slots)]
  | content part body => rfl
  | unknown descriptor body => rfl

/-- An array of symbols that has any holds what an array of the same symbols holds. So a list of
symbols needs a rule of its own only where it is empty. -/
theorem symbolContent_cons (name : String) (names : List String) :
    symbolContent (name :: names) =
      arrayHead text ((name :: names).map .symbol) ++
        elements text (sharedCode text (((name :: names).map Value.symbol).map Value.bare))
          ((name :: names).map .symbol) := by
  have bare : ((name :: names).map Value.symbol).map Value.bare =
      (name :: names).map Value.symbol := by
    rw [List.map_map]
    rfl
  have shared : sharedCode text ((name :: names).map Value.symbol) =
      symbolCode (name :: names) := by
    have all : ((name :: names).map Value.symbol).all payloadFits =
        (name :: names).all fun name => decide ((Utf8.encode name).length ≤ 255) := by
      rw [List.all_map]
      rfl
    simp only [symbolCode, ← all]
    rfl
  have head : arrayHead text ((name :: names).map Value.symbol) =
      [(symbolCode (name :: names)).toByte] := by
    rw [arrayHead, bare, shared]
    rfl
  rw [bare, shared, head, elements_eq, symbolContent, List.flatMap_map]
  rfl

/-- An array of symbols that has any is encoded as an array. -/
theorem symbolArray_cons (name : String) (names : List String) :
    symbolArray (name :: names) =
      encoding text (.array ((name :: names).map Value.symbol)) := by
  rw [encoding, symbolArray, ← symbolContent_cons, List.length_map]

/-- An array of symbols has as many bytes as the array of the same symbols. -/
theorem length_symbolArray (names : List String) :
    (symbolArray names).length =
      (encoding text (.array (names.map Value.symbol))).length := by
  cases names with
  | nil => rfl
  | cons name names => rw [symbolArray_cons]

end Equations

end Canonical

end Amqp
