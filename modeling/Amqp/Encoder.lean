import Amqp.Decoder
import Amqp.Encoder.Basic
import Amqp.Source.Buffer

/-!
# Writing values

Every value is written in its shortest form: the smallest constructor that holds a
scalar, the shorter prefix that holds a payload or a container. A list of no elements
has a constructor of its own. Composites leave out the unset fields at their end,
write null for those in between, and have four-byte prefixes whenever a set field
demands it.

The elements of an array share one constructor and have full width, so they must all
be of one kind. Described elements share a descriptor as well, and what is written of
each is its raw body: the body that a reader without knowledge of the form would see.
It is found by writing the element and reading it back with the usual settings, so
only values that a usual reader accepts can be elements.

A raw body that was read back is not a part of the value it comes from, and its own
arrays may hold described elements again. The writer of such bodies is therefore an
argument of the writer of values, and there is one such writer for each level of
nesting that a body read back can have.
-/

namespace Amqp.Encoder

/-- How a raw body that was read back is written behind a shared constructor. -/
abbrev BodyWriter := TextEncoder → Code → Value → Emit Unit

/-- Whether the strings of an array all fit a one-byte length. The hook is asked for
each until one does not. -/
def stringsFit (hook : TextEncoder) : List Value → Emit Bool
  | [] => pure true
  | .string text :: rest => do
    if (← ask hook text).length ≤ 255 then stringsFit hook rest else pure false
  | _ :: rest => stringsFit hook rest

/-- The constructor with one-byte or four-byte lengths. -/
def choose (narrow : Code) (fits : Bool) : Code := if fits then narrow else narrow.widen

/-- Whether the payload of a binary value or a symbol fits a one-byte length. -/
def payloadFits : Value → Bool
  | .binary bytes => bytes.length ≤ 255
  | .symbol name => (Utf8.encode name).length ≤ 255
  | _ => false

/-- The constructor that some values share as elements of an array. -/
def elementCode (hook : TextEncoder) (items : List Value) : Emit Code :=
  match items with
  | [] => pure .null
  | first :: _ =>
    if items.any fun item => item.kind ≠ first.kind then
      refuse (.invalidArray "elements are not of the same type")
    else
      match first.kind with
      | .null => refuse (.invalidArray "null elements have no payload")
      | .described => refuse (.invalidArray "elements are described more than once")
      | .boolean => pure .boolean
      | .ubyte => pure .ubyte
      | .ushort => pure .ushort
      | .uint => pure .uint
      | .ulong => pure .ulong
      | .byte => pure .byte
      | .short => pure .short
      | .int => pure .int
      | .long => pure .long
      | .float => pure .float
      | .double => pure .double
      | .decimal32 => pure .decimal32
      | .decimal64 => pure .decimal64
      | .decimal128 => pure .decimal128
      | .char => pure .char
      | .timestamp => pure .timestamp
      | .uuid => pure .uuid
      | .binary => pure (choose .binary8 (items.all payloadFits))
      | .symbol => pure (choose .symbol8 (items.all payloadFits))
      | .string => return choose .string8 (← stringsFit hook items)
      | .list => pure .list32
      | .map => pure .map32
      | .array => pure .array32

/-- Write a descriptor. -/
def putDescriptor : Descriptor → Emit Unit
  | .code number => putUlong number
  | .symbol name => putSymbol name

/-- The descriptor and raw body of a described value, given how the value is written.
One of no known form keeps its own; any other is written and read back. -/
def rawParts (described : Described) (write : Emit Unit) : Except Failure (Descriptor × Value) :=
  match described with
  | .unknown descriptor body => .ok (descriptor, body)
  | _ =>
    match atomic write (.fresh .shift) with
    | .error failure _ => .error failure
    | .ok _ state =>
      match Decoder.decodeDescribedParts .standard (Buffer.ofBytes state.sink.toBytes) with
      | .ok parts _ => .ok parts
      | .error error _ => .error (.refused error)

/-- The symbols of a slot whose field is a list of symbols. -/
def slotSymbols? (type : Ty) (slot : Value) : Option (List String) :=
  match type, slot with
  | .symbols, .array items => some (Value.symbolNames items)
  | _, _ => none

/-- How the elements of an array are laid out: the constructor they share, and the
descriptor they share and their raw bodies if they are described. -/
structure ArrayLayout where
  code : Code
  raw : Option (Descriptor × List Value)

/-- Lay out the elements of an array, given how the raw bodies are found. -/
def arrayLayout (hook : TextEncoder) (items : List Value)
    (raw : Unit → Except Failure (Option Descriptor × List Value)) : Emit ArrayLayout :=
  match items with
  | .described _ :: _ =>
    match raw () with
    | .error failure => throw failure
    | .ok (descriptor, bodies) => do
      let code ← elementCode hook bodies
      pure ⟨code, descriptor.map (·, bodies)⟩
  | _ => return ⟨← elementCode hook items, none⟩

/-- Write what an array holds: descriptor, constructor, elements. -/
def putArrayPayload (layout : ArrayLayout) (own : Code → Emit Unit)
    (raw : Code → List Value → Emit Unit) : Emit Unit :=
  match layout.raw with
  | some (descriptor, bodies) => do
    putCode .described
    putDescriptor descriptor
    putCode layout.code
    raw layout.code bodies
  | none => do
    putCode layout.code
    own layout.code

/-- Write things one after the other. -/
def putEach {α : Type} (write : α → Emit Unit) : List α → Emit Unit
  | [] => pure ()
  | item :: rest => do
    write item
    putEach write rest

/-- Things made of other things are written as those are. -/
theorem putEach_map {α β : Type} (make : α → β) (write : β → Emit Unit) (items : List α) :
    putEach write (items.map make) = putEach (fun item => write (make item)) items := by
  induction items with
  | nil => rfl
  | cons item rest inductionHypothesis => rw [List.map_cons, putEach, putEach, inductionHypothesis]

section Values

variable (below : BodyWriter)

mutual

/-- Write a value. What a failure leaves behind stays. -/
def writeValue (hook : TextEncoder) : Value → Emit Unit
  | .null => putCode .null
  | .boolean value => putCode (if value then .booleanTrue else .booleanFalse)
  | .ubyte value => putNumber .ubyte 1 value.toNat
  | .ushort value => putNumber .ushort 2 value.toNat
  | .uint value => putUint value
  | .ulong value => putUlong value
  | .byte value => putNumber .byte 1 value.toUInt8.toNat
  | .short value => putNumber .short 2 value.toUInt16.toNat
  | .int value => putInt value
  | .long value => putLong value
  | .float bits => putNumber .float 4 bits.toNat
  | .double bits => putNumber .double 8 bits.toNat
  | .decimal32 bytes => do
    putCode .decimal32
    put bytes.toList
  | .decimal64 bytes => do
    putCode .decimal64
    put bytes.toList
  | .decimal128 bytes => do
    putCode .decimal128
    put bytes.toList
  | .char value => putNumber .char 4 value.toNat
  | .timestamp value => putNumber .timestamp 8 value.toUInt64.toNat
  | .uuid bytes => do
    putCode .uuid
    put bytes.toList
  | .binary bytes => putPayload .binary8 bytes
  | .string text => putString hook text
  | .symbol name => putSymbol name
  | .list [] => putCode .list0
  | .list items => do
    let mark ← openContainer .list8
    writeItems hook items
    closeContainer mark items.length false
  | .map entries => do
    let mark ← openContainer .map8
    writeEntries hook entries
    closeContainer mark (entries.length * 2) false
  | .array items => do
    let layout ← arrayLayout hook items fun _ => rawBodies none [] items
    let mark ← openContainer .array8
    putArrayPayload layout (fun code => writeElements hook code items)
      fun code bodies => writeRawElements hook code bodies items
    closeContainer mark items.length false
  | .described described => writeDescribed hook described
termination_by structural value => value

/-- Write a described value. -/
def writeDescribed (hook : TextEncoder) : Described → Emit Unit
  | .composite form slots => do
    putCode .described
    putUlong form.code
    if form.fields.isEmpty then
      putCode .list0
    else
      let count := setSlots slots
      let mark ← openContainer .list8
      writeSlots hook form.fields count slots
      closeContainer mark count (needsWideList form.fields slots)
  | .content part body => do
    putCode .described
    putUlong part.code
    if part = .amqpValue then atomic (writeValue hook body) else writeValue hook body
  | .unknown descriptor body => do
    putCode .described
    putDescriptor descriptor
    atomic (writeValue hook body)
termination_by structural described => described

/-- Write values one after the other, each whole or not at all. -/
def writeItems (hook : TextEncoder) : List Value → Emit Unit
  | [] => pure ()
  | item :: rest => do
    atomic (writeValue hook item)
    writeItems hook rest
termination_by structural items => items

/-- Write pairs one after the other, each part whole or not at all. -/
def writeEntries (hook : TextEncoder) : Entries → Emit Unit
  | [] => pure ()
  | (key, value) :: rest => do
    atomic (writeValue hook key)
    atomic (writeValue hook value)
    writeEntries hook rest
termination_by structural entries => entries

/-- Write so many slots of a composite, each whole or not at all. Asking for more
slots than there are is a defect. -/
def writeSlots (hook : TextEncoder) (fields : List Field) (count : Nat) :
    List Value → Emit Unit
  | [] => if count = 0 then pure () else throw (.defect .fieldsExceeded)
  | slot :: rest =>
    match count with
    | 0 => pure ()
    | count + 1 => do
      match fields.head?.bind fun field => slotSymbols? field.type slot with
      | some names => atomic (putSymbolArray names)
      | none => atomic (writeValue hook slot)
      writeSlots hook fields.tail count rest
termination_by structural slots => slots

/-- Write an element of an array behind the constructor it shares. -/
def writeElement (hook : TextEncoder) (shared : Code) : Value → Emit Unit
  | .boolean value => putByte (if value then 1 else 0)
  | .ubyte value => put (.be 1 value.toNat)
  | .ushort value => put (.be 2 value.toNat)
  | .uint value => put (.be 4 value.toNat)
  | .ulong value => put (.be 8 value.toNat)
  | .byte value => put (.be 1 value.toUInt8.toNat)
  | .short value => put (.be 2 value.toUInt16.toNat)
  | .int value => put (.be 4 value.toUInt32.toNat)
  | .long value => put (.be 8 value.toUInt64.toNat)
  | .float bits => put (.be 4 bits.toNat)
  | .double bits => put (.be 8 bits.toNat)
  | .decimal32 bytes => put bytes.toList
  | .decimal64 bytes => put bytes.toList
  | .decimal128 bytes => put bytes.toList
  | .char value => put (.be 4 value.toNat)
  | .timestamp value => put (.be 8 value.toUInt64.toNat)
  | .uuid bytes => put bytes.toList
  | .binary bytes => putElementPayload shared bytes
  | .string text => do putElementPayload shared (← ask hook text)
  | .symbol name => putElementPayload shared (Utf8.encode name)
  | .list items => putWideBody items.length (writeItems hook items)
  | .map entries => putWideBody (entries.length * 2) (writeEntries hook entries)
  | .array items => do
    let layout ← arrayLayout hook items fun _ => rawBodies none [] items
    putWideBody items.length <|
      putArrayPayload layout (fun code => writeElements hook code items)
        fun code bodies => writeRawElements hook code bodies items
  | .null | .described _ => throw (.defect .elementWithoutForm)
termination_by structural value => value

/-- Write the elements of an array behind the constructor they share. -/
def writeElements (hook : TextEncoder) (shared : Code) : List Value → Emit Unit
  | [] => pure ()
  | item :: rest => do
    writeElement hook shared item
    writeElements hook shared rest
termination_by structural items => items

/-- Write the raw bodies of described elements behind the constructor they share. The
body of an element of no known form is a part of the element. -/
def writeRawElements (hook : TextEncoder) (shared : Code) (bodies : List Value) :
    List Value → Emit Unit
  | [] => pure ()
  | .described (.unknown _ body) :: rest => do
    writeElement hook shared body
    writeRawElements hook shared bodies.tail rest
  | _ :: rest => do
    match bodies.head? with
    | some body => below hook shared body
    | none => pure ()
    writeRawElements hook shared bodies.tail rest
termination_by structural items => items

/-- The shared descriptor and the raw bodies of described elements, behind the bodies
given, latest first. -/
def rawBodies (shared : Option Descriptor) (bodies : List Value) :
    List Value → Except Failure (Option Descriptor × List Value)
  | [] => .ok (shared, bodies.reverse)
  | .described described :: rest =>
    match rawParts described (writeDescribed .strict described) with
    | .error failure => .error failure
    | .ok (descriptor, body) =>
      if shared.any (· ≠ descriptor) then
        .error (.refused (.invalidArray "elements do not share a descriptor"))
      else rawBodies (some descriptor) (body :: bodies) rest
  | _ :: _ => .error (.refused (.invalidArray "elements are not of the same type"))
termination_by structural items => items

end

/-- Items are written one after the other, each whole or not at all. -/
theorem writeItems_eq_putEach (hook : TextEncoder) (items : List Value) :
    writeItems below hook items =
      putEach (fun item => atomic (writeValue below hook item)) items := by
  induction items with
  | nil => rfl
  | cons item rest inductionHypothesis => rw [writeItems, putEach, inductionHypothesis]

/-- Entries are written one after the other, each part whole or not at all. -/
theorem writeEntries_eq_putEach (hook : TextEncoder) (entries : Entries) :
    writeEntries below hook entries = putEach (fun entry => do
      atomic (writeValue below hook entry.1)
      atomic (writeValue below hook entry.2)) entries := by
  induction entries with
  | nil => rfl
  | cons entry rest inductionHypothesis =>
    rw [writeEntries, putEach, inductionHypothesis, bind_assoc]

/-- Elements are written one after the other behind the constructor they share. -/
theorem writeElements_eq_putEach (hook : TextEncoder) (shared : Code) (items : List Value) :
    writeElements below hook shared items = putEach (writeElement below hook shared) items := by
  induction items with
  | nil => rfl
  | cons item rest inductionHypothesis => rw [writeElements, putEach, inductionHypothesis]

end Values

/-- The writer of raw bodies when so many levels are left. -/
def bodyWriter : (levels : Nat) → BodyWriter
  | 0 => fun _ _ _ => refuse (.nestingTooDeep defaultMaxDepth)
  | levels + 1 => writeElement (bodyWriter levels)

/-- The writer of the raw bodies that are read back while a value is written. The
reader has the usual limit, so as many levels as that are enough. -/
def standardBodies : BodyWriter := bodyWriter defaultMaxDepth

/-- Write a value, whole or not at all. -/
def encodeValue (hook : TextEncoder) (value : Value) : Emit Unit :=
  atomic (writeValue standardBodies hook value)

/-- Write a value by the form of its own kind. What a failure leaves behind stays. -/
def encodeDirect (hook : TextEncoder) (value : Value) : Emit Unit :=
  writeValue standardBodies hook value

/-- Write a body under a descriptor. What a failure leaves behind stays, except of the
body. -/
def encodeDescribedValue (hook : TextEncoder) (descriptor : Descriptor) (body : Value) :
    Emit Unit := do
  putCode .described
  putDescriptor descriptor
  encodeValue hook body

/-- Write a value as its type shows it. What a failure leaves behind stays. -/
def writeAs (hook : TextEncoder) : Ty → Value → Emit Unit
  | .any, value => encodeValue hook value
  | .symbols, .array items => putSymbolArray (Value.symbolNames items)
  | .typedMap _ values, .map entries => do
    let mark ← openContainer .map8
    putEach (fun entry => do
      encodeDirect hook entry.1
      writeAs hook values entry.2) entries
    closeContainer mark (entries.length * 2) false
  | .optional inner, value =>
    match value with
    | .null => putCode .null
    | other => writeAs hook inner other
  | _, value => encodeDirect hook value
termination_by structural type => type

/-- Write a body under a descriptor as its type shows it. What a failure leaves behind
stays. -/
def describeAs (hook : TextEncoder) (descriptor : Descriptor) (type : Ty) (body : Value) :
    Emit Unit := do
  putCode .described
  putDescriptor descriptor
  writeAs hook type body

/-- Write a value as its type shows it, whole or not at all. -/
def encodeAs (hook : TextEncoder) (type : Ty) (value : Value) : Emit Unit :=
  atomic (writeAs hook type value)

/-- Write so many of the slots of a composite. -/
def encodeSlots (hook : TextEncoder) (form : Composite) (slots : List Value) (count : Nat) :
    Emit Unit :=
  writeSlots standardBodies hook form.fields count slots

/-- The descriptor and raw body of a described value. -/
def raw (described : Described) : Except Failure (Descriptor × Value) :=
  rawParts described (writeDescribed standardBodies .strict described)

end Amqp.Encoder
