import Amqp.Registry
import Amqp.Code
import Amqp.Text.Hook
import Amqp.Proofs.Value.Parts

/-!
# The grammar of encodings

Which byte strings encode which values is said here without reading or writing. An
encoding is a constructor and a payload. The payload of a scalar is a number of fixed
width; a string of bytes has its length in front; a container has its size and its count
in front, where the size counts the bytes of the count as well. The elements of an array
follow one shared constructor, which may be preceded by a descriptor that they share too.

An encoding within some levels contains encodings within one level less. A list, a map,
a described value, and an array that names a constructor need a level of their own, even
without elements; an array of no bytes at all needs none.
-/

namespace Amqp.Grammar

/-- Byte strings for some items, one after the other. -/
inductive Sequence {α : Type} (one : Bytes → α → Prop) : Bytes → List α → Prop
  | nil : Sequence one [] []
  | cons {front back : Bytes} {item : α} {items : List α} (first : one front item)
      (later : Sequence one back items) : Sequence one (front ++ back) (item :: items)

/-- The payloads of fixed width. Numbers are big-endian, and the small signed forms hold
a number of one byte with its sign. -/
inductive Scalar : Code → Bytes → Value → Prop
  | null : Scalar .null [] .null
  | booleanTrue : Scalar .booleanTrue [] (.boolean true)
  | booleanFalse : Scalar .booleanFalse [] (.boolean false)
  | boolean (value : Bool) : Scalar .boolean [if value then 1 else 0] (.boolean value)
  | uint0 : Scalar .uint0 [] (.uint 0)
  | ulong0 : Scalar .ulong0 [] (.ulong 0)
  | list0 : Scalar .list0 [] (.list [])
  | ubyte (value : UInt8) : Scalar .ubyte (.be 1 value.toNat) (.ubyte value)
  | ushort (value : UInt16) : Scalar .ushort (.be 2 value.toNat) (.ushort value)
  | smallUint (value : UInt8) : Scalar .smallUint (.be 1 value.toNat) (.uint value.toUInt32)
  | uint (value : UInt32) : Scalar .uint (.be 4 value.toNat) (.uint value)
  | smallUlong (value : UInt8) : Scalar .smallUlong (.be 1 value.toNat) (.ulong value.toUInt64)
  | ulong (value : UInt64) : Scalar .ulong (.be 8 value.toNat) (.ulong value)
  | byte (value : Int8) : Scalar .byte (.be 1 value.toUInt8.toNat) (.byte value)
  | short (value : Int16) : Scalar .short (.be 2 value.toUInt16.toNat) (.short value)
  | smallInt (value : Int8) :
      Scalar .smallInt (.be 1 value.toUInt8.toNat) (.int value.toInt32)
  | int (value : Int32) : Scalar .int (.be 4 value.toUInt32.toNat) (.int value)
  | smallLong (value : Int8) :
      Scalar .smallLong (.be 1 value.toUInt8.toNat) (.long value.toInt64)
  | long (value : Int64) : Scalar .long (.be 8 value.toUInt64.toNat) (.long value)
  | float (bits : UInt32) : Scalar .float (.be 4 bits.toNat) (.float bits)
  | double (bits : UInt64) : Scalar .double (.be 8 bits.toNat) (.double bits)
  | decimal32 (bytes : Vector UInt8 4) : Scalar .decimal32 bytes.toList (.decimal32 bytes)
  | decimal64 (bytes : Vector UInt8 8) : Scalar .decimal64 bytes.toList (.decimal64 bytes)
  | decimal128 (bytes : Vector UInt8 16) :
      Scalar .decimal128 bytes.toList (.decimal128 bytes)
  | char (value : Char) : Scalar .char (.be 4 value.toNat) (.char value)
  | timestamp (value : Int64) :
      Scalar .timestamp (.be 8 value.toUInt64.toNat) (.timestamp value)
  | uuid (bytes : Vector UInt8 16) : Scalar .uuid bytes.toList (.uuid bytes)

/-- Bytes behind their length in a prefix of a width. -/
def counted (width : Nat) (content : Bytes) : Bytes :=
  .be width content.length ++ content

/-- What a container holds behind its size and count, each of a width. The bytes of the
count belong to the size. -/
def frame (width count : Nat) (content : Bytes) : Bytes :=
  .be width (width + content.length) ++ .be width count ++ content

/-- A constructor and what is behind it. -/
def Coded {α : Type} (behind : Code → Bytes → α → Prop) (bytes : Bytes) (item : α) : Prop :=
  ∃ code content, bytes = code.toByte :: content ∧ behind code content item

/-- What is behind the constructor of a descriptor: a number in any of its forms, or a
symbol. -/
inductive Label (text : TextDecoder) : Code → Bytes → Descriptor → Prop
  | code {code : Code} {content : Bytes} {number : UInt64}
      (scalar : Scalar code content (.ulong number)) : Label text code content (.code number)
  | symbol {code : Code} {width : Nat} {content : Bytes} {name : String}
      (category : code.category = .variable width) (kind : code.kind = .symbol)
      (fits : content.length < 256 ^ width) (read : text content = .ok name) :
      Label text code (counted width content) (.symbol name)

/-- The constructor that the elements of an array share, with a descriptor in front if
they are described. The shared constructor is never described itself. -/
inductive Constructor (text : TextDecoder) : Bytes → Option Descriptor → Code → Prop
  | plain {code : Code} (plain : code ≠ .described) : Constructor text [code.toByte] none code
  | described {front : Bytes} {descriptor : Descriptor} {code : Code}
      (label : Coded (Label text) front descriptor) (plain : code ≠ .described) :
      Constructor text (Code.described.toByte :: front ++ [code.toByte]) (some descriptor) code

/-- The element that a body makes behind the shared descriptor. -/
def Resolves : Option Descriptor → Value → Value → Prop
  | none, body, value => value = body
  | some descriptor, body, value =>
    ∃ described, Registry.standard.resolve descriptor body = .ok described ∧
      value = .described described

/-- The payload of an element of an array behind the shared constructor. -/
def Element (inside : Code → Bytes → Value → Prop) (descriptor : Option Descriptor)
    (shared : Code) (content : Bytes) (value : Value) : Prop :=
  ∃ body, inside shared content body ∧ Resolves descriptor body value

/-- Two encodings, one behind the other, for a key and its value. -/
def Paired (one : Bytes → Value → Prop) (bytes : Bytes) (entry : Value × Value) : Prop :=
  ∃ front back, bytes = front ++ back ∧ one front entry.1 ∧ one back entry.2

/-- The payloads of a constructor, given those one level further down, if there is a
level. -/
inductive Payload (text : TextDecoder) (below : Option (Code → Bytes → Value → Prop)) :
    Code → Bytes → Value → Prop
  | scalar {code : Code} {content : Bytes} {value : Value}
      (scalar : Scalar code content value) : Payload text below code content value
  | binary {code : Code} {width : Nat} {content : Bytes}
      (category : code.category = .variable width) (kind : code.kind = .binary)
      (fits : content.length < 256 ^ width) :
      Payload text below code (counted width content) (.binary content)
  | string {code : Code} {width : Nat} {content : Bytes} {value : String}
      (category : code.category = .variable width) (kind : code.kind = .string)
      (fits : content.length < 256 ^ width) (read : text content = .ok value) :
      Payload text below code (counted width content) (.string value)
  | symbol {code : Code} {width : Nat} {content : Bytes} {name : String}
      (category : code.category = .variable width) (kind : code.kind = .symbol)
      (fits : content.length < 256 ^ width) (read : text content = .ok name) :
      Payload text below code (counted width content) (.symbol name)
  | list {code : Code} {width : Nat} {inside : Code → Bytes → Value → Prop} {content : Bytes}
      {items : List Value} (category : code.category = .compound width)
      (kind : code.kind = .list) (level : below = some inside)
      (sequence : Sequence (Coded inside) content items)
      (fits : width + content.length < 256 ^ width) :
      Payload text below code (frame width items.length content) (.list items)
  | map {code : Code} {width : Nat} {inside : Code → Bytes → Value → Prop} {content : Bytes}
      {entries : Entries} (category : code.category = .compound width)
      (kind : code.kind = .map) (level : below = some inside)
      (sequence : Sequence (Paired (Coded inside)) content entries)
      (fits : width + content.length < 256 ^ width) :
      Payload text below code (frame width (2 * entries.length) content) (.map entries)
  | noArray {code : Code} {width : Nat} (category : code.category = .compound width)
      (kind : code.kind = .array) : Payload text below code (frame width 0 []) (.array [])
  | array {code shared : Code} {width : Nat} {inside : Code → Bytes → Value → Prop}
      {front content : Bytes} {descriptor : Option Descriptor} {items : List Value}
      (category : code.category = .compound width) (kind : code.kind = .array)
      (level : below = some inside) (constructor : Constructor text front descriptor shared)
      (sequence : Sequence (Element inside descriptor shared) content items)
      (fits : width + (front ++ content).length < 256 ^ width)
      (paid : items.length ≤ (front ++ content).length) :
      Payload text below code (frame width items.length (front ++ content)) (.array items)
  | described {inside : Code → Bytes → Value → Prop} {front back : Bytes}
      {descriptor : Descriptor} {body : Value} {value : Described} (level : below = some inside)
      (label : Coded (Label text) front descriptor) (encoded : Coded inside back body)
      (resolved : Registry.standard.resolve descriptor body = .ok value) :
      Payload text below .described (front ++ back) (.described value)

/-- The payloads of a constructor within so many levels. -/
def payload (text : TextDecoder) : (levels : Nat) → Code → Bytes → Value → Prop
  | 0 => Payload text none
  | levels + 1 => Payload text (some (payload text levels))

/-- The payloads one level further down, if a level is left. -/
def payloadBelow (text : TextDecoder) : (levels : Nat) → Option (Code → Bytes → Value → Prop)
  | 0 => none
  | levels + 1 => some (payload text levels)

/-- The payloads within so many levels contain those one level further down. -/
theorem payload_eq (text : TextDecoder) (levels : Nat) :
    payload text levels = Payload text (payloadBelow text levels) := by
  cases levels <;> rfl

/-- A level is left if there are any. -/
theorem payloadBelow_eq_some {text : TextDecoder} {levels : Nat}
    {inside : Code → Bytes → Value → Prop} :
    payloadBelow text levels = some inside ↔
      ∃ further, levels = further + 1 ∧ inside = payload text further := by
  cases levels with
  | zero => exact ⟨nofun, nofun⟩
  | succ further =>
    constructor
    · rintro ⟨⟩
      exact ⟨further, rfl, rfl⟩
    · rintro ⟨_, ⟨⟩, rfl⟩
      rfl

/-- The encodings of a value within so many levels. -/
def Encoding (text : TextDecoder) (levels : Nat) : Bytes → Value → Prop :=
  Coded (payload text levels)

/-- The width class of a scalar is the number of bytes of its payload. -/
theorem Scalar.category {code : Code} {content : Bytes} {value : Value}
    (scalar : Scalar code content value) : code.category = .fixed content.length := by
  cases scalar <;> simp [Code.category]

/-- An encoding begins with its constructor, so it is not empty. -/
theorem Coded.ne_nil {α : Type} {behind : Code → Bytes → α → Prop} {bytes : Bytes} {item : α}
    (coded : Coded behind bytes item) : bytes ≠ [] := by
  obtain ⟨code, content, rfl, _⟩ := coded
  exact List.cons_ne_nil _ _

/-- The shared constructor of an array takes bytes. -/
theorem Constructor.length_pos {text : TextDecoder} {bytes : Bytes}
    {descriptor : Option Descriptor} {shared : Code}
    (constructor : Constructor text bytes descriptor shared) : 0 < bytes.length := by
  cases constructor <;> simp

namespace Sequence

variable {α : Type} {one other : Bytes → α → Prop} {bytes : Bytes} {items : List α}

/-- A wider reading of the items keeps a sequence of them. -/
theorem imp (each : ∀ bytes item, one bytes item → other bytes item)
    (sequence : Sequence one bytes items) : Sequence other bytes items := by
  induction sequence with
  | nil => exact .nil
  | cons first _ inductionHypothesis => exact .cons (each _ _ first) inductionHypothesis

/-- Items that take bytes are no more than the bytes they take. -/
theorem length_le (nonempty : ∀ bytes item, one bytes item → bytes ≠ [])
    (sequence : Sequence one bytes items) : items.length ≤ bytes.length := by
  induction sequence with
  | nil => exact Nat.le_refl 0
  | cons first _ inductionHypothesis =>
    have positive := List.length_pos_iff.mpr (nonempty _ _ first)
    simp only [List.length_cons, List.length_append]
    omega

/-- Items that take no bytes take none together. -/
theorem eq_nil (empty : ∀ bytes item, one bytes item → bytes = [])
    (sequence : Sequence one bytes items) : bytes = [] := by
  induction sequence with
  | nil => rfl
  | cons first _ inductionHypothesis => rw [empty _ _ first, inductionHypothesis, List.nil_append]

/-- Every item of a sequence has bytes of its own. -/
theorem exists_of_mem (sequence : Sequence one bytes items) {item : α} (member : item ∈ items) :
    ∃ part, one part item := by
  induction sequence with
  | nil => cases member
  | cons first _ inductionHypothesis =>
    rcases List.mem_cons.mp member with rfl | member
    · exact ⟨_, first⟩
    · exact inductionHypothesis member

/-- Items that are written each in its way are a sequence of what is written. -/
theorem flatMap {write : α → Bytes} (each : ∀ item ∈ items, one (write item) item) :
    Sequence one (items.flatMap write) items := by
  induction items with
  | nil => exact .nil
  | cons item rest inductionHypothesis =>
    exact .cons (each item List.mem_cons_self)
      (inductionHypothesis fun other member => each other (List.mem_cons_of_mem _ member))

end Sequence

/-- Behind a constructor of fixed width there are scalars only. -/
theorem payload_iff_scalar {text : TextDecoder}
    {below : Option (Code → Bytes → Value → Prop)} {code : Code} {width : Nat}
    (fixed : code.category = .fixed width) {content : Bytes} {value : Value} :
    Payload text below code content value ↔ Scalar code content value := by
  refine ⟨fun payload => ?_, .scalar⟩
  cases payload with
  | scalar scalar => exact scalar
  | described => cases fixed
  | _ => simp_all

/-- The payload of a constructor of fixed width has that width. -/
theorem Payload.length_of_fixed {text : TextDecoder}
    {below : Option (Code → Bytes → Value → Prop)} {code : Code} {content : Bytes}
    {value : Value} {width : Nat} (payload : Payload text below code content value)
    (fixed : code.category = .fixed width) : content.length = width := by
  have same := ((payload_iff_scalar fixed).mp payload).category
  rw [fixed] at same
  exact (Category.fixed.inj same).symm

section Inversion

variable {text : TextDecoder} {below : Option (Code → Bytes → Value → Prop)} {code : Code}
  {width : Nat} {bytes : Bytes} {value : Value}

/-- Behind a constructor of binary values there are bytes behind their length, and nothing else:
the rules for other constructors are ruled out by class or kind. This and the following
equivalences are how readers meet the grammar. -/
theorem payload_iff_binary (category : code.category = .variable width)
    (kind : code.kind = .binary) : Payload text below code bytes value ↔
      ∃ content, content.length < 256 ^ width ∧ bytes = counted width content ∧
        value = .binary content := by
  constructor
  · intro payload
    cases payload with
    | scalar scalar => rw [scalar.category] at category; cases category
    | binary category' _ fits =>
      rw [category] at category'
      cases category'
      exact ⟨_, fits, rfl, rfl⟩
    | described => cases category
    | _ => simp_all
  · rintro ⟨content, fits, rfl, rfl⟩
    exact .binary category kind fits

/-- Behind a constructor of strings there is text behind its length. What the bytes are read as
is decided by the hook, which may refuse them. -/
theorem payload_iff_string (category : code.category = .variable width)
    (kind : code.kind = .string) : Payload text below code bytes value ↔
      ∃ content, content.length < 256 ^ width ∧ bytes = counted width content ∧
        ∃ read, text content = .ok read ∧ value = .string read := by
  constructor
  · intro payload
    cases payload with
    | scalar scalar => rw [scalar.category] at category; cases category
    | string category' _ fits read =>
      rw [category] at category'
      cases category'
      exact ⟨_, fits, rfl, _, read, rfl⟩
    | described => cases category
    | _ => simp_all
  · rintro ⟨content, fits, rfl, _, read, rfl⟩
    exact .string category kind fits read

/-- Behind a constructor of symbols there is text behind its length. It is read as the settings
have it, as the text of a string is. -/
theorem payload_iff_symbol (category : code.category = .variable width)
    (kind : code.kind = .symbol) : Payload text below code bytes value ↔
      ∃ content, content.length < 256 ^ width ∧ bytes = counted width content ∧
        ∃ name, text content = .ok name ∧ value = .symbol name := by
  constructor
  · intro payload
    cases payload with
    | scalar scalar => rw [scalar.category] at category; cases category
    | symbol category' _ fits read =>
      rw [category] at category'
      cases category'
      exact ⟨_, fits, rfl, _, read, rfl⟩
    | described => cases category
    | _ => simp_all
  · rintro ⟨content, fits, rfl, _, read, rfl⟩
    exact .symbol category kind fits read

/-- Behind a constructor of lists with a size there are encodings one level down. The size fits
the width of the prefix together with the count; the number of the items need not be asked to
fit, since each of them has a byte. -/
theorem payload_iff_list (category : code.category = .compound width)
    (kind : code.kind = .list) : Payload text below code bytes value ↔
      ∃ inside content items, below = some inside ∧ Sequence (Coded inside) content items ∧
        width + content.length < 256 ^ width ∧ bytes = frame width items.length content ∧
        value = .list items := by
  constructor
  · intro payload
    cases payload with
    | scalar scalar => rw [scalar.category] at category; cases category
    | list category' _ level sequence fits =>
      rw [category] at category'
      cases category'
      exact ⟨_, _, _, level, sequence, fits, rfl, rfl⟩
    | described => cases category
    | _ => simp_all
  · rintro ⟨inside, content, items, level, sequence, fits, rfl, rfl⟩
    exact .list category kind level sequence fits

/-- Behind a constructor of maps there are pairs of encodings one level down. The count is that
of keys and values together. -/
theorem payload_iff_map (category : code.category = .compound width)
    (kind : code.kind = .map) : Payload text below code bytes value ↔
      ∃ inside content entries, below = some inside ∧
        Sequence (Paired (Coded inside)) content entries ∧
        width + content.length < 256 ^ width ∧
        bytes = frame width (2 * entries.length) content ∧ value = .map entries := by
  constructor
  · intro payload
    cases payload with
    | scalar scalar => rw [scalar.category] at category; cases category
    | map category' _ level sequence fits =>
      rw [category] at category'
      cases category'
      exact ⟨_, _, _, level, sequence, fits, rfl, rfl⟩
    | described => cases category
    | _ => simp_all
  · rintro ⟨inside, content, entries, level, sequence, fits, rfl, rfl⟩
    exact .map category kind level sequence fits

/-- Behind a constructor of arrays there is nothing, or a shared constructor and the payloads of
the elements one level down. The two alternatives exclude each other, because a shared
constructor takes a byte. -/
theorem payload_iff_array (category : code.category = .compound width)
    (kind : code.kind = .array) : Payload text below code bytes value ↔
      (bytes = frame width 0 [] ∧ value = .array []) ∨
      ∃ inside front content descriptor shared items, below = some inside ∧
        Constructor text front descriptor shared ∧
        Sequence (Element inside descriptor shared) content items ∧
        width + (front ++ content).length < 256 ^ width ∧
        items.length ≤ (front ++ content).length ∧
        bytes = frame width items.length (front ++ content) ∧ value = .array items := by
  constructor
  · intro payload
    cases payload with
    | scalar scalar => rw [scalar.category] at category; cases category
    | noArray category' _ =>
      rw [category] at category'
      cases category'
      exact .inl ⟨rfl, rfl⟩
    | array category' _ level constructor sequence fits paid =>
      rw [category] at category'
      cases category'
      exact .inr ⟨_, _, _, _, _, _, level, constructor, sequence, fits, paid, rfl, rfl⟩
    | described => cases category
    | _ => simp_all
  · rintro (⟨rfl, rfl⟩ | ⟨inside, front, content, descriptor, shared, items, level, constructor,
      sequence, fits, paid, rfl, rfl⟩)
    · exact .noArray category kind
    · exact .array category kind level constructor sequence fits paid

/-- Behind the announcing byte there are a descriptor and a body one level down, from which the
registry makes the described value. Bytes whose body it refuses are no encoding of anything. -/
theorem payload_iff_described : Payload text below .described bytes value ↔
    ∃ described, (∃ inside, below = some inside ∧ ∃ front back descriptor body,
      bytes = front ++ back ∧ Coded (Label text) front descriptor ∧ Coded inside back body ∧
      Registry.standard.resolve descriptor body = .ok described) ∧
      value = .described described := by
  constructor
  · intro payload
    cases payload with
    | scalar scalar => cases scalar
    | described level label encoded resolved =>
      exact ⟨_, ⟨_, level, _, _, _, _, rfl, label, encoded, resolved⟩, rfl⟩
    | binary category => cases category
    | string category => cases category
    | symbol category => cases category
    | list category => cases category
    | map category => cases category
    | noArray category => cases category
    | array category => cases category
  · rintro ⟨described, ⟨inside, level, front, back, descriptor, body, rfl, label, encoded,
      resolved⟩, rfl⟩
    exact .described level label encoded resolved

/-- Only behind the announcing byte there are described values. -/
theorem Payload.eq_described {described : Described}
    (payload : Payload text below code bytes (.described described)) : code = .described := by
  cases payload with
  | scalar scalar => cases scalar
  | described => rfl

end Inversion

/-- Only a constructor of width zero has an empty payload. All others begin with a number of
their width or with a label. -/
theorem Payload.ne_nil {text : TextDecoder} {below : Option (Code → Bytes → Value → Prop)}
    {code : Code} {content : Bytes} {value : Value}
    (payload : Payload text below code content value) (positive : code.category ≠ .fixed 0) :
    content ≠ [] := by
  rintro rfl
  generalize empty : ([] : Bytes) = content at payload
  have long {width : Nat} (class' : code.category = .variable width ∨
      code.category = .compound width) (number : Nat) (rest : Bytes) :
      ([] : Bytes) ≠ Bytes.be width number ++ rest := by
    intro same
    have none := congrArg List.length same
    rw [List.length_append, Bytes.length_be, List.length_nil] at none
    obtain rfl : width = 0 := by omega
    rcases class' with category | category <;> cases code <;> cases category
  cases payload with
  | scalar scalar =>
    subst empty
    exact positive scalar.category
  | binary category => exact long (.inl category) _ _ empty
  | string category => exact long (.inl category) _ _ empty
  | symbol category => exact long (.inl category) _ _ empty
  | list category => exact long (.inr category) _ _ (empty.trans (List.append_assoc ..))
  | map category => exact long (.inr category) _ _ (empty.trans (List.append_assoc ..))
  | noArray category => exact long (.inr category) _ _ (empty.trans (List.append_assoc ..))
  | array category => exact long (.inr category) _ _ (empty.trans (List.append_assoc ..))
  | described level label => exact label.ne_nil (List.append_eq_nil_iff.mp empty.symm).1

/-- Payloads with more readings one level further down are payloads all the same. The parts are
only used through the readings of that level, so each rule is applied again to its parts. -/
theorem Payload.imp {text : TextDecoder} {below above : Option (Code → Bytes → Value → Prop)}
    (each : ∀ inside, below = some inside → ∃ outside, above = some outside ∧
      ∀ code content value, inside code content value → outside code content value)
    {code : Code} {content : Bytes} {value : Value}
    (payload : Payload text below code content value) :
    Payload text above code content value := by
  have coded {inside outside : Code → Bytes → Value → Prop}
      (wider : ∀ code content value, inside code content value → outside code content value)
      (bytes : Bytes) (value : Value) (given : Coded inside bytes value) :
      Coded outside bytes value := by
    obtain ⟨code, content, rfl, behind⟩ := given
    exact ⟨code, content, rfl, wider _ _ _ behind⟩
  cases payload with
  | scalar scalar => exact .scalar scalar
  | binary category kind fits => exact .binary category kind fits
  | string category kind fits read => exact .string category kind fits read
  | symbol category kind fits read => exact .symbol category kind fits read
  | noArray category kind => exact .noArray category kind
  | list category kind level sequence fits =>
    obtain ⟨outside, level, wider⟩ := each _ level
    exact .list category kind level (sequence.imp (coded wider)) fits
  | map category kind level sequence fits =>
    obtain ⟨outside, level, wider⟩ := each _ level
    refine .map category kind level (sequence.imp fun bytes entry => ?_) fits
    rintro ⟨front, back, rfl, key, mapped⟩
    exact ⟨front, back, rfl, coded wider _ _ key, coded wider _ _ mapped⟩
  | array category kind level constructor sequence fits paid =>
    obtain ⟨outside, level, wider⟩ := each _ level
    refine .array category kind level constructor (sequence.imp fun bytes item => ?_) fits paid
    rintro ⟨body, behind, resolved⟩
    exact ⟨body, wider _ _ _ behind, resolved⟩
  | described level label encoded resolved =>
    obtain ⟨outside, level, wider⟩ := each _ level
    exact .described level label (coded wider _ _ encoded) resolved

/-- Only a constructor of width zero has an empty payload, within any levels. -/
theorem payload_ne_nil {text : TextDecoder} {levels : Nat} {code : Code} {content : Bytes}
    {value : Value} (within : payload text levels code content value)
    (positive : code.category ≠ .fixed 0) : content ≠ [] := by
  cases levels with
  | zero => exact Payload.ne_nil within positive
  | succ levels => exact Payload.ne_nil within positive

/-- A payload within some levels is one within more. The induction is on the levels, one of which
both sides take off together. -/
theorem payload_mono {text : TextDecoder} {levels more : Nat} (le : levels ≤ more) {code : Code}
    {content : Bytes} {value : Value} (within : payload text levels code content value) :
    payload text more code content value := by
  induction levels generalizing more code content value with
  | zero =>
    cases more with
    | zero => exact within
    | succ more => exact Payload.imp (by simp) within
  | succ levels inductionHypothesis =>
    cases more with
    | zero => omega
    | succ more =>
      refine Payload.imp (fun inside same => ⟨_, rfl, fun code content value given => ?_⟩) within
      cases same
      exact inductionHypothesis (by omega) given

/-- An encoding within some levels is one within more. -/
theorem Encoding.mono {text : TextDecoder} {levels more : Nat} (le : levels ≤ more)
    {bytes : Bytes} {value : Value} (encoding : Encoding text levels bytes value) :
    Encoding text more bytes value := by
  obtain ⟨code, content, rfl, within⟩ := encoding
  exact ⟨code, content, rfl, payload_mono le within⟩

section Induction

variable {text : TextDecoder} {levels : Nat}

/-- The constructor in front of a payload is one of the kind of the value. -/
theorem Payload.kind_eq {below : Option (Code → Bytes → Value → Prop)} {code : Code}
    {content : Bytes} {value : Value} (payload : Payload text below code content value) :
    value.kind = code.kind := by
  cases payload with
  | scalar scalar => cases scalar <;> rfl
  | binary _ kind | string _ kind | symbol _ kind => exact kind.symm
  | list _ kind | map _ kind | noArray _ kind | array _ kind => exact kind.symm
  | described => rfl

/-- Induction over the values that are encoded within some levels. What contains values is a
level above them. The elements of an array are made of bodies of one kind, and a described value
is made of its body, a level further down. Laws of values that are read are shown by these seven
cases, in which no byte is mentioned. -/
theorem payload_induction {holds : Nat → Value → Prop}
    (simple : ∀ {levels value}, value.isSimple = true → holds levels value)
    (noList : ∀ {levels}, holds levels (.list []))
    (list : ∀ {levels items}, (∀ item ∈ items, holds levels item) →
      holds (levels + 1) (.list items))
    (map : ∀ {levels} {entries : Entries},
      (∀ entry ∈ entries, holds levels entry.1 ∧ holds levels entry.2) →
      holds (levels + 1) (.map entries))
    (noArray : ∀ {levels}, holds levels (.array []))
    (array : ∀ {levels items} {descriptor : Option Descriptor} {kind : Kind}, kind ≠ .described →
      (∀ item ∈ items, ∃ body, body.kind = kind ∧ holds levels body ∧
        Resolves descriptor body item) → holds (levels + 1) (.array items))
    (described : ∀ {levels} {descriptor : Descriptor} {body value}, holds levels body →
      Registry.standard.resolve descriptor body = .ok value →
      holds (levels + 1) (.described value))
    {code : Code} {content : Bytes} {value : Value}
    (word : payload text levels code content value) : holds levels value := by
  induction levels using Nat.strongRecOn generalizing code content value with
  | _ levels inductionHypothesis =>
    rw [payload_eq] at word
    cases word with
    | scalar scalar =>
      cases scalar with
      | list0 => exact noList
      | _ => exact simple rfl
    | binary | string | symbol => exact simple rfl
    | list _ _ level sequence =>
      obtain ⟨further, rfl, rfl⟩ := payloadBelow_eq_some.mp level
      refine list fun item member => ?_
      obtain ⟨_, _, _, _, word⟩ := sequence.exists_of_mem member
      exact inductionHypothesis further (Nat.lt_succ_self further) word
    | map _ _ level sequence =>
      obtain ⟨further, rfl, rfl⟩ := payloadBelow_eq_some.mp level
      refine map fun entry member => ?_
      obtain ⟨_, _, _, _, ⟨_, _, _, key⟩, _, _, _, mapped⟩ := sequence.exists_of_mem member
      exact ⟨inductionHypothesis further (Nat.lt_succ_self further) key,
        inductionHypothesis further (Nat.lt_succ_self further) mapped⟩
    | noArray => exact noArray
    | @array _ shared _ _ _ _ descriptor _ _ _ level constructor sequence =>
      obtain ⟨further, rfl, rfl⟩ := payloadBelow_eq_some.mp level
      have plain : shared ≠ .described := by cases constructor <;> assumption
      have kind : shared.kind ≠ .described := by
        intro same
        cases shared <;> first | exact plain rfl | cases same
      refine @array further _ descriptor _ kind fun item member => ?_
      obtain ⟨_, body, word, resolves⟩ := sequence.exists_of_mem member
      have below := inductionHypothesis further (Nat.lt_succ_self further) word
      rw [payload_eq] at word
      exact ⟨body, word.kind_eq, below, resolves⟩
    | described level _ encoded resolved =>
      obtain ⟨further, rfl, rfl⟩ := payloadBelow_eq_some.mp level
      obtain ⟨_, _, _, word⟩ := encoded
      exact described (inductionHypothesis further (Nat.lt_succ_self further) word) resolved

end Induction

end Amqp.Grammar
