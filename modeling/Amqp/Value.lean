import Amqp.Bytes
import Amqp.Schema

/-!
# Values

A value is a scalar, a list, a map, an array, or a described value. Floating point
numbers are held by their bits, so two values are equal exactly when nothing in
their encodings tells them apart; decimals and identifiers are held by their bytes. A
map is a list of pairs in which a key may occur twice and the order counts.

A described value of a known form is held by its content. The content of a composite
has one slot per field, and null marks a field that is not set; the content of a
section is the value it wraps. Slots and contents hold values as their types show
them: a list of symbols is an array of symbols, a union is the described value it
admits. A described value of no known form keeps its descriptor and its body.
-/

namespace Amqp

/-- The label of a described value: a number or a symbol. -/
inductive Descriptor where
  | code (number : UInt64)
  | symbol (name : String)
  deriving DecidableEq, Repr, Inhabited

mutual

/-- A value of the type system. -/
inductive Value where
  | null
  | boolean (value : Bool)
  | ubyte (value : UInt8)
  | ushort (value : UInt16)
  | uint (value : UInt32)
  | ulong (value : UInt64)
  | byte (value : Int8)
  | short (value : Int16)
  | int (value : Int32)
  | long (value : Int64)
  | float (bits : UInt32)
  | double (bits : UInt64)
  | decimal32 (bytes : Vector UInt8 4)
  | decimal64 (bytes : Vector UInt8 8)
  | decimal128 (bytes : Vector UInt8 16)
  | char (value : Char)
  | timestamp (milliseconds : Int64)
  | uuid (bytes : Vector UInt8 16)
  | binary (bytes : Bytes)
  | string (text : String)
  | symbol (name : String)
  | list (items : List Value)
  | map (entries : List (Value × Value))
  | array (items : List Value)
  | described (value : Described)

/-- A described value. -/
inductive Described where
  | composite (form : Composite) (slots : List Value)
  | content (part : Section) (body : Value)
  | unknown (descriptor : Descriptor) (body : Value)

end

instance : Inhabited Value := ⟨.null⟩

instance : Inhabited Described := ⟨.unknown (.code 0) .null⟩

/-- The pairs of a map, in order. -/
abbrev Entries := List (Value × Value)

namespace Descriptor

/-- The descriptor of a form that is written: the numeric one. -/
def ofForm (form : Form) : Descriptor := .code form.code

/-- A descriptor as a value. -/
def toValue : Descriptor → Value
  | code number => .ulong number
  | symbol name => .symbol name

/-- A numeric descriptor shows as sixteen hexadecimal digits, a symbolic one as it is. -/
def display : Descriptor → String
  | code number => "0x" ++ Bytes.hex (Bytes.be 8 number.toNat)
  | symbol name => name

end Descriptor

namespace Described

/-- The form of a described value, if it is of a known one. -/
def form? : Described → Option Form
  | composite form _ => some (.composite form)
  | content part _ => some (.content part)
  | unknown _ _ => none

/-- The name of a described value: that of its form, or the general word. -/
def name (described : Described) : String :=
  match described.form? with
  | some form => form.name
  | none => "described"

/-- The descriptor a described value is written with. -/
def descriptor : Described → Descriptor
  | composite form _ => .ofForm (.composite form)
  | content part _ => .ofForm (.content part)
  | unknown descriptor _ => descriptor

end Described

namespace Value

/-- The kind of a value. -/
def kind : Value → Kind
  | null => .null
  | boolean _ => .boolean
  | ubyte _ => .ubyte
  | ushort _ => .ushort
  | uint _ => .uint
  | ulong _ => .ulong
  | byte _ => .byte
  | short _ => .short
  | int _ => .int
  | long _ => .long
  | float _ => .float
  | double _ => .double
  | decimal32 _ => .decimal32
  | decimal64 _ => .decimal64
  | decimal128 _ => .decimal128
  | char _ => .char
  | timestamp _ => .timestamp
  | uuid _ => .uuid
  | binary _ => .binary
  | string _ => .string
  | symbol _ => .symbol
  | list _ => .list
  | map _ => .map
  | array _ => .array
  | described _ => .described

/-- The word for a value in a type mismatch: its kind, or the name of its described
type. -/
def typeName : Value → String
  | described value => value.name
  | value => value.kind.name

/-- Whether a value is null, which as a slot means that the field is not set. -/
def isNull : Value → Bool
  | null => true
  | _ => false

/-- Only null is null. -/
theorem isNull_iff {value : Value} : value.isNull = true ↔ value = .null := by
  cases value <;> simp [isNull]

/-- An identifier shows as five groups of hexadecimal digits. -/
def displayUuid (bytes : Vector UInt8 16) : String :=
  let part (start stop : Nat) := Bytes.hex ((bytes.toList.drop start).take (stop - start))
  part 0 4 ++ "-" ++ part 4 6 ++ "-" ++ part 6 8 ++ "-" ++ part 8 10 ++ "-" ++ part 10 16

/-- A list of symbols as a value. -/
def ofSymbols (names : List String) : Value := .array (names.map .symbol)

/-- The symbols among some values. -/
def symbolNames (values : List Value) : List String :=
  values.filterMap fun
    | .symbol name => some name
    | _ => none

/-- Every symbol of a list of symbols is found again. -/
@[simp] theorem symbolNames_map_symbol (names : List String) :
    symbolNames (names.map .symbol) = names := by
  induction names with
  | nil => rfl
  | cons name rest inductionHypothesis => exact congrArg (name :: ·) inductionHypothesis

end Value

end Amqp
