import Amqp.Decimal.Shortest
import Amqp.Encoder

/-!
# Values as JSON text

Numbers, booleans and null are themselves. Text, symbols, characters and identifiers
are strings, byte strings and decimals are arrays of numbers, and lists and arrays are
arrays. A described value is an object of its descriptor and its raw body. Floating
point numbers have the fewest digits that read back; those that are no number are
null.

The key of an object must be text. Numbers, booleans and characters become text as
keys; nothing else does, and then there is no JSON text for the whole value.
-/

namespace Amqp.Json

/-- How the decimal text of floating point numbers is laid out: without an exponent
while the point falls behind at most `whole` digits, or before the digits with fewer
than `leadingZeros` zeros between. -/
structure FloatFormat where
  layout : Decimal.Layout
  whole : Int
  leadingZeros : Int

/-- Single precision: thirteen digits, six zeros. -/
def singleFormat : FloatFormat := ⟨Decimal.single, 13, 6⟩

/-- Double precision: sixteen digits, five zeros. -/
def doubleFormat : FloatFormat := ⟨Decimal.double, 16, 5⟩

namespace FloatFormat

/-- The text of digits times a power of ten. -/
def render (format : FloatFormat) (number : Decimal.Digits) : String :=
  let digits := (toString number.digits).toList
  let point : Int := digits.length + number.exponent
  let zeros (count : Int) : List Char := List.replicate count.toNat '0'
  if 0 ≤ number.exponent ∧ point ≤ format.whole then
    String.ofList (digits ++ zeros number.exponent ++ ['.', '0'])
  else if 0 < point ∧ point ≤ format.whole then
    String.ofList (digits.take point.toNat ++ '.' :: digits.drop point.toNat)
  else if -format.leadingZeros < point ∧ point ≤ 0 then
    String.ofList ('0' :: '.' :: zeros (-point) ++ digits)
  else
    let mantissa :=
      match digits with
      | first :: second :: rest => first :: '.' :: second :: rest
      | short => short
    String.ofList (mantissa ++ ['e']) ++ toString (point - 1)

/-- The text of a floating point number, if it is a number. -/
def text? (format : FloatFormat) (bits : Nat) : Option String :=
  if format.layout.isFinite bits then
    let sign := if format.layout.isNegative bits then "-" else ""
    let number := Decimal.shortest format.layout bits
    some (sign ++ if number.digits = 0 then "0.0" else format.render number)
  else none

end FloatFormat

/-- The form of a character inside a quoted text. -/
def escape (char : Char) : List Char :=
  if char = '"' then ['\\', '"']
  else if char = '\\' then ['\\', '\\']
  else if char = '\n' then ['\\', 'n']
  else if char = '\r' then ['\\', 'r']
  else if char = '\t' then ['\\', 't']
  else if char.toNat = 0x08 then ['\\', 'b']
  else if char.toNat = 0x0c then ['\\', 'f']
  else if char.toNat < 0x20 then ['\\', 'u', '0', '0'] ++ Bytes.hexByte (UInt8.ofNat char.toNat)
  else [char]

/-- A quoted text. -/
def quote (text : String) : String :=
  String.ofList ('"' :: text.toList.flatMap escape ++ ['"'])

/-- A bracketed list of texts. -/
def bracket (parts : List String) : String := "[" ++ ",".intercalate parts ++ "]"

/-- A braced list of texts. -/
def brace (parts : List String) : String := "\x7b" ++ ",".intercalate parts ++ "\x7d"

/-- A byte string as an array of numbers. -/
def ofBytes (bytes : Bytes) : String := bracket (bytes.map fun byte => toString byte.toNat)

/-- A floating point number, or null. -/
def ofFloat (format : FloatFormat) (bits : Nat) : String := (format.text? bits).getD "null"

/-- The wording when raw parts cannot be found. -/
def failureText : Failure → String
  | .refused error => error.message
  | .defect _ => ""

/-- Why a value is no key. -/
def keyNotText : String := "key must be a string"

/-- A value as the key of an object. -/
def key : Value → Except String String
  | .boolean value => .ok (quote (toString value))
  | .ubyte value => .ok (quote (toString value.toNat))
  | .ushort value => .ok (quote (toString value.toNat))
  | .uint value => .ok (quote (toString value.toNat))
  | .ulong value => .ok (quote (toString value.toNat))
  | .byte value => .ok (quote (toString value.toInt))
  | .short value => .ok (quote (toString value.toInt))
  | .int value => .ok (quote (toString value.toInt))
  | .long value => .ok (quote (toString value.toInt))
  | .timestamp value => .ok (quote (toString value.toInt))
  | .float bits => floatKey singleFormat bits.toNat
  | .double bits => floatKey doubleFormat bits.toNat
  | .char value => .ok (quote (String.singleton value))
  | .string text => .ok (quote text)
  | .symbol name => .ok (quote name)
  | .uuid bytes => .ok (quote (Value.displayUuid bytes))
  | .described described =>
    match Encoder.raw described with
    | .error failure => .error (failureText failure)
    | .ok _ => .error keyNotText
  | .null | .decimal32 _ | .decimal64 _ | .decimal128 _ | .binary _ | .list _ | .map _
  | .array _ => .error keyNotText
where
  /-- A floating point number as a key. -/
  floatKey (format : FloatFormat) (bits : Nat) : Except String String :=
    match format.text? bits with
    | some text => .ok (quote text)
    | none => .error "float key must be finite (got NaN or +/-inf)"

/-- A descriptor. -/
def ofDescriptor : Descriptor → String
  | .code number => toString number.toNat
  | .symbol name => quote name

/-- The object of a descriptor and a body. -/
def object (descriptor : Descriptor) (body : String) : String :=
  brace [quote "descriptor" ++ ":" ++ ofDescriptor descriptor, quote "value" ++ ":" ++ body]

section Text

variable (below : Value → Except String String)

mutual

/-- The JSON text of a value, given that of raw bodies that were read back. -/
def ofValue : Value → Except String String
  | .null => .ok "null"
  | .boolean value => .ok (toString value)
  | .ubyte value => .ok (toString value.toNat)
  | .ushort value => .ok (toString value.toNat)
  | .uint value => .ok (toString value.toNat)
  | .ulong value => .ok (toString value.toNat)
  | .byte value => .ok (toString value.toInt)
  | .short value => .ok (toString value.toInt)
  | .int value => .ok (toString value.toInt)
  | .long value => .ok (toString value.toInt)
  | .float bits => .ok (ofFloat singleFormat bits.toNat)
  | .double bits => .ok (ofFloat doubleFormat bits.toNat)
  | .decimal32 bytes => .ok (ofBytes bytes.toList)
  | .decimal64 bytes => .ok (ofBytes bytes.toList)
  | .decimal128 bytes => .ok (ofBytes bytes.toList)
  | .char value => .ok (quote (String.singleton value))
  | .timestamp value => .ok (toString value.toInt)
  | .uuid bytes => .ok (quote (Value.displayUuid bytes))
  | .binary bytes => .ok (ofBytes bytes)
  | .string text => .ok (quote text)
  | .symbol name => .ok (quote name)
  | .list items => (ofItems [] items).map bracket
  | .array items => (ofItems [] items).map bracket
  | .map entries => (ofEntries [] entries).map brace
  | .described (.unknown descriptor body) => (ofValue body).map (object descriptor)
  | .described described =>
    match Encoder.raw described with
    | .error failure => .error (failureText failure)
    | .ok (descriptor, body) => (below body).map (object descriptor)
termination_by structural value => value

/-- The JSON texts of values, behind those given, latest first. -/
def ofItems (done : List String) : List Value → Except String (List String)
  | [] => .ok done.reverse
  | item :: rest =>
    match ofValue item with
    | .error reason => .error reason
    | .ok text => ofItems (text :: done) rest
termination_by structural items => items

/-- The JSON texts of pairs, behind those given, latest first. -/
def ofEntries (done : List String) : Entries → Except String (List String)
  | [] => .ok done.reverse
  | (name, value) :: rest =>
    match key name with
    | .error reason => .error reason
    | .ok name =>
      match ofValue value with
      | .error reason => .error reason
      | .ok text => ofEntries ((name ++ ":" ++ text) :: done) rest
termination_by structural entries => entries

end

end Text

/-- The JSON text of raw bodies when so many levels are left. -/
def bodyText : (levels : Nat) → Value → Except String String
  | 0, _ => .error (Error.nestingTooDeep defaultMaxDepth).message
  | levels + 1, body => ofValue (bodyText levels) body

/-- The JSON text of a value, or why it has none. A body read back comes from a reader
with the usual limit, so as many levels as that are enough. -/
def render (value : Value) : Except String String := ofValue (bodyText defaultMaxDepth) value

end Amqp.Json
