import Amqp.Decoder
import Amqp.Encoder

/-!
# Typed data

A program holds data of a type rather than values: a number, some symbols, a map from
symbols to numbers, one of the final states of a delivery. A type has three conversions,
each with rules of its own. Data become values; data are found in values, or a value is
refused; and data are written without becoming values first.

The content of a described type is held as in a value, one slot per field, but it is
written field by field, each slot as the type of its field shows it. An optional datum
has no value of its own when it is missing, and null stands for it.

Lists of symbols, typed maps and described types are written by loops of their own, which
need not agree with the writing of arrays, maps and described values.
-/

namespace Amqp

namespace Kind

/-- What a value of a kind holds. -/
@[reducible]
def Content : Kind → Type
  | null => Unit
  | boolean => Bool
  | ubyte => UInt8
  | ushort => UInt16
  | uint => UInt32
  | ulong => UInt64
  | byte => Int8
  | short => Int16
  | int => Int32
  | long => Int64
  | float => UInt32
  | double => UInt64
  | decimal32 => Vector UInt8 4
  | decimal64 => Vector UInt8 8
  | decimal128 => Vector UInt8 16
  | char => Char
  | timestamp => Int64
  | uuid => Vector UInt8 16
  | binary => Bytes
  | string => String
  | symbol => String
  | list => List Value
  | map => Entries
  | array => List Value
  | described => Described

/-- The value of a kind that holds some content. -/
def toValue : (kind : Kind) → kind.Content → Value
  | null, _ => .null
  | boolean, value => .boolean value
  | ubyte, value => .ubyte value
  | ushort, value => .ushort value
  | uint, value => .uint value
  | ulong, value => .ulong value
  | byte, value => .byte value
  | short, value => .short value
  | int, value => .int value
  | long, value => .long value
  | float, bits => .float bits
  | double, bits => .double bits
  | decimal32, bytes => .decimal32 bytes
  | decimal64, bytes => .decimal64 bytes
  | decimal128, bytes => .decimal128 bytes
  | char, value => .char value
  | timestamp, milliseconds => .timestamp milliseconds
  | uuid, bytes => .uuid bytes
  | binary, bytes => .binary bytes
  | string, text => .string text
  | symbol, name => .symbol name
  | list, items => .list items
  | map, entries => .map entries
  | array, items => .array items
  | described, value => .described value

end Kind

/-- What a value holds. -/
def Value.content : (value : Value) → value.kind.Content
  | null => ()
  | boolean value => value
  | ubyte value => value
  | ushort value => value
  | uint value => value
  | ulong value => value
  | byte value => value
  | short value => value
  | int value => value
  | long value => value
  | float bits => bits
  | double bits => bits
  | decimal32 bytes => bytes
  | decimal64 bytes => bytes
  | decimal128 bytes => bytes
  | char value => value
  | timestamp milliseconds => milliseconds
  | uuid bytes => bytes
  | binary bytes => bytes
  | string text => text
  | symbol name => name
  | list items => items
  | map entries => entries
  | array items => items
  | described value => value

/-- The content of one of some kinds, and of which. -/
structure OfKinds (admitted : List Kind) where
  kind : Kind
  member : kind ∈ admitted
  content : kind.Content

/-- Find the content of one of some kinds in a value. -/
def OfKinds.ofValue {admitted : List Kind} (name : String) (value : Value) :
    Except Error (OfKinds admitted) :=
  if member : value.kind ∈ admitted then .ok ⟨value.kind, member, value.content⟩
  else .error (value.mismatch name)

/-- Find the name of a symbol in a value. -/
def Value.toSymbol : Value → Except Error String
  | symbol name => .ok name
  | value => .error (value.mismatch "symbol")

/-- Find a list of symbols in a value: in an array of them, or in a single one. -/
def Value.toSymbols : Value → Except Error (List String)
  | symbol name => .ok [name]
  | array items => items.mapM toSymbol
  | value => .error (value.mismatch "symbol")

/-- A key of a type of keys. -/
@[ext]
structure KeyType.Key (type : KeyType) where
  key : MapKey
  member : key.toValue.kind ∈ type.kinds
  deriving DecidableEq

/-- A key as a value. -/
def KeyType.Key.toValue {type : KeyType} (key : type.Key) : Value := key.key.toValue

/-- Read a value as a key of a type. -/
def KeyType.ofValue (type : KeyType) (value : Value) : Except Error type.Key :=
  match MapKey.ofValue? value with
  | some key =>
    if member : key.toValue.kind ∈ type.kinds then .ok ⟨key, member⟩
    else .error (value.mismatch type.name)
  | none => .error (value.mismatch type.name)

/-- Read an entry of a map as a key and what is found in the value beside it. -/
def KeyType.pairOfEntry {β : Type} (type : KeyType) (find : Value → Except Error β)
    (entry : Value × Value) : Except Error (type.Key × β) := do
  let key ← type.ofValue entry.1
  let found ← find entry.2
  pure (key, found)

/-- A typed map: pairs whose keys are distinct, in the order in which the keys came. -/
@[ext]
structure Dictionary (κ β : Type) where
  pairs : List (κ × β)
  distinct : (pairs.map Prod.fst).Nodup

/-- The typed map of some pairs, taken in order. -/
def Dictionary.ofPairs {κ β : Type} [DecidableEq κ] (pairs : List (κ × β)) : Dictionary κ β :=
  ⟨TypedMap.ofPairs pairs, TypedMap.nodup_ofPairs pairs⟩

/-- Find the entries of a map in a value. -/
def Value.toEntries : Value → Except Error Entries
  | map entries => .ok entries
  | value => .error (value.mismatch "map")

/-- What a described type holds: the slots of a composite, or the content of a section. -/
@[reducible]
def Form.Body : Form → Type
  | composite _ => List Value
  | content _ => Value

/-- A described value by its form. -/
def Form.toDescribed : (form : Form) → form.Body → Described
  | composite form, slots => .composite form slots
  | content part, body => .content part body

/-- The content of one of some described types, and of which. -/
structure OfForms (admitted : List Form) where
  form : Form
  member : form ∈ admitted
  body : form.Body

/-- Find the content of one of some described types in a value. -/
def OfForms.ofValue {admitted : List Form} (name : String) :
    Value → Except Error (OfForms admitted)
  | .described (.composite form slots) =>
    if member : .composite form ∈ admitted then .ok ⟨.composite form, member, slots⟩
    else .error (.unexpectedType name form.name)
  | .described (.content part body) =>
    if member : .content part ∈ admitted then .ok ⟨.content part, member, body⟩
    else .error (.unexpectedType name part.name)
  | value => .error (value.mismatch name)

/-- The content of one of some described types as that of one of more. -/
def OfForms.widen {admitted wider : List Form} (within : admitted ⊆ wider)
    (datum : OfForms admitted) : OfForms wider :=
  ⟨datum.form, within datum.member, datum.body⟩

namespace Ty

/-- The data of a type. -/
@[reducible]
def Datum : Ty → Type
  | any => Value
  | kinds admitted _ => OfKinds admitted
  | symbols => List String
  | typedMap keys values => Dictionary keys.Key values.Datum
  | forms admitted _ => OfForms admitted
  | optional inner => Option inner.Datum

/-- A datum as a value. -/
def toValue : (type : Ty) → type.Datum → Value
  | any, value => value
  | kinds _ _, datum => datum.kind.toValue datum.content
  | symbols, names => .ofSymbols names
  | typedMap _ values, entries =>
    .map (entries.pairs.map fun pair => (pair.1.toValue, values.toValue pair.2))
  | forms _ _, datum => .described (datum.form.toDescribed datum.body)
  | optional inner, datum => datum.elim .null inner.toValue

/-- Find a datum of a type in a value. -/
def ofValue : (type : Ty) → Value → Except Error type.Datum
  | any, value => .ok value
  | kinds _ name, value => OfKinds.ofValue name value
  | symbols, value => value.toSymbols
  | typedMap keys values, value => do
    let entries ← value.toEntries
    let pairs ← entries.mapM (keys.pairOfEntry (ofValue values))
    pure (.ofPairs pairs)
  | forms _ name, value => OfForms.ofValue name value
  | optional inner, value =>
    if value.isNull then .ok none else (ofValue inner value).map some

/-- A final state of a delivery as a state of a delivery. -/
def deliveryStateOfOutcome (final : outcome.Datum) : deliveryState.Datum :=
  OfForms.widen (by decide) final

end Ty

namespace Encoder

variable (hook : TextEncoder)

/-- Write the content of a kind. What a failure leaves behind stays. -/
def writeContent : (kind : Kind) → kind.Content → Emit Unit
  | .null, _ => putCode .null
  | .boolean, value => putCode (if value then .booleanTrue else .booleanFalse)
  | .ubyte, value => putNumber .ubyte 1 value.toNat
  | .ushort, value => putNumber .ushort 2 value.toNat
  | .uint, value => putUint value
  | .ulong, value => putUlong value
  | .byte, value => putNumber .byte 1 value.toUInt8.toNat
  | .short, value => putNumber .short 2 value.toUInt16.toNat
  | .int, value => putInt value
  | .long, value => putLong value
  | .float, bits => putNumber .float 4 bits.toNat
  | .double, bits => putNumber .double 8 bits.toNat
  | .decimal32, bytes => do
    putCode .decimal32
    put bytes.toList
  | .decimal64, bytes => do
    putCode .decimal64
    put bytes.toList
  | .decimal128, bytes => do
    putCode .decimal128
    put bytes.toList
  | .char, value => putNumber .char 4 value.toNat
  | .timestamp, milliseconds => putNumber .timestamp 8 milliseconds.toUInt64.toNat
  | .uuid, bytes => do
    putCode .uuid
    put bytes.toList
  | .binary, bytes => putPayload .binary8 bytes
  | .string, text => putString hook text
  | .symbol, name => putSymbol name
  | .list, items => encodeDirect hook (.list items)
  | .map, entries => encodeDirect hook (.map entries)
  | .array, items => encodeDirect hook (.array items)
  | .described, value => encodeDirect hook (.described value)

/-- Write so many slots of a composite, each as the type of its field shows it, whole or
not at all. Asking for more slots than there are is a defect. -/
def writeFields : List Field → (count : Nat) → List Value → Emit Unit
  | _, 0, _ => pure ()
  | field :: fields, count + 1, slot :: slots => do
    encodeAs hook (.optional field.type) slot
    writeFields fields count slots
  | _, _ + 1, _ => throw (.defect .fieldsExceeded)

/-- Write the content of a described type under its descriptor. What a failure leaves
behind stays. -/
def writeForm : (form : Form) → form.Body → Emit Unit
  | .composite form, slots => do
    putCode .described
    putUlong form.code
    if form.fields.isEmpty then
      putCode .list0
    else
      let count := setSlots slots
      let mark ← openContainer .list8
      writeFields hook form.fields count slots
      closeContainer mark count (needsWideList form.fields slots)
  | .content part, body => describeAs hook (.ofForm (.content part)) part.type body

/-- Write a datum. What a failure leaves behind stays. -/
def writeDatum : (type : Ty) → type.Datum → Emit Unit
  | .any, value => encodeValue hook value
  | .kinds _ _, datum => writeContent hook datum.kind datum.content
  | .symbols, names => putSymbolArray names
  | .typedMap _ values, entries => do
    let mark ← openContainer .map8
    putEach (fun pair => do
      encodeDirect hook pair.1.toValue
      writeDatum values pair.2) entries.pairs
    closeContainer mark (entries.pairs.length * 2) false
  | .forms _ _, datum => writeForm hook datum.form datum.body
  | .optional inner, datum => datum.elim (putCode .null) (writeDatum inner)

/-- Write a datum, whole or not at all. -/
def encodeDatum (type : Ty) (datum : type.Datum) : Emit Unit :=
  atomic (writeDatum hook type datum)

end Encoder

/-- Read a datum of a type. -/
def Decoder.decodeDatum {σ : Type} [Source σ] (settings : DecoderSettings) (type : Ty) :
    Fetch σ type.Datum := do
  lift (type.ofValue (← decodeValue settings))

end Amqp
