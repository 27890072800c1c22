import Amqp.Code
import Amqp.Registry
import Amqp.Source
import Amqp.Text.Hook

/-!
# Reading values

A value is read by its constructor. Scalars and payloads are read at once. Lists,
maps, arrays and described values contain values, which are read one level further
down; the levels left are an argument of the reader, so that no input can make it
recurse deeper than the limit, and every new value starts again with all of them. A
container announces the bytes it takes, and they must be exactly the bytes its
elements took.

The elements of an array share one constructor, written once. Elements without a
payload take no bytes, so for them the announced size is checked before any element
is made: a count never exceeds what the input paid for.

Passing over a value trusts the announced sizes and checks nothing inside.
-/

namespace Amqp

/-- How a decoder reads text, and how many levels of nesting it accepts. -/
structure DecoderSettings where
  text : TextDecoder
  maxDepth : Nat

/-- The nesting limit unless a session chooses another. -/
def defaultMaxDepth : Nat := 64

namespace DecoderSettings

/-- Valid UTF-8 and the usual nesting limit. -/
def standard : DecoderSettings := ⟨.strict, defaultMaxDepth⟩

end DecoderSettings

namespace Decoder

variable {σ : Type} [Source σ]

/-- The constructor of the next value, which stays in place. -/
def peekCode : Fetch σ Code := do
  match ← Source.peek with
  | none => throw .unexpectedEof
  | some byte =>
    match Code.ofByte? byte with
    | some code => pure code
    | none => throw (.unknownCode byte)

/-- Take the constructor of the next value. An unassigned byte is not taken. -/
def readCode : Fetch σ Code := do
  let code ← peekCode
  Source.skip 1
  pure code

/-- Refuse a declared length if fewer bytes are known to be left. -/
def ensureAvailable (declared : Nat) : Fetch σ Unit := do
  match Source.remaining (← get) with
  | some remaining =>
    if remaining < declared then throw (.lengthExceedsRemaining declared remaining)
  | none => pure ()

/-- The bytes of a payload whose length comes first. -/
def readPayload (width : Nat) : Fetch σ Bytes := do
  let length ← Source.readNat width
  ensureAvailable length
  Source.take length

/-- A result that does not come from the source. -/
def lift {α : Type} : Except Error α → Fetch σ α
  | .ok value => pure value
  | .error error => throw error

/-- The text of a payload. -/
def readText (settings : DecoderSettings) (width : Nat) : Fetch σ String := do
  lift (settings.text (← readPayload width))

/-- The prefix of a container: the bytes of its elements and their number. The bytes
of the count itself are not part of the size here. -/
structure Header where
  size : Nat
  count : Nat
  deriving DecidableEq, Repr

/-- Read the prefix of a container. -/
def readHeader (width : Nat) : Fetch σ Header := do
  let declared ← Source.readNat width
  if declared < width then throw (.malformed "compound size is smaller than its count")
  ensureAvailable declared
  let size := declared - width
  let count ← Source.readNat width
  if size < count then throw (.malformed "compound count exceeds its size")
  pure ⟨size, count⟩

/-- Refuse a container whose elements did not take the bytes it announced. -/
def checkConsumed (container : Kind) (header : Header) (start : Nat) : Fetch σ Unit := do
  let consumed := (← Source.getPosition) - start
  if consumed ≠ header.size then throw (.sizeMismatch container header.size consumed)

/-- Repeat a computation and collect its results, latest first behind those given. -/
def collect {α : Type} (compute : Fetch σ α) : (times : Nat) → List α → Fetch σ (List α)
  | 0, results => pure results.reverse
  | times + 1, results => do
    let result ← compute
    collect compute times (result :: results)

/-- The reader of the values one level further down, unless no level is left. -/
abbrev Inner (σ α : Type) := Option (Code → Fetch σ α)

/-- Go one level down. -/
def within {α β : Type} (settings : DecoderSettings) (inner : Inner σ α)
    (body : (Code → Fetch σ α) → Fetch σ β) : Fetch σ β :=
  match inner with
  | some decode => body decode
  | none => throw (.nestingTooDeep settings.maxDepth)

/-- Read a descriptor. -/
def readDescriptor (settings : DecoderSettings) : Fetch σ Descriptor := do
  match ← readCode with
  | .ulong0 => pure (.code 0)
  | .smallUlong => return .code (← Source.readUInt8).toUInt64
  | .ulong => return .code (← Source.readUInt64)
  | .symbol8 => return .symbol (← readText settings 1)
  | .symbol32 => return .symbol (← readText settings 4)
  | _ => throw (.malformed "descriptor must be a ulong or a symbol")

/-- Read a descriptor and a body one level further down. -/
def readDescribedParts (settings : DecoderSettings) (inner : Inner σ Value) :
    Fetch σ (Descriptor × Value) :=
  within settings inner fun decode => do
    let descriptor ← readDescriptor settings
    let body ← readCode >>= decode
    pure (descriptor, body)

/-- Read a described value behind its announcing byte. -/
def readDescribed (settings : DecoderSettings) (inner : Inner σ Value) : Fetch σ Described := do
  let (descriptor, body) ← readDescribedParts settings inner
  lift (Registry.standard.resolve descriptor body)

/-- Read a list behind its constructor. -/
def readList (settings : DecoderSettings) (inner : Inner σ Value) (width : Nat) :
    Fetch σ Value := do
  let header ← readHeader width
  let start ← Source.getPosition
  let items ← within settings inner fun decode => collect (readCode >>= decode) header.count []
  checkConsumed .list header start
  pure (.list items)

/-- Read a map behind its constructor. -/
def readMap (settings : DecoderSettings) (inner : Inner σ Value) (width : Nat) :
    Fetch σ Value := do
  let header ← readHeader width
  if header.count % 2 ≠ 0 then throw (.oddMapCount header.count)
  let start ← Source.getPosition
  let entry (decode : Code → Fetch σ Value) : Fetch σ (Value × Value) := do
    let key ← readCode >>= decode
    let value ← readCode >>= decode
    pure (key, value)
  let entries ← within settings inner fun decode => collect (entry decode) (header.count / 2) []
  checkConsumed .map header start
  pure (.map entries)

/-- Read the constructor that the elements of an array share, with the descriptor if
they are described. -/
def readArrayConstructor (settings : DecoderSettings) :
    Fetch σ (Option Descriptor × Code) := do
  match ← readCode with
  | .described =>
    let descriptor ← readDescriptor settings
    match ← readCode with
    | .described => throw (.malformed "array constructor is described more than once")
    | code => pure (some descriptor, code)
  | code => pure (none, code)

/-- Read one element of an array behind the shared constructor. -/
def readElement (descriptor : Option Descriptor) (decode : Fetch σ Value) : Fetch σ Value := do
  let body ← decode
  match descriptor with
  | some descriptor =>
    let described ← lift (Registry.standard.resolve descriptor body)
    pure (.described described)
  | none => pure body

/-- Read an array behind its constructor. -/
def readArray (settings : DecoderSettings) (inner : Inner σ Value) (width : Nat) :
    Fetch σ Value := do
  let header ← readHeader width
  if header.size = 0 ∧ header.count = 0 then return .array []
  let start ← Source.getPosition
  let items ← within settings inner fun decode => do
    let (descriptor, code) ← readArrayConstructor settings
    if code.category = .fixed 0 then checkConsumed .array header start
    collect (readElement descriptor (decode code)) header.count []
  checkConsumed .array header start
  pure (.array items)

/-- Read a value behind its constructor, given the reader of the values inside it. -/
def readWith (settings : DecoderSettings) (inner : Inner σ Value) : Code → Fetch σ Value
  | .described => return .described (← readDescribed settings inner)
  | .null => pure .null
  | .booleanTrue => pure (.boolean true)
  | .booleanFalse => pure (.boolean false)
  | .boolean => do
    match ← Source.readUInt8 with
    | 0 => pure (.boolean false)
    | 1 => pure (.boolean true)
    | _ => throw (.malformed "boolean payload must be 0x00 or 0x01")
  | .uint0 => pure (.uint 0)
  | .ulong0 => pure (.ulong 0)
  | .list0 => pure (.list [])
  | .ubyte => return .ubyte (← Source.readUInt8)
  | .byte => return .byte (← Source.readUInt8).toInt8
  | .smallUint => return .uint (← Source.readUInt8).toUInt32
  | .smallUlong => return .ulong (← Source.readUInt8).toUInt64
  | .smallInt => return .int (← Source.readUInt8).toInt8.toInt32
  | .smallLong => return .long (← Source.readUInt8).toInt8.toInt64
  | .ushort => return .ushort (← Source.readUInt16)
  | .short => return .short (← Source.readUInt16).toInt16
  | .uint => return .uint (← Source.readUInt32)
  | .int => return .int (← Source.readUInt32).toInt32
  | .float => return .float (← Source.readUInt32)
  | .char => do
    let number ← Source.readNat 4
    if number < 0xd800 ∨ 0xdfff < number ∧ number < 0x110000 then
      pure (.char (Char.ofNat number))
    else throw (.malformed "char is not a unicode scalar value")
  | .decimal32 => return .decimal32 (← Source.read 4)
  | .ulong => return .ulong (← Source.readUInt64)
  | .long => return .long (← Source.readUInt64).toInt64
  | .double => return .double (← Source.readUInt64)
  | .timestamp => return .timestamp (← Source.readUInt64).toInt64
  | .decimal64 => return .decimal64 (← Source.read 8)
  | .decimal128 => return .decimal128 (← Source.read 16)
  | .uuid => return .uuid (← Source.read 16)
  | .binary8 => return .binary (← readPayload 1)
  | .binary32 => return .binary (← readPayload 4)
  | .string8 => return .string (← readText settings 1)
  | .string32 => return .string (← readText settings 4)
  | .symbol8 => return .symbol (← readText settings 1)
  | .symbol32 => return .symbol (← readText settings 4)
  | .list8 => readList settings inner 1
  | .list32 => readList settings inner 4
  | .map8 => readMap settings inner 1
  | .map32 => readMap settings inner 4
  | .array8 => readArray settings inner 1
  | .array32 => readArray settings inner 4

/-- The reader of contained values when so many levels are left. A level is made when
a value of it is read, so a high limit costs nothing by itself. -/
def inner (settings : DecoderSettings) : (levels : Nat) → Inner σ Value
  | 0 => none
  | levels + 1 => some fun code source => readWith settings (inner settings levels) code source

/-- Read a value. -/
def decodeValue (settings : DecoderSettings) : Fetch σ Value :=
  readCode >>= readWith settings (inner settings settings.maxDepth)

/-- Read a value as a type. -/
def decodeAs (settings : DecoderSettings) (type : Ty) : Fetch σ Value := do
  lift (type.read (← decodeValue settings))

/-- Read values until none is left, collecting them behind those given, latest first.
The first argument bounds their number. -/
def decodeUntilEnd (settings : DecoderSettings) : (bound : Nat) → List Value → Fetch σ (List Value)
  | 0, values => pure values.reverse
  | bound + 1, values => do
    if ← Source.hasRemaining then
      let value ← decodeValue settings
      decodeUntilEnd settings bound (value :: values)
    else pure values.reverse

/-- Read every value up to the end of the input. Each takes at least one byte, so the
bytes that can still arrive bound their number. -/
def decodeAll (settings : DecoderSettings) : Fetch σ (List Value) := do
  decodeUntilEnd settings (Source.pending (← get) + 1) []

/-- Read a value that must be described. -/
def decodeDescribed (settings : DecoderSettings) : Fetch σ Described := do
  let code ← peekCode
  if code ≠ .described then throw (.unexpectedType "described" code.kind.name)
  Source.skip 1
  readDescribed settings (inner settings settings.maxDepth)

/-- Read a value that must be described, without finding its form. -/
def decodeDescribedParts (settings : DecoderSettings) : Fetch σ (Descriptor × Value) := do
  let code ← readCode
  if code ≠ .described then throw (.unexpectedType "described" code.kind.name)
  readDescribedParts settings (inner settings settings.maxDepth)

/-- Read the prefix of a list, leaving its elements to be read or passed over. -/
def decodeListHeader : Fetch σ Header := do
  match ← peekCode with
  | .list0 =>
    Source.skip 1
    pure ⟨0, 0⟩
  | .list8 =>
    Source.skip 1
    readHeader 1
  | .list32 =>
    Source.skip 1
    readHeader 4
  | code => throw (.unexpectedType "list" code.kind.name)

/-- Pass over a value behind its constructor, given how to pass over the values
inside a described one. -/
def skipWith (settings : DecoderSettings) (inner : Inner σ Unit) (code : Code) : Fetch σ Unit :=
  match code.category with
  | .fixed width => Source.skip width
  | .variable width => do
    let length ← Source.readNat width
    ensureAvailable length
    Source.skip length
  | .compound width => do
    let header ← readHeader width
    Source.skip header.size
  | .described =>
    within settings inner fun skip => do
      readCode >>= skip
      readCode >>= skip

/-- How to pass over contained values when so many levels are left. -/
def innerSkip (settings : DecoderSettings) : (levels : Nat) → Inner σ Unit
  | 0 => none
  | levels + 1 => some fun code source => skipWith settings (innerSkip settings levels) code source

/-- Pass over a value. -/
def skipValue (settings : DecoderSettings) : Fetch σ Unit :=
  readCode >>= skipWith settings (innerSkip settings settings.maxDepth)

end Decoder

end Amqp
