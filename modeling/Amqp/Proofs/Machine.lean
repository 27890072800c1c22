import Amqp.Proofs.Session

/-!
# The decoder as a machine

The readers of values show refusals and nothing else that could stop a decoder. The levels that
are left are an argument of theirs, a constructor is taken apart in one match, and a difference
is never negative. Here a decoder is a machine with more of its working in sight. It counts in
its state the levels that it is down. It chooses a reader by the class of a constructor and only
then looks at the constructor, so its readers have cases that ought not to come up. And where it
takes a difference, it takes for granted that the difference is not negative.

Where such a case does come up, a difference is negative, or the counter falls below zero, a
crash is put on record for good. The recursion runs on fuel, and behind the end of the fuel
stands anything at all.
-/

namespace Amqp

open Decoder

/-- What would stop a decoder at once. -/
inductive Crash where
  /-- A constructor was taken for one of fixed width. -/
  | notFixed (code : Code)
  /-- A constructor was taken for one with a length. -/
  | notVariable (code : Code)
  /-- A constructor was taken for one with a size and a count. -/
  | notCompound (code : Code)
  /-- A difference was negative. -/
  | negative
  deriving DecidableEq, Repr

/-- A source under a decoder: how many levels the decoder is down, the most levels it has ever
been down, and what has crashed it first. -/
structure Machine (σ : Type) where
  source : σ
  depth : Nat
  deepest : Nat
  crash : Option Crash

namespace Machine

variable {σ α : Type}

/-- A machine on a source, before anything is asked of it. -/
def start (source : σ) : Machine σ := ⟨source, 0, 0, none⟩

/-- Ask the source of a machine. -/
def ask (request : Fetch σ α) : Fetch (Machine σ) α := fun machine =>
  match request machine.source with
  | .ok result source => .ok result { machine with source }
  | .error error source => .error error { machine with source }

instance [Source σ] : Source (Machine σ) where
  remaining machine := Source.remaining machine.source
  position machine := Source.position machine.source
  pending machine := Source.pending machine.source
  peek := ask Source.peek
  read length := ask (Source.read length)
  take length := ask (Source.take length)
  skip length := ask (Source.skip length)

/-- Crash. What is reported besides does not matter, because the crash is on record. -/
def fail (crash : Crash) : Fetch (Machine σ) α := fun machine =>
  .error .unexpectedEof { machine with crash := some (machine.crash.getD crash) }

/-- A difference that is taken not to be negative. -/
def minus (larger smaller : Nat) : Fetch (Machine σ) Nat :=
  if smaller ≤ larger then pure (larger - smaller) else fail .negative

/-- A machine one level further down. -/
def descend (machine : Machine σ) : Machine σ :=
  { machine with
    depth := machine.depth + 1
    deepest := max machine.deepest (machine.depth + 1) }

/-- Come up one level. -/
def ascend : Fetch (Machine σ) Unit := do
  let depth ← minus (← get).depth 1
  modify fun machine => { machine with depth }

/-- Do something one level further down, unless the limit is reached, and come up again whether
it fails or not. -/
def nested (settings : DecoderSettings) (body : Fetch (Machine σ) α) : Fetch (Machine σ) α :=
  fun machine =>
    if settings.maxDepth ≤ machine.depth then
      .error (.nestingTooDeep settings.maxDepth) machine
    else
      match body machine.descend with
      | .ok result after => (ascend >>= fun _ => pure result) after
      | .error error after => (ascend >>= fun _ => throw error) after

variable [Source σ]

/-- The size and the count behind the constructor of a container. -/
def readPrefix (code : Code) : Fetch (Machine σ) Header := do
  match code.category with
  | .compound width =>
    let declared ← Source.readNat width
    if declared < width then throw (.malformed "compound size is smaller than its count")
    ensureAvailable declared
    let size ← minus declared width
    let count ← Source.readNat width
    if size < count then throw (.malformed "compound count exceeds its size")
    pure ⟨size, count⟩
  | _ => fail (.notCompound code)

/-- Refuse a container whose elements did not take the bytes that it announced. -/
def checkTaken (container : Kind) (header : Header) (start : Nat) : Fetch (Machine σ) Unit := do
  let consumed ← minus (← Source.getPosition) start
  if consumed ≠ header.size then throw (.sizeMismatch container header.size consumed)

/-- The payload behind a constructor with a length. -/
def readBytes (code : Code) : Fetch (Machine σ) Bytes :=
  match code.category with
  | .variable width => readPayload width
  | _ => fail (.notVariable code)

/-- The text behind a constructor with a length. -/
def readString (settings : DecoderSettings) (code : Code) : Fetch (Machine σ) String := do
  lift (settings.text (← readBytes code))

/-- The symbol behind its constructor. -/
def readSymbol (settings : DecoderSettings) (code : Code) : Fetch (Machine σ) String :=
  match code with
  | .symbol8 | .symbol32 => readString settings code
  | _ => throw (.unexpectedType "symbol" code.kind.name)

/-- The unsigned number of 64 bits behind its constructor. -/
def readUlong (code : Code) : Fetch (Machine σ) UInt64 :=
  match code with
  | .ulong0 => pure 0
  | .smallUlong => return (← Source.readUInt8).toUInt64
  | .ulong => Source.readUInt64
  | _ => throw (.unexpectedType "ulong" code.kind.name)

/-- The value behind a constructor of fixed width. These are the constructors that it knows. -/
def readFixed (settings : DecoderSettings) (code : Code) : Fetch (Machine σ) Value :=
  match code with
  | .null | .booleanTrue | .booleanFalse | .boolean | .list0 | .ubyte | .byte | .ushort | .short
  | .uint0 | .smallUint | .uint | .smallInt | .int | .ulong0 | .smallUlong | .ulong | .smallLong
  | .long | .float | .double | .char | .timestamp | .decimal32 | .decimal64 | .decimal128
  | .uuid => readWith settings none code
  | _ => fail (.notFixed code)

/-- The value behind a constructor with a length: binary, a string, or else a symbol. -/
def readVariable (settings : DecoderSettings) (code : Code) : Fetch (Machine σ) Value := do
  match code with
  | .binary8 | .binary32 => return .binary (← readBytes code)
  | .string8 | .string32 => return .string (← readString settings code)
  | _ => return .symbol (← readSymbol settings code)

/-- Read a descriptor. -/
def readLabel (settings : DecoderSettings) : Fetch (Machine σ) Descriptor := do
  let code ← readCode
  match code with
  | .ulong0 | .smallUlong | .ulong => return .code (← readUlong code)
  | .symbol8 | .symbol32 => return .symbol (← readSymbol settings code)
  | _ => throw (.malformed "descriptor must be a ulong or a symbol")

/-- Read the constructor that the elements of an array share. -/
def readShared (settings : DecoderSettings) : Fetch (Machine σ) (Option Descriptor × Code) := do
  let code ← readCode
  if code ≠ .described then return (none, code)
  let descriptor ← readLabel settings
  let shared ← readCode
  if shared = .described then throw (.malformed "array constructor is described more than once")
  pure (some descriptor, shared)

section Containers

variable (settings : DecoderSettings) (decode : Code → Fetch (Machine σ) Value)

/-- Read a descriptor and a body behind the announcing byte. -/
def readParts : Fetch (Machine σ) (Descriptor × Value) :=
  nested settings do
    let descriptor ← readLabel settings
    let body ← readCode >>= decode
    pure (descriptor, body)

/-- Read a described value behind the announcing byte. -/
def readResolved : Fetch (Machine σ) Described := do
  let (descriptor, body) ← readParts settings decode
  lift (Registry.standard.resolve descriptor body)

/-- Read a list behind its constructor. -/
def readItems (code : Code) : Fetch (Machine σ) Value := do
  let header ← readPrefix code
  let start ← Source.getPosition
  let items ← nested settings (collect (readCode >>= decode) header.count [])
  checkTaken .list header start
  pure (.list items)

/-- Read a map behind its constructor. -/
def readEntries (code : Code) : Fetch (Machine σ) Value := do
  let header ← readPrefix code
  if header.count % 2 ≠ 0 then throw (.oddMapCount header.count)
  let start ← Source.getPosition
  let entry : Fetch (Machine σ) (Value × Value) := do
    let key ← readCode >>= decode
    let value ← readCode >>= decode
    pure (key, value)
  let entries ← nested settings (collect entry (header.count / 2) [])
  checkTaken .map header start
  pure (.map entries)

/-- Read an array behind its constructor. -/
def readMembers (code : Code) : Fetch (Machine σ) Value := do
  let header ← readPrefix code
  if header.size = 0 ∧ header.count = 0 then return .array []
  let start ← Source.getPosition
  let items ← nested settings do
    let (descriptor, shared) ← readShared settings
    if shared.category = .fixed 0 then checkTaken .array header start
    collect (readElement descriptor (decode shared)) header.count []
  checkTaken .array header start
  pure (.array items)

/-- Read a value behind its constructor, by the class of the constructor. -/
def readBehind (code : Code) : Fetch (Machine σ) Value :=
  match code.category with
  | .fixed _ => readFixed settings code
  | .variable _ => readVariable settings code
  | .compound _ =>
    match code with
    | .map8 | .map32 => readEntries settings decode code
    | .array8 | .array32 => readMembers settings decode code
    | _ => readItems settings decode code
  | .described => return .described (← readResolved settings decode)

/-- Pass over a value behind its constructor, by the class of the constructor. -/
def skipBehind (skip : Code → Fetch (Machine σ) Unit) (code : Code) : Fetch (Machine σ) Unit :=
  match code.category with
  | .fixed width => Source.skip width
  | .variable width => do
    let length ← Source.readNat width
    ensureAvailable length
    Source.skip length
  | .compound _ => do
    let header ← readPrefix code
    Source.skip header.size
  | .described => nested settings do
      readCode >>= skip
      readCode >>= skip

end Containers

/-- What stands behind the end of the fuel of a machine, when it reads and when it passes
over. -/
structure Beyond (σ : Type) where
  read : Code → Fetch (Machine σ) Value
  skip : Code → Fetch (Machine σ) Unit

section Operations

variable (settings : DecoderSettings) (beyond : Beyond σ)

/-- The reader of values on some fuel. -/
def decode : (fuel : Nat) → Code → Fetch (Machine σ) Value
  | 0 => beyond.read
  | fuel + 1 => readBehind settings (decode fuel)

/-- Passing over values on some fuel. -/
def skip : (fuel : Nat) → Code → Fetch (Machine σ) Unit
  | 0 => beyond.skip
  | fuel + 1 => skipBehind settings (skip fuel)

/-- Read a value. There is fuel for every level and for the value itself. -/
def decodeValue : Fetch (Machine σ) Value :=
  readCode >>= decode settings beyond (settings.maxDepth + 1)

/-- Read a value as a type. -/
def decodeAs (type : Ty) : Fetch (Machine σ) Value := do
  lift (type.read (← decodeValue settings beyond))

/-- Read values until none is left, at most so many. -/
def decodeUntilEnd : (bound : Nat) → List Value → Fetch (Machine σ) (List Value)
  | 0, values => pure values.reverse
  | bound + 1, values => do
    if ← Source.hasRemaining then
      let value ← decodeValue settings beyond
      decodeUntilEnd bound (value :: values)
    else pure values.reverse

/-- Read the prefix of a list. -/
def decodeListHeader : Fetch (Machine σ) Header := do
  let code ← peekCode
  match code with
  | .list0 =>
    Source.skip 1
    pure ⟨0, 0⟩
  | .list8 | .list32 =>
    Source.skip 1
    readPrefix code
  | _ => throw (.unexpectedType "list" code.kind.name)

/-- Read a value that must be described. -/
def decodeDescribed : Fetch (Machine σ) Described := do
  let code ← peekCode
  if code ≠ .described then throw (.unexpectedType "described" code.kind.name)
  Source.skip 1
  readResolved settings (decode settings beyond settings.maxDepth)

/-- Carry out an operation. -/
def run : Operation → Fetch (Machine σ) Answer
  | .hasRemaining => return .present (← Source.hasRemaining)
  | .peekCode => return .code (← Decoder.peekCode)
  | .value => return .value (← decodeValue settings beyond)
  | .typed type => return .value (← decodeAs settings beyond type)
  | .skip => do
    readCode >>= skip settings beyond (settings.maxDepth + 1)
    return .passed
  | .listHeader => return .header (← decodeListHeader)
  | .described => return .described (← decodeDescribed settings beyond)
  | .all => return .values (← decodeUntilEnd settings beyond (Source.pending (← get) + 1) [])

/-- Carry out an operation and record it. -/
def perform (operation : Operation) (machine : Machine σ) : Entry × Machine σ :=
  match run settings beyond operation machine with
  | .ok answer after => (⟨operation, .ok answer, Source.position after⟩, after)
  | .error error after => (⟨operation, .error error, Source.position after⟩, after)

/-- Carry out operations one after the other, also behind failures, and record them. -/
def session : List Operation → Machine σ → List Entry × Machine σ
  | [], machine => ([], machine)
  | operation :: later, machine =>
    let done := perform settings beyond operation machine
    let rest := session later done.2
    (done.1 :: rest.1, rest.2)

end Operations

end Machine

end Amqp
