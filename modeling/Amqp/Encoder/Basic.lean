import Amqp.Code
import Amqp.Error
import Amqp.Sink
import Amqp.Text.Hook

/-!
# Writing constructors, payloads and headers

Encoding writes into a sink and may ask the text hook, whose earlier questions are
part of the state. The state survives a failure, so that what a failed call leaves
behind can be seen and cut off again.

A container is opened with a one-byte size and count, both still zero, before its
length is known. Closing it either fills the two bytes in, or opens a gap of six more
and writes the four-byte forms. Elements of arrays that are containers themselves
always have the four-byte forms.
-/

namespace Amqp

/-- A breach of what the encoder promises itself. None of these can be reached by
encoding a value. -/
inductive Defect where
  /-- A patch reaches beyond what is written. -/
  | patchOutside
  /-- A gap is opened beyond what is written. -/
  | widenOutside
  /-- A container is closed before the place where it was opened. -/
  | payloadUnderflow
  /-- More fields are asked for than there are. -/
  | fieldsExceeded
  /-- An array element of a kind without an element form. -/
  | elementWithoutForm
  deriving DecidableEq, Repr

/-- Why an encoding stops: for a cause that concerns the value, or for a defect. -/
inductive Failure where
  | refused (error : Error)
  | defect (defect : Defect)
  deriving DecidableEq, Repr

namespace Encoder

/-- The sink, and the strings the text hook was asked for, latest first. -/
structure State where
  sink : Sink
  asked : List String

/-- A computation that writes. -/
abbrev Emit := EStateM Failure State

/-- The state before anything is written or asked. -/
def State.fresh (growth : Growth) : State := ⟨.empty growth, []⟩

/-- Refuse the value. -/
def refuse {α : Type} (error : Error) : Emit α := throw (.refused error)

/-- The number of bytes written. -/
def written : Emit Nat := return (← get).sink.written

/-- Write bytes. -/
def put (bytes : Bytes) : Emit Unit :=
  modify fun state => { state with sink := state.sink.put bytes }

/-- Write one byte. -/
def putByte (byte : UInt8) : Emit Unit := put [byte]

/-- Write a constructor. -/
def putCode (code : Code) : Emit Unit := putByte code.toByte

/-- Write a constructor and a number of a width. -/
def putNumber (code : Code) (width number : Nat) : Emit Unit := do
  putCode code
  put (.be width number)

/-- Replace bytes already written. -/
def patch (offset : Nat) (bytes : Bytes) : Emit Unit := fun state =>
  if state.sink.covers offset bytes.length then
    .ok () { state with sink := state.sink.patch offset bytes }
  else .error (.defect .patchOutside) state

/-- Open a gap among the bytes written. -/
def widen (offset length : Nat) : Emit Unit := fun state =>
  if state.sink.covers offset 0 then
    .ok () { state with sink := state.sink.widen offset length }
  else .error (.defect .widenOutside) state

/-- The bytes of a string as the hook writes it. -/
def ask (hook : TextEncoder) (text : String) : Emit Bytes := fun state =>
  .ok (hook state.asked text) { state with asked := text :: state.asked }

/-- Write something, and after a failure cut back to a length. -/
@[noinline] def orCutBack {α : Type} (length : Nat) (write : Emit α) : Emit α := fun state =>
  match write state with
  | .ok result after => .ok result after
  | .error failure after => .error failure { after with sink := after.sink.truncate length }

/-- Write something whole or not at all: what a failure leaves behind is cut off. -/
def atomic {α : Type} (write : Emit α) : Emit α := fun state =>
  orCutBack state.sink.written write state

/-- The bytes of a number in a prefix of a width, refused if it does not fit. -/
def sized (width number : Nat) : Emit Bytes :=
  if number < 256 ^ width then pure (.be width number) else refuse .tooLong

/-- Write a payload with the shorter prefix that fits its length, given the
constructor for one-byte lengths. -/
def putPayload (narrow : Code) (payload : Bytes) : Emit Unit := do
  let length := payload.length
  if length < 256 then
    putNumber narrow 1 length
  else
    let length ← sized 4 length
    putCode narrow.widen
    put length
  put payload

/-- Write a string. -/
def putString (hook : TextEncoder) (text : String) : Emit Unit := do
  putPayload .string8 (← ask hook text)

/-- Write a symbol. -/
def putSymbol (name : String) : Emit Unit := putPayload .symbol8 (Utf8.encode name)

/-- Write an unsigned number in the shortest of three forms: zero as a constructor alone, what
fits a byte as one byte, and anything else at full width. -/
def putUnsigned (zero small full : Code) (width number : Nat) : Emit Unit :=
  if number = 0 then putCode zero
  else if number < 256 then putNumber small 1 number
  else putNumber full width number

/-- Write an unsigned number of 32 bits in its shortest form. -/
def putUint (value : UInt32) : Emit Unit := putUnsigned .uint0 .smallUint .uint 4 value.toNat

/-- Write an unsigned number of 64 bits in its shortest form. -/
def putUlong (value : UInt64) : Emit Unit := putUnsigned .ulong0 .smallUlong .ulong 8 value.toNat

/-- Write a signed number in the shorter of two forms, given its byte and its pattern at full
width: one byte if it fits, and full width otherwise. -/
def putSigned (small full : Code) (width : Nat) (number : Int) (byte : Int8) (pattern : Nat) :
    Emit Unit :=
  if -128 ≤ number ∧ number < 128 then putNumber small 1 byte.toUInt8.toNat
  else putNumber full width pattern

/-- Write a signed number of 32 bits in its shorter form. -/
def putInt (value : Int32) : Emit Unit :=
  putSigned .smallInt .int 4 value.toInt value.toInt8 value.toUInt32.toNat

/-- Write a signed number of 64 bits in its shorter form. -/
def putLong (value : Int64) : Emit Unit :=
  putSigned .smallLong .long 8 value.toInt value.toInt8 value.toUInt64.toNat

/-- Where a container was opened, and its constructor for one-byte sizes. -/
structure Mark where
  start : Nat
  narrow : Code

/-- Open a container whose size and count are not known yet. -/
def openContainer (narrow : Code) : Emit Mark := do
  let start ← written
  putCode narrow
  put [0, 0]
  pure ⟨start, narrow⟩

/-- Close a container of a number of elements. One-byte size and count are kept if
both fit, unless the four-byte forms are demanded. -/
def closeContainer (mark : Mark) (count : Nat) (demandWide : Bool) : Emit Unit := do
  let stop ← written
  if stop < mark.start + 3 then throw (.defect .payloadUnderflow)
  let payload := stop - mark.start - 3
  if !demandWide && payload < 255 && count ≤ 255 then
    patch (mark.start + 1) [UInt8.ofNat (payload + 1), UInt8.ofNat count]
  else
    let size ← sized 4 (payload + 4)
    let count ← sized 4 count
    widen (mark.start + 1) 6
    patch mark.start (mark.narrow.widen.toByte :: size ++ count)

/-- Write a container with four-byte size and count and no constructor. -/
def putWideBody (count : Nat) (body : Emit Unit) : Emit Unit := do
  let start ← written
  put (.be 4 0)
  put (← sized 4 count)
  body
  let stop ← written
  if stop < start + 4 then throw (.defect .payloadUnderflow)
  patch start (← sized 4 (stop - start - 4))

/-- Write the payload of an array element behind a length, whose width the shared
constructor fixes. -/
def putElementPayload (shared : Code) (payload : Bytes) : Emit Unit := do
  match shared.category with
  | .variable 1 => put (← sized 1 payload.length)
  | _ => put (← sized 4 payload.length)
  put payload

/-- Write the symbols of an array behind the shared constructor. -/
def putSymbolElements (shared : Code) : List String → Emit Unit
  | [] => pure ()
  | name :: rest => do
    putElementPayload shared (Utf8.encode name)
    putSymbolElements shared rest

/-- Write an array of symbols. It names its constructor even without elements. -/
def putSymbolArray (names : List String) : Emit Unit := do
  let short := names.all fun name => (Utf8.encode name).length ≤ 255
  let shared := if short then Code.symbol8 else Code.symbol32
  let mark ← openContainer .array8
  putCode shared
  putSymbolElements shared names
  closeContainer mark names.length false

end Encoder

end Amqp
