import Amqp.Proofs.Decoder.Tracking

/-!
# Sessions

A session is a sequence of operations of one decoder on one source, which goes on behind
failures. Its record has one entry for each operation: what the operation came to, and the
position behind it. On coupled sources a session tracks itself because each operation
does.
-/

namespace Amqp

open Decoder

/-- An operation of a decoder. -/
inductive Operation where
  | hasRemaining
  | peekCode
  | value
  | typed (type : Ty)
  | skip
  | listHeader
  | described
  | all
  deriving DecidableEq

/-- What an operation gives when it succeeds. -/
inductive Answer where
  | present (more : Bool)
  | code (code : Code)
  | value (value : Value)
  | passed
  | header (header : Header)
  | described (value : Described)
  | values (values : List Value)

namespace Operation

/-- Carry out an operation. -/
def run {σ : Type} [Source σ] (settings : DecoderSettings) : Operation → Fetch σ Answer
  | hasRemaining => return .present (← Source.hasRemaining)
  | peekCode => return .code (← Decoder.peekCode)
  | value => return .value (← decodeValue settings)
  | typed type => return .value (← decodeAs settings type)
  | skip => do
    skipValue settings
    return .passed
  | listHeader => return .header (← decodeListHeader)
  | described => return .described (← decodeDescribed settings)
  | all => return .values (← decodeAll settings)

/-- Whether an operation only looks at what comes next. -/
def looks : Operation → Bool
  | hasRemaining | peekCode => true
  | _ => false

/-- Whether an operation takes exactly one value, or the prefix of one. -/
def takes : Operation → Bool
  | value | typed _ | skip | listHeader | described => true
  | _ => false

end Operation

/-- What an operation of a session came to, and the position behind it. -/
structure Entry where
  operation : Operation
  outcome : Except Error Answer
  position : Nat

section Sessions

variable {σ : Type} [Source σ]

/-- Carry out an operation and record it. -/
def perform (settings : DecoderSettings) (operation : Operation) (source : σ) : Entry × σ :=
  match operation.run settings source with
  | .ok answer after => (⟨operation, .ok answer, Source.position after⟩, after)
  | .error error after => (⟨operation, .error error, Source.position after⟩, after)

/-- The entry of an operation that succeeds. -/
theorem perform_of_ok {settings : DecoderSettings} {operation : Operation} {source after : σ}
    {answer : Answer} (ran : operation.run settings source = .ok answer after) :
    perform settings operation source =
      (⟨operation, .ok answer, Source.position after⟩, after) := by
  rw [perform, ran]

/-- The entry of an operation that fails. -/
theorem perform_of_error {settings : DecoderSettings} {operation : Operation} {source after : σ}
    {error : Error} (failed : operation.run settings source = .error error after) :
    perform settings operation source =
      (⟨operation, .error error, Source.position after⟩, after) := by
  rw [perform, failed]

/-- Carry out operations one after the other, also behind failures, and record them. -/
def session (settings : DecoderSettings) : List Operation → σ → List Entry × σ
  | [], source => ([], source)
  | operation :: later, source =>
    let done := perform settings operation source
    let rest := session settings later done.2
    (done.1 :: rest.1, rest.2)

end Sessions

/-- A record on a buffer and one on a stream are the same up to the first failure on the
buffer. An early refusal of a declared length is some failure on the stream as well, except
of the prefix of a list; any other failure is the same one. -/
def Agree : List Entry → List Entry → Prop
  | [], [] => True
  | left :: lefts, right :: rights =>
    match left.outcome with
    | .ok _ => right = left ∧ Agree lefts rights
    | .error (.lengthExceedsRemaining _ _) =>
      left.operation = .listHeader ∨ ∃ error, right.outcome = .error error
    | .error error => right.outcome = .error error
  | _, _ => False

section Tracking

open Coupling

variable {σ τ : Type} [Source σ] [Source τ] {coupling : Coupling σ τ} {left right : DecoderSettings}

/-- Every operation tracks itself on aligned sources. That is where all that is known of the
operations comes together; from here on a session is a list of steps that are related one by one.
Alignment is needed, and not only soundness, because two of the operations look at a next byte
that may be missing. -/
theorem tracks_run (aligned : coupling.Aligned) (covers : Covers coupling.excused left right)
    (operation : Operation) : coupling.Tracks coupling.facing coupling.facing
      (operation.run left) (operation.run right) := by
  have settles {α : Type} {first : Fetch σ α} {first' : Fetch τ α}
      (tracks : coupling.Tracks coupling.facing coupling.settled first first') :
      coupling.Tracks coupling.facing coupling.facing first first' :=
    tracks.imp (fun _ _ => id) fun _ _ => aligned.facing_of_settled
  cases operation with
  | hasRemaining => exact (aligned.peek.map Option.isSome).map Answer.present
  | peekCode =>
    exact ((tracks_peekCode aligned.toSound).imp (fun _ _ => id) fun _ _ shown => shown.1).map
      Answer.code
  | value => exact (settles (tracks_decodeValue aligned.toSound covers)).map Answer.value
  | typed type => exact (settles (tracks_decodeAs aligned.toSound covers type)).map Answer.value
  | skip => exact (settles (tracks_skipValue aligned.toSound covers)).map fun _ => Answer.passed
  | listHeader => exact (settles (tracks_decodeListHeader aligned.toSound)).map Answer.header
  | described =>
    exact (settles (tracks_decodeDescribed aligned.toSound covers)).map Answer.described
  | all => exact (tracks_decodeAll aligned covers).map Answer.values

/-- An operation that takes a value leaves no byte held. -/
theorem tracks_run_of_takes (sound : coupling.Sound)
    (covers : Covers coupling.excused left right) {operation : Operation}
    (takes : operation.takes = true) : coupling.Tracks coupling.facing coupling.settled
      (operation.run left) (operation.run right) := by
  cases operation with
  | value => exact (tracks_decodeValue sound covers).map Answer.value
  | typed type => exact (tracks_decodeAs sound covers type).map Answer.value
  | skip => exact (tracks_skipValue sound covers).map fun _ => Answer.passed
  | listHeader => exact (tracks_decodeListHeader sound).map Answer.header
  | described => exact (tracks_decodeDescribed sound covers).map Answer.described
  | hasRemaining | peekCode | all => cases takes

end Tracking

end Amqp
