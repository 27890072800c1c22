import Amqp.Proofs.Decoder.Failures
import Amqp.Proofs.Session
import Amqp.Proofs.Source.Advance

/-!
# Failures are truthful

Callers act on the class of a failure: they wait for more input, close the connection, or go on
with the next value. So on a source without failures of its own every failure of a decoder is of
one class, an early end, malformed input or a value of another type than expected. And they rely
on what a failure says. An unassigned byte is the next one and has not been taken, a length
exceeds what is left, a count is odd, two sizes differ, a limit is the limit that was set, and a
field is blamed for a value of another type and for nothing else.

This holds of any operation on a buffer or a stream, in whatever state it is, if text is read as
UTF-8, strictly or not. The reader of the stream may be interrupted and may end for a while, but
it reports no failure. A failure of the reader would be passed on, and another text hook could
refuse with an error of any class.
-/

namespace Amqp

open Decoder

section Causes

variable {σ : Type} [Source σ] {footing : Footing σ}

/-- Every operation fails for the known causes. The operations that take a value leave the source
settled, and are weakened here to what all operations leave it as. -/
theorem explains_run (sound : footing.Sound) (settings : DecoderSettings) (operation : Operation) :
    Explains settings footing footing.facing footing.facing (operation.run settings) := by
  have faces {α : Type} {compute : Fetch σ α}
      (explains : Explains settings footing footing.facing footing.settled compute) :
      Explains settings footing footing.facing footing.facing compute :=
    Accounts.imp explains (fun _ _ => id) (fun _ => id) fun _ => sound.facing_of_settled
  have firm := sound.toFirm
  cases operation with
  | hasRemaining => exact (explains_hasRemaining sound).map Answer.present
  | peekCode =>
    exact (Accounts.imp (explains_peekCode firm) (fun _ _ => id) (fun _ => id)
      fun _ shown => shown.1).map Answer.code
  | value => exact (faces (explains_decodeValue firm)).map Answer.value
  | typed type => exact (faces (explains_decodeAs firm type)).map Answer.value
  | skip => exact (faces (explains_skipValue firm)).map fun _ => Answer.passed
  | listHeader => exact (faces (explains_decodeListHeader firm)).map Answer.header
  | described => exact (faces (explains_decodeDescribed firm)).map Answer.described
  | all => exact (explains_decodeAll sound).map Answer.values

end Causes

section Truth

variable {σ : Type} [Source σ]

/-- What an error says of the settings, and of a source that has come from a start, is so. Errors
that only writing or a failing reader can cause are not said at all. -/
def Error.Says (settings : DecoderSettings) (unread : σ → Bytes) (start source : σ) : Error → Prop
  | unknownCode byte => Code.ofByte? byte = none ∧ HandedOut unread start source ∧
      (unread source).head? = some byte ∧ Source.peek source = .ok (some byte) source
  | lengthExceedsRemaining declared remaining => Source.remaining source = some remaining ∧
      remaining = (unread source).length ∧ remaining < declared
  | oddMapCount count => count % 2 = 1
  | sizeMismatch _ declared consumed => declared ≠ consumed
  | nestingTooDeep limit => limit = settings.maxDepth
  | invalidField _ cause => ∃ expected got, cause = unexpectedType expected got
  | unexpectedEof | malformed _ | unexpectedType _ _ | invalidUtf8 _ => True
  | io _ | tooLong | invalidArray _ => False

/-- A failure is of exactly one class, and what it says is so. -/
structure Truthful (settings : DecoderSettings) (unread : σ → Bytes) (start : σ) (error : Error)
    (source : σ) : Prop where
  one_class : [error.isEof, error.isMalformed, error.isMismatch].count true = 1
  accurate : error.Says settings unread start source

/-- A failure for a known cause is truthful, if the source shows its next byte and knows no wrong
number of bytes that are left. Each cause carries what its error says, so the cases are those of
the causes; what must be known of the source is only where it stands. -/
theorem truthful_of_cause {settings : DecoderSettings} {facing : σ → Prop} {unread : σ → Bytes}
    {start source : σ} {error : Error}
    (builtIn : settings.text = .strict ∨ settings.text = .lossy)
    (handed : ∀ source, facing source → HandedOut unread start source)
    (counted : ∀ remaining, Source.remaining source = some remaining →
      remaining = (unread source).length)
    (first : ∀ byte, Source.peek source = .ok (some byte) source →
      (unread source).head? = some byte)
    (cause : Cause settings facing Footing.EndsEarly error source) :
    Truthful settings unread start error source := by
  cases cause with
  | refused early =>
    obtain rfl : error = .unexpectedEof := early
    exact ⟨rfl, trivial⟩
  | unassigned none faces shown => exact ⟨rfl, none, handed source faces, first _ shown, shown⟩
  | overdrawn known few => exact ⟨rfl, known, counted _ known, few⟩
  | unpaired _ odd => exact ⟨rfl, odd⟩
  | misfit container _ differs => exact ⟨rfl, differs.symm⟩
  | illFormed reason => exact ⟨rfl, trivial⟩
  | tooDeep => exact ⟨rfl, rfl⟩
  | garbled _ refused =>
    obtain ⟨fault, rfl⟩ := TextDecoder.exists_fault_of_error builtIn refused
    exact ⟨rfl, trivial⟩
  | mismatched _ mismatched =>
    obtain ⟨late, formed⟩ := Error.eq_false_of_isMismatch mismatched
    refine ⟨by rw [late, formed, mismatched]; rfl, ?_⟩
    cases error with
    | unexpectedType expected got => trivial
    | invalidField field cause => exact Error.eq_unexpectedType_of_isMismatch mismatched
    | _ => cases mismatched

end Truth

/-- Every failure of every operation is of exactly one class, an early end, malformed input or a
value of another type, and what it says is so: on a buffer in any state, and on a stream in any
state over a reader that reports no failure, where no declared length is refused early. The
premise on text is needed because a hook could refuse with an error of any class.

Proof: A decoder fails for one of a few causes, and this is kept by computations in a row. On a
sound footing the source adds none but an early end. Then each cause is looked at once: its error
has one class, and what the error says was checked where it was made. -/
theorem failures_truthful (settings : DecoderSettings)
    (builtIn : settings.text = .strict ∨ settings.text = .lossy) (operation : Operation) :
    (∀ (start after : Buffer) (error : Error),
      operation.run settings start = .error error after →
        Truthful settings Buffer.rest start error after) ∧
    ∀ (start after : Stream) (error : Error), start.reader.Unfailing →
      operation.run settings start = .error error after →
        Truthful settings Stream.upcoming start error after ∧
          ∀ declared remaining, error ≠ .lengthExceedsRemaining declared remaining := by
  constructor
  · intro start after error failed
    have cause := explains_run (Buffer.sound_footing start) settings operation start
      (.refl _ start)
    rw [failed] at cause
    refine truthful_of_cause builtIn (fun _ => id) (fun remaining known => ?_)
      (fun byte shown => ?_) cause
    · rw [← Option.some.inj known]
      exact after.remaining_eq
    · exact (EStateM.Result.ok.inj shown).1
  · intro start after error unfailing failed
    have cause := explains_run (Stream.sound_footing start) settings operation start
      ⟨unfailing, .refl _ start⟩
    rw [failed] at cause
    have truthful : Truthful settings Stream.upcoming start error after := by
      refine truthful_of_cause builtIn (fun _ faces => faces.2) (fun remaining known => ?_)
        (fun byte shown => ?_) cause
      · exact absurd known (after.remaining_ne_some remaining)
      · obtain ⟨_, _, held⟩ := Stream.upcoming_peek shown
        rw [Stream.upcoming, held]
        rfl
    refine ⟨truthful, ?_⟩
    rintro declared remaining rfl
    exact after.remaining_ne_some remaining truthful.accurate.1

/-- A byte that is no constructor stops a list where it is. The error names it, and it has not
been taken, also if the stream is interrupted on the way. The premise on the reader of the stream
allows such interruptions. -/
theorem failures_truthful_unassigned : ∃ (buffer : Buffer) (stream : Stream),
    Operation.value.run .standard (Buffer.ofBytes [0xc0, 0x02, 0x01, 0x1f]) =
      .error (.unknownCode 0x1f) buffer ∧
    Operation.value.run .standard
      (Stream.ofReader [.piece [0xc0, 0x02], .interrupted, .piece [0x01, 0x1f]]) =
        .error (.unknownCode 0x1f) stream ∧
    Truthful .standard Buffer.rest (.ofBytes [0xc0, 0x02, 0x01, 0x1f]) (.unknownCode 0x1f) buffer ∧
    Truthful .standard Stream.upcoming
      (.ofReader [.piece [0xc0, 0x02], .interrupted, .piece [0x01, 0x1f]]) (.unknownCode 0x1f)
        stream ∧ buffer.position = 3 ∧ stream.position = 3 := by
  have unfailing : (Stream.ofReader [.piece [0xc0, 0x02], .interrupted,
      .piece [0x01, 0x1f]]).reader.Unfailing := by
    simp [Stream.ofReader, Reader.Unfailing]
  obtain ⟨onBuffer, onStream⟩ := failures_truthful .standard (.inl rfl) .value
  exact ⟨_, _, rfl, rfl, onBuffer _ _ _ rfl, (onStream _ _ _ unfailing rfl).1, rfl, rfl⟩

end Amqp
