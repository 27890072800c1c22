import Amqp.Proofs.Truthfulness

/-!
# Lossy reading only repairs text

A session may read text strictly, or put a character in the place of every fault. The choice is
asked for at every string and symbol of a value. Some of these are keys of maps, and some are
descriptors, which decide what the value around them is. Yet it changes nothing but text. The two
ways of reading agree on all text that is valid, so two decoders that differ in this choice go
the same way on one source until one of them meets a fault, and only the strict one stops there.

Nothing is asked of the source. A buffer may have been read from, and a stream may hold a byte and
may stand over a reader that ends for a while or fails.
-/

namespace Amqp

open Coupling (mirror mirrors_self)
open Decoder

/-- A failure for text that is not valid. -/
def Error.IsGarbled (error : Error) : Prop := ∃ fault, error = .invalidUtf8 fault

/-- Lossy reading does what strict reading does, unless that one meets text that is not valid. -/
theorem covers_lossy (maxDepth : Nat) :
    Covers Error.IsGarbled ⟨.strict, maxDepth⟩ ⟨.lossy, maxDepth⟩ where
  text content := by
    cases read : TextDecoder.strict content with
    | ok text => exact .inl ((TextDecoder.lossy_of_strict read).trans read.symm)
    | error error =>
      exact .inr ⟨error, read, TextDecoder.exists_fault_of_error (.inl rfl) read⟩
  depth := .inl rfl

/-- A computation that is tracked on one source in one state comes to the same, unless it fails
with an excuse. The coupling is equality, so that of the states behind is equality too. -/
theorem eq_of_tracks_self {σ α : Type} {excused : Error → Prop} {left right : Fetch σ α}
    (tracks : (mirror (fun source target : σ => source = target) excused).Tracks (· = ·) (· = ·)
      left right) {source : σ}
    (unexcused : ∀ error after, left source = .error error after → ¬excused error) :
    right source = left source := by
  have follows := tracks source source rfl
  cases ran : left source with
  | ok result after =>
    rw [ran] at follows
    obtain ⟨_, same, rfl⟩ := follows
    exact same
  | error error after =>
    rw [ran] at follows
    rcases follows with excuse | ⟨_, same, rfl⟩
    · exact absurd excuse (unexcused error after ran)
    · exact same

/-- A decoder that accepts every text does not fail for text that is not valid, unless its source
does. -/
theorem not_isGarbled_of_cause {σ : Type} [Source σ] {settings : DecoderSettings}
    {facing : σ → Prop} {refuses : Error → σ → Prop} {error : Error} {source : σ}
    (tolerant : ∀ content error, settings.text content ≠ .error error)
    (legible : ∀ error source, refuses error source → ¬error.IsGarbled)
    (cause : Cause settings facing refuses error source) : ¬error.IsGarbled := by
  rintro ⟨fault, rfl⟩
  cases cause with
  | refused refused => exact legible _ _ refused ⟨fault, rfl⟩
  | garbled _ refused => exact tolerant _ _ refused
  | mismatched _ mismatched => cases mismatched

/-- What lossy reading owes strict reading from one state of a source. It never fails for text
that is not valid. And where strict reading does not fail for that reason either, it comes to
the same, a value or another failure, and leaves the source in the same state. -/
structure Repairs {σ α : Type} (compute : DecoderSettings → Fetch σ α) (maxDepth : Nat)
    (source : σ) : Prop where
  never {error : Error} {after : σ} :
    compute ⟨.lossy, maxDepth⟩ source = .error error after → ¬error.IsGarbled
  same : (∀ error after,
      compute ⟨.strict, maxDepth⟩ source = .error error after → ¬error.IsGarbled) →
    compute ⟨.lossy, maxDepth⟩ source = compute ⟨.strict, maxDepth⟩ source

section Repair

variable {σ : Type} [Source σ] {footing : Footing σ} {source : σ}

/-- Lossy reading repairs what a computation reads that tracks itself and fails for known causes
only, if the source does not refuse requests for text that is not valid. -/
theorem repairs_of_explains {α : Type} {compute : DecoderSettings → Fetch σ α} {maxDepth : Nat}
    {after : σ → Prop} (legible : ∀ error source, footing.refuses error source → ¬error.IsGarbled)
    (tracks : (mirror (fun source target : σ => source = target) Error.IsGarbled).Tracks (· = ·)
      (· = ·) (compute ⟨.strict, maxDepth⟩) (compute ⟨.lossy, maxDepth⟩))
    (explains : Explains ⟨.lossy, maxDepth⟩ footing footing.facing after
      (compute ⟨.lossy, maxDepth⟩)) (faces : footing.facing source) :
    Repairs compute maxDepth source where
  never failed := by
    have cause := explains source faces
    rw [failed] at cause
    exact not_isGarbled_of_cause (fun _ _ refused => by cases refused) legible cause
  same := eq_of_tracks_self tracks

/-- Lossy reading repairs what is read of a value. -/
theorem repairs_decodeValue
    (legible : ∀ error source, footing.refuses error source → ¬error.IsGarbled)
    (firm : footing.Firm) (faces : footing.facing source) (maxDepth : Nat) :
    Repairs decodeValue maxDepth source :=
  repairs_of_explains legible (tracks_decodeValue (mirrors_self _).aligned.toSound
    (covers_lossy maxDepth)) (explains_decodeValue firm) faces

/-- Lossy reading repairs what any operation reads. -/
theorem repairs_run
    (legible : ∀ error source, footing.refuses error source → ¬error.IsGarbled)
    (sound : footing.Sound) (faces : footing.facing source) (operation : Operation)
    (maxDepth : Nat) : Repairs (fun settings => operation.run settings) maxDepth source :=
  repairs_of_explains legible
    (tracks_run (mirrors_self _).aligned (covers_lossy maxDepth) operation)
    (explains_run sound _ operation) faces

end Repair

/-- An early end is no fault of text. -/
theorem not_isGarbled_of_endsEarly {σ : Type} (error : Error) (source : σ)
    (early : Footing.EndsEarly error source) : ¬error.IsGarbled := by
  rintro ⟨fault, rfl⟩
  cases early

/-- Neither the end of the input nor a failure of a reader is a fault of text. -/
theorem not_isGarbled_of_anywhere (error : Error) (stream : Stream)
    (refused : Stream.anywhere.refuses error stream) : ¬error.IsGarbled := by
  rintro ⟨fault, rfl⟩
  rcases refused with ⟨⟨⟩⟩ | ⟨_, ⟨⟩⟩

/-- Lossy reading only repairs text: on a buffer and on a stream over any reader, in any state,
for every limit of nesting, whether a value is read or another operation is carried out. The two
ways of reading leave the source in the same state as well, so they can be exchanged between any
two operations.

Proof: The two text hooks agree on valid text, and on all other text the strict one refuses. A
source is coupled with itself by equality, and the refusal of text is excused; so the two
readings agree unless the strict one is refused for its text. That the lossy one never is follows
from the known causes of failures, of which this one needs a hook that refuses. -/
theorem lossy_repairs (maxDepth : Nat) :
    (∀ source : Buffer, Repairs decodeValue maxDepth source) ∧
    (∀ source : Stream, Repairs decodeValue maxDepth source) ∧
    ∀ operation : Operation,
      (∀ source : Buffer, Repairs (fun settings => operation.run settings) maxDepth source) ∧
      ∀ source : Stream, Repairs (fun settings => operation.run settings) maxDepth source := by
  refine ⟨fun source => ?_, fun source => ?_, fun operation =>
    ⟨fun source => ?_, fun source => ?_⟩⟩
  · exact repairs_decodeValue not_isGarbled_of_endsEarly (Buffer.sound_footing source).toFirm
      (.refl _ source) maxDepth
  · exact repairs_decodeValue not_isGarbled_of_anywhere Stream.sound_anywhere.toFirm trivial
      maxDepth
  · exact repairs_run not_isGarbled_of_endsEarly (Buffer.sound_footing source) (.refl _ source)
      operation maxDepth
  · exact repairs_run not_isGarbled_of_anywhere Stream.sound_anywhere trivial operation maxDepth

end Amqp
