import Amqp.Proofs.Decoder.Acceptance
import Amqp.Proofs.Decoder.Tracking
import Amqp.Proofs.Source.Delivery

/-!
# What is consumed in any state

Whatever has happened to a source before, and whatever its reader does later, a value that
is read has an encoding among the bytes that the source hands out, and the source counts
exactly the bytes of that encoding. A stream whose reader may fail is compared with one whose
reader does not.

An encoding is not empty, so every value takes a byte of what can still arrive. Reading up to the
end takes one step more than there are such bytes, and is therefore never cut off.
-/

namespace Amqp.Decoder

open Source (Lawful)
open Source.Lawful (Facing)
open Grammar (Encoding)

/-- Behind a computation a source has counted the bytes of a word of a language. -/
def Consumes {σ α : Type} [Source σ] (language : Bytes → α → Prop) (compute : Fetch σ α) : Prop :=
  ∀ ⦃source after : σ⦄ ⦃result : α⦄, compute source = .ok result after → ∃ word,
    Source.position after = Source.position source + word.length ∧ language word result

section Fronts

variable {α : Type} {language : Bytes → α → Prop}

/-- What is read from a buffer in any state is a word at the front of what the buffer holds, and
what is behind the word is left. -/
theorem exists_front_of_buffer {compute : Fetch Buffer α}
    (parses : ParsesFrom Facing compute language) {source after : Buffer} {result : α}
    (ran : compute source = .ok result after) :
    ∃ word, source.rest = word ++ after.rest ∧
      Source.position after = Source.position source + word.length ∧ language word result := by
  have faces : Facing source source.rest source.position := ⟨rfl, rfl⟩
  obtain ⟨word, back, split, accepted, left, counted⟩ := parses.sound faces ran
  exact ⟨word, by rw [split, left], counted, accepted⟩

/-- What is read from a stream in any state is a word at the front of the bytes to come, and what
is behind the word is left.

The stream itself may fail, so nothing can be said of it by the laws of a source. It is put
beside a stream that delivers the same bytes undisturbed: this one gives the same result, the
laws hold of it, and behind the result both have the same bytes to come. -/
theorem exists_front_of_stream {compute : Fetch Stream α}
    (tracks : Coupling.disturbed.Tracks Coupling.disturbed.facing Coupling.disturbed.settled
      compute compute)
    (parses : ParsesFrom Facing compute language) {source after : Stream} {result : α}
    (ran : compute source = .ok result after) :
    ∃ word, source.upcoming = word ++ after.upcoming ∧
      Source.position after = Source.position source + word.length ∧ language word result := by
  have faces := Stream.faces_of_holds source.holds_undisturbed
  have follows := tracks source source.undisturbed faces
  rw [ran] at follows
  obtain ⟨behind, same, _, _, delivers, position⟩ := follows
  obtain ⟨word, back, split, accepted, _, left, counted⟩ := parses.sound faces same
  exact ⟨word, by rw [split, ← left.2, delivers.2], position.symm.trans counted, accepted⟩

/-- A buffer in any state counts what is read. -/
theorem consumes_buffer {compute : Fetch Buffer α}
    (parses : ParsesFrom Facing compute language) : Consumes language compute := by
  intro source after result ran
  obtain ⟨word, _, counted, accepted⟩ := exists_front_of_buffer parses ran
  exact ⟨word, counted, accepted⟩

/-- A stream in any state counts what is read. -/
theorem consumes_stream {compute : Fetch Stream α}
    (tracks : Coupling.disturbed.Tracks Coupling.disturbed.facing Coupling.disturbed.settled
      compute compute)
    (parses : ParsesFrom Facing compute language) : Consumes language compute := by
  intro source after result ran
  obtain ⟨word, _, counted, accepted⟩ := exists_front_of_stream tracks parses ran
  exact ⟨word, counted, accepted⟩

end Fronts

variable (settings : DecoderSettings)

/-- A value that is read from a buffer is encoded in the bytes that it took. -/
theorem consumes_decodeValue_buffer :
    Consumes (Encoding settings.text settings.maxDepth) (decodeValue settings : Fetch Buffer _) :=
  consumes_buffer (parsesFrom_decodeValue settings)

/-- A value that is read from a stream is encoded in the bytes that it took. -/
theorem consumes_decodeValue_stream :
    Consumes (Encoding settings.text settings.maxDepth) (decodeValue settings : Fetch Stream _) :=
  consumes_stream (tracks_decodeValue Coupling.sound_disturbed (.refl _ settings))
    (parsesFrom_decodeValue settings)

/-- A described value that is read from a buffer is encoded in the bytes that it took. -/
theorem consumes_decodeDescribed_buffer :
    Consumes (fun bytes contained =>
      Encoding settings.text settings.maxDepth bytes (.described contained))
      (decodeDescribed settings : Fetch Buffer _) :=
  consumes_buffer (parsesFrom_decodeDescribed settings)

/-- A described value that is read from a stream is encoded in the bytes that it took. -/
theorem consumes_decodeDescribed_stream :
    Consumes (fun bytes contained =>
      Encoding settings.text settings.maxDepth bytes (.described contained))
      (decodeDescribed settings : Fetch Stream _) :=
  consumes_stream (tracks_decodeDescribed Coupling.sound_disturbed (.refl _ settings))
    (parsesFrom_decodeDescribed settings)

section UntilEnd

/-- A source on which the bound on what can still arrive is one for the values that are read: a
look at the next byte does not raise it, and a value takes at least a byte of it. -/
structure Bounded (σ : Type) [Source σ] (settings : DecoderSettings) : Prop where
  looks {source after : σ} {shown : Option UInt8} :
    Source.peek source = .ok shown after → Source.pending after ≤ Source.pending source
  takes {source after : σ} {value : Value} :
    decodeValue settings source = .ok value after → Source.pending after < Source.pending source

variable {settings}

/-- Reading up to the end is not cut off by its bound. With more steps than bytes can still
arrive, any number of further steps changes neither the result nor the state.

Proof: By induction on the steps. A look that shows no byte ends both readings, and so does a
refusal. A value takes a byte, so behind it there are still more steps than bytes. -/
theorem Bounded.decodeUntilEnd_eq {σ : Type} [Source σ] (bounded : Bounded σ settings)
    {bound more : Nat} (le : bound ≤ more) {source : σ} (enough : Source.pending source < bound)
    (earlier : List Value) :
    decodeUntilEnd settings more earlier source = decodeUntilEnd settings bound earlier source := by
  induction bound generalizing more source earlier with
  | zero => cases enough
  | succ bound inductionHypothesis =>
    obtain ⟨more, rfl⟩ := Nat.exists_eq_add_of_le' le
    change decodeUntilEnd settings (more + bound + 1) earlier source = _
    cases looked : (Source.peek source : EStateM.Result Error σ _) with
    | error error after =>
      have failed : (Source.hasRemaining : Fetch σ _) source = .error error after :=
        bind_of_error looked
      exact (bind_of_error failed).trans (bind_of_error failed).symm
    | ok shown middle =>
      have seen : (Source.hasRemaining : Fetch σ _) source = .ok shown.isSome middle :=
        bind_of_ok looked
      rw [decodeUntilEnd, decodeUntilEnd, bind_of_ok seen, bind_of_ok seen]
      cases shown with
      | none => rfl
      | some byte =>
        cases ran : decodeValue settings middle with
        | error error after => exact (bind_of_error ran).trans (bind_of_error ran).symm
        | ok value after =>
          refine (bind_of_ok ran).trans (Eq.trans ?_ (bind_of_ok ran).symm)
          have kept := bounded.looks looked
          have fewer := bounded.takes ran
          exact inductionHypothesis (Nat.le_add_left bound more) (by omega) (value :: earlier)

/-- Reading everything is reading up to the end with any bound above the bytes that can still
arrive. -/
theorem Bounded.decodeAll_eq {σ : Type} [Source σ] (bounded : Bounded σ settings) {source : σ}
    {bound : Nat} (enough : Source.pending source < bound) :
    decodeAll settings source = decodeUntilEnd settings bound [] source :=
  (bounded.decodeUntilEnd_eq enough (Nat.lt_succ_self _) []).symm

variable (settings)

/-- A buffer holds all the bytes that can still arrive, and an encoding is not empty. -/
theorem bounded_buffer : Bounded Buffer settings where
  looks looked := by
    cases looked
    exact Nat.le_refl _
  takes {source after value} ran := by
    obtain ⟨word, split, _, encoding⟩ :=
      exists_front_of_buffer (parsesFrom_decodeValue settings) ran
    change after.remaining < source.remaining
    rw [after.remaining_eq, source.remaining_eq, split, List.length_append]
    exact Nat.lt_add_of_pos_left (List.length_pos_iff.mpr (Grammar.Coded.ne_nil encoding))

/-- The bytes that can still arrive on a stream over any reader are those to come. A look may
move one of them from the reader into the stream, which leaves their number, and a value is
encoded in those that it takes. The reader may fail or end for a while; where it does, no value
is read. -/
theorem bounded_stream : Bounded Stream settings where
  looks {source after shown} looked := by
    have same := congrArg List.length (Stream.upcoming_peek looked).1
    rw [Stream.upcoming, Stream.upcoming, List.length_append, List.length_append] at same
    exact Nat.le_of_eq same
  takes {source after value} ran := by
    obtain ⟨word, split, _, encoding⟩ := exists_front_of_stream
      (tracks_decodeValue Coupling.sound_disturbed (.refl _ settings))
      (parsesFrom_decodeValue settings) ran
    have some := List.length_pos_iff.mpr (Grammar.Coded.ne_nil encoding)
    have total := congrArg List.length split
    rw [Stream.upcoming, Stream.upcoming, List.length_append, List.length_append,
      List.length_append] at total
    change after.peeked.toList.length + after.reader.undelivered.length <
      source.peeked.toList.length + source.reader.undelivered.length
    omega

end UntilEnd

end Amqp.Decoder
