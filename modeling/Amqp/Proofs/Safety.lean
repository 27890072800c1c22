import Amqp.Proofs.Encoder.Safety
import Amqp.Proofs.Machine.Tracking

/-!
# Nothing crashes

A decoder is fed by whoever is at the other end, so no bytes may stop it otherwise than by a
refusal, and the same goes for an encoder and the values that it is given. Both have places that
must not be reached: the decoder has readers that know only the constructors of one class, and
takes differences that must not be negative, and the encoder has the defects.

For the decoder this is read off the machine, which has these places in sight. It is tied to its
source at every step, and a machine that is tied to a source has not crashed. For the encoder it
is that no defect comes up.
-/

namespace Amqp

/-- A session of a machine that does what the readers do, and does not crash on the way. -/
structure Uncrashed {σ : Type} [Source σ] (settings : DecoderSettings) (beyond : Machine.Beyond σ)
    (operations : List Operation) (source : σ) : Prop where
  same_entries : (Machine.session settings beyond operations (Machine.start source)).1 =
    (session settings operations source).1
  same_source : (Machine.session settings beyond operations (Machine.start source)).2.source =
    (session settings operations source).2
  intact : (Machine.session settings beyond operations (Machine.start source)).2.crash = none

/-- No session crashes on a source whose position never falls. -/
theorem uncrashed {σ : Type} [Source σ] [Source.Advances σ] (settings : DecoderSettings)
    (beyond : Machine.Beyond σ) (operations : List Operation) (source : σ) :
    Uncrashed settings beyond operations source := by
  obtain ⟨same, tied⟩ := Machine.tied_session settings beyond operations
    (Machine.tied_start settings source)
  exact ⟨same, tied.source_eq, tied.intact⟩

/-- Nothing crashes. Whatever a buffer or a reader holds, in whatever state it is, and whatever
is asked of a decoder on it, one operation after the other and also behind failures, the decoder
reaches no reader that does not know the constructor, takes no negative difference and is not
thrown back on what stands behind the end of its fuel. Whatever value is written, by itself or as
its type shows it, with whatever text hook, also one with a memory, no defect comes up. And every
size, count and length is in its prefix as it is.

Proof: For the decoder, a machine on which such an event would be put on record is shown to do
what the readers do, with an empty record, by one step for each reader and by induction on the
levels that are left. For the encoder, a defect is ruled out by what was done before: elements
are laid out only if they have an element form, and what is written between opening and closing a
container only appends, so a prefix is where it was left. -/
theorem nothing_crashes :
    (∀ (settings : DecoderSettings) (beyond : Machine.Beyond Buffer) (operations : List Operation)
      (source : Buffer), Uncrashed settings beyond operations source) ∧
    (∀ (settings : DecoderSettings) (beyond : Machine.Beyond Stream) (operations : List Operation)
      (source : Stream), Uncrashed settings beyond operations source) ∧
    (∀ hook : TextEncoder, Encoder.Unstopped hook) ∧ Encoder.Lossless :=
  ⟨uncrashed, uncrashed, Encoder.unstopped, Encoder.lossless⟩

end Amqp
