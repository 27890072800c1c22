import Amqp.Proofs.Decoder.Consumption
import Amqp.Proofs.Encoder.Refusal

/-!
# Arrays are homogeneous both ways

A reader reads the elements of an array behind one constructor, so it makes no array but one
of kindred elements. A writer has to find that constructor from the elements, and it refuses
every array for which there is none, and nothing else: an array inside of a slot or of a
described body is found like any other.
-/

namespace Amqp

open Decoder (Consumes consumes_decodeValue_buffer consumes_decodeValue_stream decodeValue)
open Value (Homogeneous Kindred)

/-- Every array in what is read has kindred elements, if what is read is encoded in the bytes
that were taken. -/
theorem kindred_of_consumes {σ : Type} [Source σ] {settings : DecoderSettings}
    (consumes : Consumes (Grammar.Encoding settings.text settings.maxDepth)
      (decodeValue settings : Fetch σ Value)) {source after : σ} {value : Value}
    (ran : decodeValue settings source = .ok value after) : value.Everywhere Kindred := by
  obtain ⟨_, _, encoding⟩ := consumes ran
  have regular := encoding.regular
  exact fun part inside => Value.kindred_of_regular (Value.Everywhere.part regular inside)

/-- Arrays are homogeneous both ways. Every array in a value that is read, from a buffer or a
stream in any state, has kindred elements. A value that means what it seems to, whose sizes fit
and no part of which needs more levels than the usual reader has, is written exactly if every
array in it is homogeneous, and otherwise it is refused for an invalid array. The side conditions
exclude the other reasons for which a value can be refused, which might come up first.

Proof: For reading, the elements of an array are payloads of one constructor in the grammar. For
writing, induction on the value shows that each part is either written or refused for an array in
it, and a refusal in a part is the refusal of the whole. -/
theorem arrays_homogeneous :
    (∀ settings : DecoderSettings,
      (∀ {source after : Buffer} {value : Value}, decodeValue settings source = .ok value after →
        value.Everywhere Kindred) ∧
      (∀ {source after : Stream} {value : Value}, decodeValue settings source = .ok value after →
        value.Everywhere Kindred)) ∧
    (∀ value : Value, value.Everywhere Encoder.Regarded → ∀ state : Encoder.State,
      ((∃ after, Encoder.encodeValue .strict value state = .ok () after) ↔
        value.Everywhere Homogeneous) ∧
      (¬value.Everywhere Homogeneous → ∃ reason after, Encoder.encodeValue .strict value state =
        .error (.refused (.invalidArray reason)) after)) := by
  refine ⟨fun settings => ⟨kindred_of_consumes (consumes_decodeValue_buffer settings),
    kindred_of_consumes (consumes_decodeValue_stream settings)⟩, fun value regarded state => ?_⟩
  obtain ⟨written, refused⟩ := Encoder.encodeValue_of_regarded regarded
  refine ⟨⟨fun ⟨after, ran⟩ => Classical.byContradiction fun bad => ?_,
    fun homogeneous => written homogeneous state⟩, fun bad => refused bad state⟩
  obtain ⟨reason, last, failed⟩ := refused bad state
  rw [ran] at failed
  cases failed

/-- An array of a null in the body of a described value is regarded, and it is refused. Null is
of one kind with itself, but it has no constructor that elements could share. -/
theorem arrays_homogeneous_null :
    let value : Value := .described (.unknown (.symbol "a") (.array [.null]))
    value.Everywhere Encoder.Regarded ∧ ∃ reason after,
      Encoder.encodeValue .strict value (.fresh .shift) =
        .error (.refused (.invalidArray reason)) after := by
  intro value
  have null : Value.null.Everywhere Encoder.Regarded :=
    .of_simple rfl ⟨⟨trivial, trivial⟩, trivial, by decide⟩
  have array : (Value.array [.null]).Everywhere Encoder.Regarded :=
    .of_array ⟨⟨trivial, trivial⟩, by unfold Canonical.Fits; decide, by decide⟩
      (List.forall_mem_singleton.mpr null)
  have regarded : value.Everywhere Encoder.Regarded :=
    .of_unknown ⟨⟨trivial, rfl⟩, by unfold Canonical.Fits; decide, by decide⟩ array
  have bad : ¬value.Everywhere Homogeneous := by
    intro homogeneous
    rcases (homogeneous.contents List.mem_cons_self).here with none | ⟨kind, notNull, _, same⟩ |
      ⟨_, _, _, _, same⟩
    · cases none
    · exact notNull (same .null List.mem_cons_self).symm
    · obtain ⟨_, described, _⟩ := same .null List.mem_cons_self
      cases described
  exact ⟨regarded, (arrays_homogeneous.2 value regarded _).2 bad⟩

end Amqp
