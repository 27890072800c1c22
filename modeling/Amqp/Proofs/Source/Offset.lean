import Amqp.Proofs.Source.Coupling

/-!
# Positions count from anywhere

A source may have handed out some bytes before its counting began. With such an offset it answers
every request as before, and only its position is another one. A decoder asks for positions to
compare two of them, so an offset makes no difference to what it reads.

The offset is part of the type of the source, and the source itself is left as it is. A decoder
on the source with an offset is therefore a decoder on the source, and the two can be compared as
functions. Two sources of one kind that have handed out different numbers of bytes come to the
same position by an offset each, and then they are coupled by the bytes to come.
-/

namespace Amqp

/-- A source with an offset of its position. -/
def Offset (σ : Type) (_extra : Nat) : Type := σ

namespace Offset

variable {σ : Type} [Source σ] {extra : Nat}

/-- Only the position of a source is moved by an offset. -/
instance : Source (Offset σ extra) where
  remaining source := @Source.remaining σ _ source
  position source := @Source.position σ _ source + extra
  pending source := @Source.pending σ _ source
  peek := @Source.peek σ _
  read := @Source.read σ _
  take := @Source.take σ _
  skip := @Source.skip σ _

open Source (Lawful)

/-- Where a source stands that has been moved by an offset. -/
def Moved (stands : σ → Bytes → Nat → Prop) (source : Offset σ extra) (rest : Bytes)
    (taken : Nat) : Prop :=
  ∃ count, taken = count + extra ∧ stands source rest count

section Requests

variable [Lawful σ] {shape : Nat → Type} {request : (length : Nat) → Fetch σ (shape length)}
  {given : (front : Bytes) → shape front.length} {rest : Bytes} {taken : Nat}

/-- A request for bytes that come is answered as without the offset. -/
theorem settled_moved (answers : Lawful.Answers request given) {source : Offset σ extra}
    {front : Bytes} (moved : Moved Lawful.Settled source (front ++ rest) taken) :
    ∃ after : Offset σ extra, request front.length source = .ok (given front) after ∧
      Moved Lawful.Settled after rest (taken + front.length) := by
  obtain ⟨count, rfl, settled⟩ := moved
  obtain ⟨after, ran, settled⟩ := answers.settled settled
  exact ⟨after, ran, count + front.length, Nat.add_right_comm .., settled⟩

/-- A request for too many bytes is refused as without the offset. What the source loses then is
fixed before the state is, as the laws want it, so the position is taken apart first; one that is
less than the offset is that of no state, and anything is true of it. -/
theorem short_moved (answers : Lawful.Answers request given) {wanted : Nat}
    (short : rest.length < wanted) :
    ∃ rest' taken', (rest' = [] ∨ rest' = rest ∧ taken' = taken) ∧
      ∀ source : Offset σ extra, Moved Lawful.Settled source rest taken →
        ∃ after : Offset σ extra, request wanted source = .error .unexpectedEof after ∧
          Moved Lawful.Facing after rest' taken' := by
  by_cases counted : ∃ count, taken = count + extra
  · obtain ⟨count, rfl⟩ := counted
    obtain ⟨rest', taken', fallen, fails⟩ := answers.short short
    refine ⟨rest', taken' + extra, fallen.imp_right fun stays => ⟨stays.1, by rw [stays.2]⟩, ?_⟩
    rintro source ⟨count', same, settled⟩
    obtain rfl := Nat.add_right_cancel same
    obtain ⟨after, ran, faces⟩ := fails source settled
    exact ⟨after, ran, taken', rfl, faces⟩
  · refine ⟨[], 0, .inl rfl, ?_⟩
    rintro source ⟨count, same, _⟩
    exact absurd ⟨count, same⟩ counted

/-- Reading bytes that come gives them, with an offset too. -/
theorem read_moved {source : Offset σ extra} {front rest : Bytes} {taken : Nat}
    (moved : Moved Lawful.Settled source (front ++ rest) taken) :
    ∃ after : Offset σ extra, Source.read front.length source = .ok ⟨front.toArray, rfl⟩ after ∧
      Moved Lawful.Settled after rest (taken + front.length) :=
  settled_moved Lawful.answers_read moved

end Requests

/-- A source with an offset follows the laws of a source. -/
instance [Lawful σ] : Lawful (Offset σ extra) where
  Settled := Moved Lawful.Settled
  Facing := Moved Lawful.Facing
  facing := by
    rintro source rest taken ⟨count, same, settled⟩
    exact ⟨count, same, Lawful.facing settled⟩
  position_eq := by
    rintro source rest _ ⟨count, rfl, faces⟩
    exact congrArg (· + extra) (Lawful.position_eq faces)
  remaining_eq := by
    rintro source rest taken left ⟨count, rfl, settled⟩ known
    exact Lawful.remaining_eq settled known
  known_iff source other := @Lawful.known_iff σ _ _ source other
  pending_eq := by
    rintro source rest _ ⟨count, rfl, faces⟩
    exact @Lawful.pending_eq σ _ _ source rest count faces
  peek_facing := by
    rintro source rest _ ⟨count, rfl, faces⟩
    obtain ⟨after, shown, faces⟩ := Lawful.peek_facing faces
    exact ⟨after, shown, count, rfl, faces⟩
  skip_facing := by
    rintro source byte rest _ ⟨count, rfl, faces⟩
    obtain ⟨after, skipped, settled⟩ := Lawful.skip_facing faces
    exact ⟨after, skipped, count + 1, Nat.add_right_comm .., settled⟩
  read_settled := @read_moved σ _ extra _
  take_settled := settled_moved Lawful.answers_take
  skip_settled := settled_moved Lawful.answers_skip
  read_short := short_moved Lawful.answers_read
  take_short := short_moved Lawful.answers_take
  skip_short := short_moved Lawful.answers_skip

end Offset

namespace Coupling

variable {σ : Type} [Source σ] [Source.Lawful σ]

/-- Two sources of one kind with the same bytes to come and the same position, which each of them
has by an offset. No failure is excused, and nothing is said of states behind a failure. -/
def level (extra extra' : Nat) : Coupling (Offset σ extra) (Offset σ extra') :=
  ofBytes (fun _ _ => True) (fun _ _ => True) fun _ => False

/-- Two sources of one kind with the same bytes answer requests alike, wherever their positions
count from. The check of a declared length does not ask for the position, and what both sources
say is left is the number of bytes to come, or nothing on either side. -/
theorem sound_level (extra extra' : Nat) :
    (level extra extra' : Coupling (Offset σ extra) (Offset σ extra')).Sound := by
  apply sound_ofBytes (fun _ _ _ _ => trivial) (fun _ _ _ => trivial)
    (failAlike_of_answers Source.Lawful.answers_read Source.Lawful.answers_read)
    (failAlike_of_answers Source.Lawful.answers_take Source.Lawful.answers_take)
    (failAlike_of_answers Source.Lawful.answers_skip Source.Lawful.answers_skip)
  rintro declared source target ⟨rest, taken, held, settled, settled'⟩
  have both : (Source.remaining source).isSome = (Source.remaining target).isSome :=
    @Source.Lawful.known_iff σ _ _ source target
  have same : Source.remaining source = Source.remaining target := by
    cases known : Source.remaining source with
    | none =>
      rw [known, Option.isSome_none] at both
      exact (Option.isSome_eq_false_iff.mp both.symm |> Option.isNone_iff_eq_none.mp).symm
    | some left =>
      rw [known, Option.isSome_some] at both
      obtain ⟨left', known'⟩ := Option.isSome_iff_exists.mp both.symm
      rw [known', Source.Lawful.remaining_eq settled known,
        Source.Lawful.remaining_eq settled' known']
  rw [Decoder.ensureAvailable_eq, Decoder.ensureAvailable_eq, same]
  cases Source.remaining target with
  | none => exact ⟨target, rfl, rest, taken, held, settled, settled'⟩
  | some left =>
    simp only
    split
    · exact .inr ⟨target, rfl, trivial⟩
    · exact ⟨target, rfl, rest, taken, held, settled, settled'⟩

end Coupling

end Amqp
