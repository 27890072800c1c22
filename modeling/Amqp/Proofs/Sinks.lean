import Amqp.Sink.Writable

/-!
# Sinks behave alike

What a sink does to its bytes is determined by laws that do not mention how it opens a gap. Written
bytes are added at the end. A patch replaces as many bytes as it brings and touches no others, and a
gap of zeros moves what stands behind it, whatever is longer. Both are refused exactly where they
reach beyond what is written. Cutting back keeps the front.

Two things that follow the laws and hold the same bytes do the same under one operation, and so
under any number of them: they show the same bytes after each one, until both refuse the same one.
-/

namespace Amqp

/-- An operation that writes. -/
inductive Write where
  | put (bytes : Bytes)
  | patch (offset : Nat) (bytes : Bytes)
  | widen (offset length : Nat)
  | truncate (length : Nat)
  deriving DecidableEq

/-- Carry out an operation, unless it is refused. -/
def Write.apply {σ : Type} [Writable σ] (sink : σ) : Write → Option σ
  | put bytes => some (Writable.put sink bytes)
  | patch offset bytes => Writable.patch? sink offset bytes
  | widen offset length => Writable.widen? sink offset length
  | truncate length => some (Writable.truncate sink length)

/-- The bytes written and their number after each of some operations. The last entry says if one of
them is refused, and then nothing is done any more. -/
def trace {σ : Type} [Writable σ] : List Write → σ → List (Option (Bytes × Nat))
  | [], _ => []
  | write :: later, sink =>
    match write.apply sink with
    | some after => some (Writable.content after, Writable.written after) :: trace later after
    | none => [none]

namespace Writable

/-- What the operations do to the bytes written. -/
structure Laws (σ : Type) [Writable σ] : Prop where
  written_eq (sink : σ) : written sink = (content sink).length
  content_put (sink : σ) (bytes : Bytes) : content (put sink bytes) = content sink ++ bytes
  patch {sink : σ} {before middle after bytes : Bytes} :
    content sink = before ++ middle ++ after → middle.length = bytes.length →
      ∃ patched, patch? sink before.length bytes = some patched ∧
        content patched = before ++ bytes ++ after
  patch_eq_none_iff (sink : σ) (offset : Nat) (bytes : Bytes) :
    patch? sink offset bytes = none ↔ written sink < offset + bytes.length
  widen {sink : σ} {before after : Bytes} : content sink = before ++ after → ∀ length,
    ∃ wider, widen? sink before.length length = some wider ∧
      content wider = before ++ List.replicate length 0 ++ after
  widen_eq_none_iff (sink : σ) (offset length : Nat) :
    widen? sink offset length = none ↔ written sink < offset
  content_truncate (sink : σ) (length : Nat) :
    content (truncate sink length) = (content sink).take length
  truncate_of_le {sink : σ} {length : Nat} : written sink ≤ length → truncate sink length = sink

/-- A sink follows the laws, in whichever way it opens a gap. The laws speak of the bytes in
front of a place and behind it, so what is to be shown is what each step on stored bytes does to
such a split, and that it is refused exactly where there is none. -/
theorem laws_sink : Laws Sink where
  written_eq := Sink.written_eq_length
  content_put := Sink.toBytes_put
  patch split same := by
    obtain ⟨content, ran, result⟩ := Sink.patch?_of_split split same
    exact ⟨_, ran, result⟩
  patch_eq_none_iff sink offset bytes := by
    change sink.patch? offset bytes = none ↔ sink.written < offset + bytes.length
    rw [Sink.patch?_eq]
    simp [Sink.covers]
  widen split length := by
    obtain ⟨content, ran, result⟩ := Sink.widen?_of_split split length
    exact ⟨_, ran, result⟩
  widen_eq_none_iff sink offset length := by
    change sink.widen? offset length = none ↔ sink.written < offset
    rw [Sink.widen?_eq]
    simp [Sink.covers]
  content_truncate := Sink.toBytes_truncate
  truncate_of_le {sink length} within := by
    have whole : sink.content.extract 0 length = sink.content :=
      Array.extract_eq_self_of_le within
    change { sink with content := sink.content.extract 0 length } = sink
    rw [whole]

/-- A loan follows the laws that its owner follows. It only hands requests on, so each law is the
law of the owner. -/
theorem Laws.loan {σ : Type} [Writable σ] (laws : Laws σ) : Laws (Loan σ) where
  written_eq loan := laws.written_eq loan.owner
  content_put loan := laws.content_put loan.owner
  patch {loan before middle after _} split same := by
    have held : content loan.owner = before ++ middle ++ after := split
    obtain ⟨patched, ran, result⟩ := laws.patch held same
    exact ⟨⟨patched⟩, congrArg (Option.map Loan.mk) ran, result⟩
  patch_eq_none_iff loan offset bytes :=
    Option.map_eq_none_iff.trans (laws.patch_eq_none_iff loan.owner offset bytes)
  widen {loan before after} split length := by
    have held : content loan.owner = before ++ after := split
    obtain ⟨wider, ran, result⟩ := laws.widen held length
    exact ⟨⟨wider⟩, congrArg (Option.map Loan.mk) ran, result⟩
  widen_eq_none_iff loan offset length :=
    Option.map_eq_none_iff.trans (laws.widen_eq_none_iff loan.owner offset length)
  content_truncate loan := laws.content_truncate loan.owner
  truncate_of_le within := congrArg Loan.mk (laws.truncate_of_le within)

section Alike

variable {σ τ : Type} [Writable σ] [Writable τ] {sink : σ} {other : τ}

/-- One operation does the same to the same bytes. If it reaches beyond what is written, both
refuse it, and otherwise the bytes split at the places that it names, where the laws leave only
one result. -/
theorem apply_alike (laws : Laws σ) (laws' : Laws τ) (same : content sink = content other)
    (write : Write) : (write.apply sink).map content = (write.apply other).map content := by
  have counted : written sink = written other := by
    rw [laws.written_eq, laws'.written_eq, same]
  cases write with
  | put bytes => simp [Write.apply, laws.content_put, laws'.content_put, same]
  | truncate length => simp [Write.apply, laws.content_truncate, laws'.content_truncate, same]
  | patch offset bytes =>
    by_cases beyond : written sink < offset + bytes.length
    · have refused := (laws.patch_eq_none_iff sink offset bytes).mpr beyond
      have refused' := (laws'.patch_eq_none_iff other offset bytes).mpr (counted ▸ beyond)
      simp only [Write.apply, refused, refused', Option.map_none]
    · rw [laws.written_eq] at beyond
      obtain ⟨front, after, split, whole⟩ := Bytes.exists_append_of_le (Nat.le_of_not_lt beyond)
      have inside : offset ≤ front.length := by omega
      obtain ⟨before, middle, rfl, rfl⟩ := Bytes.exists_append_of_le inside
      rw [List.length_append] at whole
      have covered : middle.length = bytes.length := Nat.add_left_cancel whole
      obtain ⟨patched, ran, result⟩ := laws.patch split covered
      obtain ⟨patched', ran', result'⟩ := laws'.patch (same.symm.trans split) covered
      simp only [Write.apply, ran, ran', Option.map_some, result, result']
  | widen offset length =>
    by_cases beyond : written sink < offset
    · have refused := (laws.widen_eq_none_iff sink offset length).mpr beyond
      have refused' := (laws'.widen_eq_none_iff other offset length).mpr (counted ▸ beyond)
      simp only [Write.apply, refused, refused', Option.map_none]
    · rw [laws.written_eq] at beyond
      obtain ⟨before, after, split, rfl⟩ := Bytes.exists_append_of_le (Nat.le_of_not_lt beyond)
      obtain ⟨wider, ran, result⟩ := laws.widen split length
      obtain ⟨wider', ran', result'⟩ := laws'.widen (same.symm.trans split) length
      simp only [Write.apply, ran, ran', Option.map_some, result, result']

/-- Any number of operations do the same to the same bytes, and the same one is refused. The
invariant of the induction is that the bytes are the same, not that the sinks are, so it does not
matter what else they are made of. -/
theorem trace_alike (laws : Laws σ) (laws' : Laws τ) (same : content sink = content other)
    (writes : List Write) : trace writes sink = trace writes other := by
  induction writes generalizing sink other with
  | nil => rfl
  | cons write later inductionHypothesis =>
    have alike := apply_alike laws laws' same write
    cases ran : write.apply sink with
    | none =>
      rw [ran, Option.map_none, eq_comm, Option.map_eq_none_iff] at alike
      simp only [trace, ran, alike]
    | some after =>
      rw [ran, Option.map_some, eq_comm, Option.map_eq_some_iff] at alike
      obtain ⟨after', ran', same⟩ := alike
      have counted : written after = written after' := by
        rw [laws.written_eq, laws'.written_eq, same]
      simp only [trace, ran, ran', same, counted, inductionHypothesis same.symm]

end Alike

end Writable

/-- Sinks with the same bytes, and loans of them, show the same bytes and the same number of them
after each of any operations, whichever way they open gaps, and refuse the same operation. What
the operations do is what the laws say.

Proof: The laws determine what one operation does to the bytes, and when it is refused, without
mention of how a gap is opened. So two lawful sinks with the same bytes have the same bytes after
each operation, and a loan is lawful because its owner is. -/
theorem sinks_alike :
    (∀ (growth other : Growth) (content : Bytes) (writes : List Write),
      trace writes ((Sink.empty growth).put content) =
        trace writes ((Sink.empty other).put content) ∧
      trace writes (Loan.mk ((Sink.empty growth).put content)) =
        trace writes ((Sink.empty other).put content)) ∧
    Writable.Laws Sink ∧ Writable.Laws (Loan Sink) := by
  have laws := Writable.laws_sink
  refine ⟨fun growth other content writes => ?_, laws, laws.loan⟩
  have same : ((Sink.empty growth).put content).toBytes =
      ((Sink.empty other).put content).toBytes := by
    simp [Sink.put, Sink.empty, Sink.toBytes]
  have lent : Writable.content (Loan.mk ((Sink.empty growth).put content)) =
      Writable.content ((Sink.empty other).put content) := same
  exact ⟨Writable.trace_alike laws laws same writes,
    Writable.trace_alike laws.loan laws lent writes⟩

/-- A gap narrower than the tail, a wider one, one at the end, and a patch that reaches beyond the
end. -/
example : trace [.widen 1 1, .widen 0 5, .widen 9 2, .patch 10 [7, 7]]
    ((Sink.empty .shift).put [1, 2, 3]) =
      [some ([1, 0, 2, 3], 4), some ([0, 0, 0, 0, 0, 1, 0, 2, 3], 9),
        some ([0, 0, 0, 0, 0, 1, 0, 2, 3, 0, 0], 11), none] := rfl

end Amqp
