import Amqp.Proofs.Canonical.Slots
import Amqp.Proofs.Datum.Reading

/-!
# Fields by position

The values of a list are read as fields one after the other, which comes to a rule for each
index: the slot at an index is made of the value at this index, or of null if the list is too
short. Values behind the last field are not looked at. If some values are refused, then the one
at the lowest index decides the error, and it is named by its own field only.

Of the slots of a composite only those up to the last set one are written. They are the same
slots at the same indexes, so unset slots in between are kept as nulls.
-/

namespace Amqp

variable {field : Field} {fields : List Field} {value slot : Value} {values slots : List Value}
  {error : Error} {index : Nat}

namespace Field

/-- The first of some values, or null, is what stands at their first index. -/
theorem headD_eq_getD (values : List Value) : values.headD .null = values[0]?.getD .null := by
  cases values <;> rfl

/-- Values are read as fields if each is read as the field at its index, and missing ones are
read as null. -/
theorem readAll_eq_ok_iff : readAll fields values = .ok slots ↔
    slots.length = fields.length ∧ ∀ (index : Nat) (field : Field) (slot : Value),
      fields[index]? = some field → slots[index]? = some slot →
        field.read (values[index]?.getD .null) = .ok slot := by
  induction fields generalizing values slots with
  | nil =>
    constructor
    · intro read
      cases read
      exact ⟨rfl, nofun⟩
    · rintro ⟨none, _⟩
      obtain rfl := List.eq_nil_of_length_eq_zero none
      rfl
  | cons first fields inductionHypothesis =>
    rw [readAll_cons_eq_ok_iff, headD_eq_getD]
    constructor
    · rintro ⟨slot, later, rfl, made, others⟩
      obtain ⟨long, each⟩ := inductionHypothesis.mp others
      refine ⟨congrArg Nat.succ long, fun index field slot there shown => ?_⟩
      cases index with
      | zero => cases there; cases shown; exact made
      | succ index =>
        rw [← List.getElem?_tail]
        exact each index field slot there shown
    · rintro ⟨long, each⟩
      obtain ⟨slot, later, rfl⟩ := List.exists_cons_of_length_eq_add_one long
      refine ⟨slot, later, rfl, each 0 first slot rfl rfl, ?_⟩
      refine inductionHypothesis.mpr ⟨Nat.succ.inj long, fun index field slot there shown => ?_⟩
      rw [List.getElem?_tail]
      exact each (index + 1) field slot there shown

/-- Values are refused as fields if one of them is refused as the field at its index, and none
before it is. The error is that of this field, and what comes behind it may be of any type. -/
theorem readAll_eq_error_iff : readAll fields values = .error error ↔
    ∃ (index : Nat) (field : Field), fields[index]? = some field ∧
      field.read (values[index]?.getD .null) = .error error ∧
        ∀ earlier < index, ∀ field : Field, fields[earlier]? = some field →
          ∃ slot, field.read (values[earlier]?.getD .null) = .ok slot := by
  induction fields generalizing values with
  | nil => exact ⟨nofun, fun ⟨_, _, there, _⟩ => nomatch there⟩
  | cons first fields inductionHypothesis =>
    rw [readAll_cons_eq_error_iff, headD_eq_getD]
    constructor
    · rintro (refused | ⟨made, others⟩)
      · exact ⟨0, first, rfl, refused, nofun⟩
      · obtain ⟨index, field, there, refused, before⟩ := inductionHypothesis.mp others
        rw [List.getElem?_tail] at refused
        refine ⟨index + 1, field, there, refused, fun earlier lower field there => ?_⟩
        cases earlier with
        | zero => cases there; exact made
        | succ earlier =>
          have shown := before earlier (Nat.lt_of_succ_lt_succ lower) field there
          rwa [List.getElem?_tail] at shown
    · rintro ⟨index, field, there, refused, before⟩
      cases index with
      | zero => cases there; exact .inl refused
      | succ index =>
        refine .inr ⟨before 0 (Nat.succ_pos index) first rfl, ?_⟩
        refine inductionHypothesis.mpr ⟨index, field, there, ?_, fun earlier lower => ?_⟩
        · rwa [List.getElem?_tail]
        · rw [List.getElem?_tail]
          exact before (earlier + 1) (Nat.succ_lt_succ lower)

/-- What is made of values depends on those at the indexes of the fields only, and there a
missing value is as good as null. So nulls at the end may be left away, and anything may follow.
-/
theorem readAll_congr {others : List Value} (same : ∀ index < fields.length,
    values[index]?.getD .null = others[index]?.getD .null) :
    readAll fields values = readAll fields others := by
  induction fields generalizing values others with
  | nil => rfl
  | cons field fields inductionHypothesis =>
    have later : readAll fields values.tail = readAll fields others.tail := by
      refine inductionHypothesis fun index inside => ?_
      rw [List.getElem?_tail, List.getElem?_tail]
      exact same (index + 1) (Nat.succ_lt_succ inside)
    rw [readAll_cons_eq, readAll_cons_eq, headD_eq_getD, headD_eq_getD, same 0 (Nat.succ_pos _),
      later]

end Field

section Trimming

/-- Slots behind the last set one are null. So nothing is lost if they are not written. -/
theorem eq_null_of_setSlots_le (behind : setSlots slots ≤ index)
    (there : slots[index]? = some slot) : slot = .null := by
  induction slots generalizing index with
  | nil => cases there
  | cons first slots inductionHypothesis =>
    cases count : setSlots (first :: slots) with
    | zero =>
      rw [eq_replicate_of_setSlots count] at there
      exact List.eq_of_mem_replicate (List.mem_of_getElem? there)
    | succ count' =>
      rw [count] at behind
      cases index with
      | zero => cases behind
      | succ index =>
        rw [← setSlots_cons count] at behind
        exact inductionHypothesis (Nat.le_of_succ_le_succ behind) there

/-- The last slot that is written is set. No shorter list of slots would have all that are set.
-/
theorem exists_set_of_setSlots (count : setSlots slots = index + 1) :
    ∃ slot, slots[index]? = some slot ∧ slot ≠ .null := by
  induction slots generalizing index with
  | nil => cases count
  | cons first slots inductionHypothesis =>
    have behind := setSlots_cons count
    cases index with
    | zero =>
      refine ⟨first, rfl, ?_⟩
      rintro rfl
      unfold setSlots at count behind
      rw [List.map_cons, trailingCount, behind] at count
      cases count
    | succ index => exact inductionHypothesis behind

end Trimming

end Amqp
