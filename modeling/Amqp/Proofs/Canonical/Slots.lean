import Amqp.Proofs.Canonical.Conditions

/-!
# Slots that are of their fields

A composite is written without the unset fields at its end. Reading what is written fills
them in again, so a described value is found again from its descriptor and its raw body.
A slot of a list of symbols is written as an array of symbols, and is one.
-/

namespace Amqp

section Fields

variable {field : Field} {fields : List Field} {value slot : Value} {values slots : List Value}

/-- A field makes null of null, and of other values what its type makes of them. -/
theorem Field.cases_of_read (read : field.read value = .ok slot) :
    value = .null ∧ slot = .null ∨ value ≠ .null ∧ field.type.read value = .ok slot := by
  by_cases unset : value = .null
  · subst unset
    cases read
    exact .inl ⟨rfl, rfl⟩
  · rw [read_of_ne_null unset] at read
    exact .inr ⟨unset, mapError_eq_ok_iff.mp read⟩

/-- Slots that are of their fields are so one by one. -/
theorem Field.readAll_cons
    (typed : Field.readAll (field :: fields) (slot :: slots) = .ok (slot :: slots)) :
    field.read slot = .ok slot ∧ Field.readAll fields slots = .ok slots := by
  obtain ⟨slot', later, same, shown, others⟩ := Field.readAll_cons_eq_ok_iff.mp typed
  cases same
  exact ⟨shown, others⟩

/-- Slots that are of their fields one by one are so together. -/
theorem Field.readAll_of_cons (first : field.read value = .ok slot)
    (later : Field.readAll fields values = .ok slots) :
    Field.readAll (field :: fields) (value :: values) = .ok (slot :: slots) :=
  Field.readAll_cons_eq_ok_iff.mpr ⟨slot, slots, rfl, first, later⟩

end Fields

/-- Without values every field is unset. -/
theorem Field.readAll_nil (fields : List Field) :
    Field.readAll fields [] = .ok (List.replicate fields.length .null) := by
  induction fields with
  | nil => rfl
  | cons field fields inductionHypothesis =>
    exact Field.readAll_cons_eq_ok_iff.mpr ⟨.null, _, rfl, rfl, inductionHypothesis⟩

/-- Slots of which none is set are null. The number of set slots is counted from the end, so that
it is zero says something of every slot. -/
theorem eq_replicate_of_setSlots {slots : List Value} (none : setSlots slots = 0) :
    slots = List.replicate slots.length .null := by
  induction slots with
  | nil => rfl
  | cons slot slots inductionHypothesis =>
    have unset : setSlots slots = 0 ∧ slot.isNull = true := by
      unfold setSlots at none ⊢
      rw [List.map_cons, trailingCount] at none
      split at none
      · next rest => cases null : slot.isNull <;> simp_all
      · cases none
    rw [List.length_cons, List.replicate_succ, ← inductionHypothesis unset.1,
      Value.isNull_iff.mp unset.2]

/-- The number of set slots behind the first one, if any is set at all. -/
theorem setSlots_cons {slot : Value} {slots : List Value} {count : Nat}
    (some : setSlots (slot :: slots) = count + 1) : setSlots slots = count := by
  unfold setSlots at some ⊢
  rw [List.map_cons, trailingCount] at some
  split at some
  · next rest =>
    rw [rest]
    split at some <;> omega
  · next rest => omega

/-- A slot that is not among those up to the last set one is null. So what is cut off can be
filled in again. -/
theorem mem_take_or_eq_null {slots : List Value} {slot : Value} (member : slot ∈ slots) :
    slot ∈ slots.take (setSlots slots) ∨ slot = .null := by
  induction slots with
  | nil => cases member
  | cons first slots inductionHypothesis =>
    cases count : setSlots (first :: slots) with
    | zero =>
      rw [eq_replicate_of_setSlots count] at member
      exact .inr (List.eq_of_mem_replicate member)
    | succ count' =>
      rw [List.take_succ_cons, ← setSlots_cons count]
      rcases List.mem_cons.mp member with rfl | later
      · exact .inl List.mem_cons_self
      · exact (inductionHypothesis later).imp_left (List.mem_cons_of_mem first)

/-- Slots that are written up to the last set one are read back in full. Behind the last value
every field is unset, as the slots there were. -/
theorem Field.readAll_take {fields : List Field} {slots : List Value}
    (typed : Field.readAll fields slots = .ok slots) :
    Field.readAll fields (slots.take (setSlots slots)) = .ok slots := by
  induction fields generalizing slots with
  | nil => cases typed; rfl
  | cons field fields inductionHypothesis =>
    cases count : setSlots slots with
    | zero =>
      rw [List.take_zero, Field.readAll_nil, ← Field.length_readAll typed,
        ← eq_replicate_of_setSlots count]
    | succ count' =>
      cases slots with
      | nil => cases count
      | cons slot slots =>
        obtain ⟨first, later⟩ := Field.readAll_cons typed
        rw [List.take_succ_cons]
        refine Field.readAll_of_cons first ?_
        rw [← setSlots_cons count]
        exact inductionHypothesis later

/-- A described value is found again from its descriptor and its raw body. The unset slots at the
end, which the raw body lacks, are filled in. -/
theorem Registry.resolve_rawBody {described : Described}
    (typed : (Value.described described).Typed) (foreign : (Value.described described).Foreign) :
    Registry.standard.resolve described.descriptor described.rawBody = .ok described := by
  refine Registry.resolve_eq_ok_iff.mpr ?_
  cases described with
  | composite form slots =>
    exact .inr (.inl ⟨form, _, slots, Registry.find?_code (.composite form), rfl,
      Field.readAll_take typed, rfl⟩)
  | content part body =>
    exact .inr (.inr ⟨part, body, Registry.find?_code (.content part), typed, rfl⟩)
  | unknown descriptor body => exact .inl ⟨foreign, rfl⟩

/-- The symbols of an array of symbols are its elements. -/
theorem Value.map_symbol_symbolNames {items : List Value}
    (all : ∀ item ∈ items, item.kind = .symbol) : (symbolNames items).map symbol = items := by
  induction items with
  | nil => rfl
  | cons item items inductionHypothesis =>
    have later := inductionHypothesis fun other member => all other (List.mem_cons_of_mem _ member)
    have first := all item List.mem_cons_self
    cases item with
    | symbol name =>
      rw [symbolNames] at later ⊢
      simpa using later
    | _ => cases first

/-- A slot that is written as a list of symbols is an array of these symbols. That its field has
read it excludes arrays with other items, of which the symbols would be only a part. -/
theorem eq_array_of_slotSymbols {field : Field} {slot : Value} {names : List String}
    (typed : field.read slot = .ok slot)
    (symbols : Encoder.slotSymbols? field.type slot = some names) :
    slot = .array (names.map .symbol) := by
  obtain ⟨name, type⟩ := field
  unfold Encoder.slotSymbols? at symbols
  split at symbols
  · next items listed =>
    simp only at listed
    subst listed
    cases symbols
    have all : ∀ item ∈ items, item.kind = .symbol := by
      have read : Ty.symbols.read (.array items) = .ok (.array items) := mapError_eq_ok_iff.mp typed
      obtain ⟨_, ⟨⟩, _⟩ | ⟨_, ⟨⟩, each, _⟩ := Ty.read_symbols_eq_ok_iff.mp read
      exact each
    rw [Value.map_symbol_symbolNames all]
  · cases symbols

namespace Canonical

variable {text : String → Bytes}

/-- What is checked of a described value is checked of its raw body, which for a composite is the
list of its slots up to the last one that is set. -/
theorem checked_rawBody {described : Described}
    (checked : (Value.described described).Everywhere (Checked text)) :
    described.rawBody.Everywhere (Checked text) := by
  refine everywhere_rawBody checked ?_
  cases described with
  | composite form slots =>
    have fits := checked.here.fits
    rw [Fits, firstEncodings_eq] at fits
    exact ⟨fits, trivial, trivial⟩
  | content portion body => exact (checked.contents List.mem_cons_self).here
  | unknown descriptor body => exact (checked.contents List.mem_cons_self).here

/-- What is checked of a raw body and of a descriptor is checked of the described value. The
slots that the raw body leaves out are null, of which nothing is checked. -/
theorem checked_of_rawBody {described : Described}
    (checked : described.rawBody.Everywhere (Checked text))
    (labelled : LabelFits described.descriptor) :
    (Value.described described).Everywhere (Checked text) := by
  cases described with
  | composite form slots =>
    refine .of_described ⟨?_, trivial, trivial⟩ fun slot member => ?_
    · have fits := checked.here.fits
      rwa [Described.rawBody, Fits, ← firstEncodings_eq] at fits
    · rcases mem_take_or_eq_null member with set | rfl
      · exact checked.item set
      · exact .of_simple rfl ⟨trivial, trivial, trivial⟩
  | content portion body => exact .of_content ⟨trivial, trivial, trivial⟩ checked
  | unknown descriptor body =>
    refine .of_unknown ⟨?_, trivial, trivial⟩ checked
    cases descriptor with
    | code number => trivial
    | symbol name => exact labelled name rfl

/-- The slots of a composite have as many bytes as the same values elsewhere. Where a slot is
written as a list of symbols, only the constructor that it names may be another one. -/
theorem length_slotEncodings {fields : List Field} {slots : List Value}
    (typed : Field.readAll fields slots = .ok slots) (count : Nat) :
    (slotEncodings text fields count slots).length =
      (firstEncodings text count slots).length := by
  induction slots generalizing fields count with
  | nil => rfl
  | cons slot slots inductionHypothesis =>
    cases count with
    | zero => rfl
    | succ count =>
      cases fields with
      | nil => cases typed
      | cons field fields =>
        obtain ⟨first, later⟩ := Field.readAll_cons typed
        rw [slotEncodings, firstEncodings, List.length_append, List.length_append,
          List.tail_cons, inductionHypothesis later count]
        simp only [List.head?_cons, Option.bind_some]
        split
        · next names symbols =>
          rw [@length_symbolArray text, ← eq_array_of_slotSymbols first symbols]
        · rfl

end Canonical

end Amqp
