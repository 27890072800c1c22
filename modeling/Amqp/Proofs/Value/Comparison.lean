import Amqp.Proofs.Value.Positions
import Amqp.Text.Utf8.RoundTrip
import Amqp.Value.Equality
import Mathlib.Data.List.Perm.Subperm

/-!
# What equality and order are good for

Equality by meaning is symmetric and transitive, and a value equals itself exactly if no NaN is
anywhere in it. All three are asked of values whose slots are of their types: a typed map with a
repeated key would be looked up in one direction and passed over in the other.

Values are taken apart in step, one way of containing values after the other. Everywhere but in a
typed map the contents are compared at equal indices. In a typed map each key of the one side is
looked up in the other. Two such maps have as many keys, all of them distinct, so that keys which
are all found there are all the keys there are, and the looking up may be turned around.

Names, byte strings, identifiers and times are ordered in full: two of one kind are always before,
the same or behind, and they are the same only if they are one value.
-/

namespace Amqp.Value

section Numbers

variable {α : Type} [DecidableEq α] {number zero : α → Bool} {left middle right bits : α}

/-- Equality of floating point numbers, given which bits are numbers and which of them are
zeros. -/
def numbersEqual (number zero : α → Bool) (left right : α) : Bool :=
  number left && number right && (left = right || zero left && zero right)

/-- Floating point numbers are equal if both are numbers, and are the same or both zero. -/
theorem numbersEqual_iff : numbersEqual number zero left right = true ↔
    number left = true ∧ number right = true ∧
      (left = right ∨ zero left = true ∧ zero right = true) := by
  simp [numbersEqual, and_assoc]

/-- Equality of floating point numbers goes both ways. -/
theorem numbersEqual_symm (same : numbersEqual number zero left right = true) :
    numbersEqual number zero right left = true := by
  obtain ⟨first, second, same⟩ := numbersEqual_iff.mp same
  exact numbersEqual_iff.mpr ⟨second, first, same.imp Eq.symm And.symm⟩

/-- Equality of floating point numbers goes on. -/
theorem numbersEqual_trans (same : numbersEqual number zero left middle = true)
    (further : numbersEqual number zero middle right = true) :
    numbersEqual number zero left right = true := by
  obtain ⟨first, _, same⟩ := numbersEqual_iff.mp same
  obtain ⟨_, last, further⟩ := numbersEqual_iff.mp further
  refine numbersEqual_iff.mpr ⟨first, last, ?_⟩
  rcases same with rfl | ⟨here, there⟩
  · exact further
  · rcases further with rfl | ⟨_, beyond⟩
    · exact .inr ⟨here, there⟩
    · exact .inr ⟨here, beyond⟩

/-- Bits equal themselves exactly if they are a number. -/
theorem numbersEqual_self : numbersEqual number zero bits bits = number bits := by
  simp [numbersEqual]

end Numbers

/-- Two byte patterns are zero under a mask together if each of them is. The standard compares
zeros in this way, with the sign masked out. -/
theorem masked_or_eq_zero_iff {width : Nat} {left right mask : BitVec width} :
    (left ||| right) &&& mask = 0 ↔ left &&& mask = 0 ∧ right &&& mask = 0 := by
  rw [BitVec.and_or_distrib_right]
  exact BitVec.or_eq_zero_iff

/-- Equality of 32-bit numbers disregards the sign of a zero. -/
theorem floatEqual_eq :
    floatEqual = numbersEqual isNumber32 fun bits => bits &&& 0x7fffffff = 0 := by
  funext left right
  have zeros : (left ||| right) &&& 0x7fffffff = 0 ↔
      left &&& 0x7fffffff = 0 ∧ right &&& 0x7fffffff = 0 := by
    simp only [← UInt32.toBitVec_inj]
    exact masked_or_eq_zero_iff
  simp only [floatEqual, numbersEqual, zeros, Bool.decide_and]

/-- Equality of 64-bit numbers disregards the sign of a zero. -/
theorem doubleEqual_eq :
    doubleEqual = numbersEqual isNumber64 fun bits => bits &&& 0x7fffffffffffffff = 0 := by
  funext left right
  have zeros : (left ||| right) &&& 0x7fffffffffffffff = 0 ↔
      left &&& 0x7fffffffffffffff = 0 ∧ right &&& 0x7fffffffffffffff = 0 := by
    simp only [← UInt64.toBitVec_inj]
    exact masked_or_eq_zero_iff
  simp only [doubleEqual, numbersEqual, zeros, Bool.decide_and]

section Twins

/-- When values that contain no values are equal: floating point numbers by their standard, and
all others if they are the same. -/
inductive Twin : Value → Value → Prop
  | same {value : Value} (simple : value.isSimple = true) (notFloat : value.kind ≠ .float)
      (notDouble : value.kind ≠ .double) : Twin value value
  | float {left right : UInt32} (same : floatEqual left right = true) :
      Twin (float left) (float right)
  | double {left right : UInt64} (same : doubleEqual left right = true) :
      Twin (double left) (double right)

variable {typed : Bool} {left middle right : Value}

/-- A value that contains no values is equal to its twins, and to nothing else. Whether it stands
in place of a typed map does not matter for it. -/
theorem equal_iff_twin (simple : left.isSimple = true) :
    equal typed left right = true ↔ Twin left right := by
  constructor
  · intro same
    cases left with
    | null => cases right <;> first | exact .same rfl nofun nofun | cases same
    | float => cases right <;> first | exact .float same | cases same
    | double => cases right <;> first | exact .double same | cases same
    | _ =>
      cases simple <;> cases right <;> first
        | (cases of_decide_eq_true same; exact .same rfl nofun nofun)
        | cases same
  · rintro (⟨simple, notFloat, notDouble⟩ | same | same)
    · cases left with
      | null => rfl
      | float => exact absurd rfl notFloat
      | double => exact absurd rfl notDouble
      | list | map | array | described => cases simple
      | _ => exact decide_eq_true rfl
    · exact same
    · exact same

/-- A twin contains no values either. -/
theorem Twin.isSimple (twin : Twin left right) : right.isSimple = true := by
  cases twin with
  | same simple => exact simple
  | float | double => rfl

/-- Twins are twins of each other. -/
theorem Twin.symm (twin : Twin left right) : Twin right left := by
  cases twin with
  | same simple notFloat notDouble => exact .same simple notFloat notDouble
  | float same =>
    rw [floatEqual_eq] at same
    exact .float (floatEqual_eq ▸ numbersEqual_symm same)
  | double same =>
    rw [doubleEqual_eq] at same
    exact .double (doubleEqual_eq ▸ numbersEqual_symm same)

/-- The twin of a twin is a twin. Two zeros are twins whatever their signs, so the bits of the
first and the last need not be the same. -/
theorem Twin.trans (twin : Twin left middle) (further : Twin middle right) : Twin left right := by
  cases twin with
  | same simple notFloat notDouble => exact further
  | float same =>
    cases further with
    | same simple notFloat notDouble => exact .float same
    | float further =>
      rw [floatEqual_eq] at same further
      exact .float (floatEqual_eq ▸ numbersEqual_trans same further)
  | double same =>
    cases further with
    | same simple notFloat notDouble => exact .double same
    | double further =>
      rw [doubleEqual_eq] at same further
      exact .double (doubleEqual_eq ▸ numbersEqual_trans same further)

/-- A value that is no NaN, whatever it contains. -/
def IsNumber : Value → Prop
  | float bits => isNumber32 bits = true
  | double bits => isNumber64 bits = true
  | _ => True

/-- A key of a typed map is no NaN. -/
theorem isNumber_toValue (key : MapKey) : key.toValue.IsNumber := by
  cases key <;> trivial

/-- A 32-bit number equals itself, and a NaN does not. -/
theorem floatEqual_self (bits : UInt32) : floatEqual bits bits = isNumber32 bits :=
  floatEqual_eq ▸ numbersEqual_self

/-- A 64-bit number equals itself, and a NaN does not. -/
theorem doubleEqual_self (bits : UInt64) : doubleEqual bits bits = isNumber64 bits :=
  doubleEqual_eq ▸ numbersEqual_self

/-- A value that contains no values is its own twin exactly if it is no NaN. Only floating point
numbers can fail to be. -/
theorem twin_self_iff (simple : left.isSimple = true) : Twin left left ↔ left.IsNumber := by
  constructor
  · rintro (⟨_, notFloat, notDouble⟩ | same | same)
    · cases left with
      | float => exact absurd rfl notFloat
      | double => exact absurd rfl notDouble
      | _ => trivial
    · exact (floatEqual_self _).symm.trans same
    · exact (doubleEqual_self _).symm.trans same
  · intro number
    cases left with
    | float bits => exact .float ((floatEqual_self bits).trans number)
    | double bits => exact .double ((doubleEqual_self bits).trans number)
    | list | map | array | described => cases simple
    | _ => exact .same rfl nofun nofun

end Twins

section Rows

variable {marks : List Bool} {lefts rights : List Value}

/-- Slots are equal if there are as many of them, and those at equal indices are equal. Whether a
slot is compared as a typed map is for its field to say, and behind the last field none is. -/
theorem slotsEqual_iff : slotsEqual marks lefts rights = true ↔
    lefts.length = rights.length ∧ ∀ (index : Nat) (left right : Value),
      lefts[index]? = some left → rights[index]? = some right →
        equal (marks[index]?.getD false) left right = true := by
  induction lefts generalizing marks rights with
  | nil =>
    cases rights with
    | nil => exact ⟨fun _ => ⟨rfl, nofun⟩, fun _ => rfl⟩
    | cons right rights => exact ⟨nofun, nofun⟩
  | cons first lefts inductionHypothesis =>
    cases rights with
    | nil => exact ⟨nofun, nofun⟩
    | cons second rights =>
      have mark : marks.headD false = marks[0]?.getD false := by cases marks <;> rfl
      rw [slotsEqual, Bool.and_eq_true, inductionHypothesis, mark, List.length_cons,
        List.length_cons, Nat.add_right_cancel_iff]
      constructor
      · rintro ⟨same, long, each⟩
        refine ⟨long, fun index left right here there => ?_⟩
        cases index with
        | zero => cases here; cases there; exact same
        | succ index =>
          rw [← List.getElem?_tail]
          exact each index left right here there
      · rintro ⟨long, each⟩
        refine ⟨each 0 first second rfl rfl, long, fun index left right here there => ?_⟩
        rw [List.getElem?_tail]
        exact each (index + 1) left right here there

/-- Items are compared as slots of which none is a typed map. -/
theorem itemsEqual_eq (lefts rights : List Value) :
    itemsEqual lefts rights = slotsEqual [] lefts rights := by
  induction lefts generalizing rights with
  | nil => cases rights <;> rfl
  | cons left lefts inductionHypothesis =>
    cases rights with
    | nil => rfl
    | cons right rights =>
      rw [itemsEqual, slotsEqual, inductionHypothesis]
      rfl

/-- The pairs of plain maps are compared keys with keys and values with values. Their order
counts, unlike that of a typed map. -/
theorem entriesEqual_iff {lefts rights : Entries} : entriesEqual lefts rights = true ↔
    slotsEqual [] (lefts.map Prod.fst) (rights.map Prod.fst) = true ∧
      slotsEqual [] (lefts.map Prod.snd) (rights.map Prod.snd) = true := by
  induction lefts generalizing rights with
  | nil => cases rights <;> simp [entriesEqual, slotsEqual]
  | cons left lefts inductionHypothesis =>
    cases rights with
    | nil => simp [entriesEqual, slotsEqual]
    | cons right rights =>
      simp only [entriesEqual, List.map_cons, slotsEqual, List.headD_nil, List.tail_nil,
        Bool.and_eq_true, inductionHypothesis]
      exact and_and_and_comm

end Rows

section TypedMaps

variable {lefts middles rights : List (MapKey × Value)}

/-- The entries that a typed map shows. -/
def shownPairs (pairs : List (MapKey × Value)) : Entries :=
  pairs.map fun pair => (pair.1.toValue, pair.2)

/-- A key is looked up in what a typed map shows as it is in the typed map. -/
theorem lookup_shownPairs (key : MapKey) (pairs : List (MapKey × Value)) :
    lookup key.toValue (shownPairs pairs) = TypedMap.get? key pairs := by
  induction pairs with
  | nil => rfl
  | cons pair rest inductionHypothesis =>
    rw [shownPairs, List.map_cons, lookup, TypedMap.get?, MapKey.ofValue?_toValue,
      MapKey.ofValue?_toValue, ← inductionHypothesis]
    simp only [Option.some_inj]
    rfl

/-- When typed maps count as equal: they have as many pairs, and each key of the first has an equal
value in the second. -/
structure Matches (lefts rights : List (MapKey × Value)) : Prop where
  length : lefts.length = rights.length
  found : ∀ pair ∈ lefts, ∃ value, (pair.1, value) ∈ rights ∧ equal false pair.2 value = true

/-- Looking up every key of typed maps is what their equality asks for. A key is looked up among
the shown ones, of which no two are the same, so it is found with its one value. -/
theorem equal_shownPairs_iff (distinct : (rights.map Prod.fst).Nodup) :
    equal true (map (shownPairs lefts)) (map (shownPairs rights)) = true ↔
      Matches lefts rights := by
  have within : entriesWithin (shownPairs lefts) (shownPairs rights) = true ↔
      ∀ pair ∈ lefts, ∃ value, (pair.1, value) ∈ rights ∧ equal false pair.2 value = true := by
    induction lefts with
    | nil => exact ⟨fun _ => nofun, fun _ => rfl⟩
    | cons pair rest inductionHypothesis =>
      rw [List.forall_mem_cons, ← inductionHypothesis, shownPairs, List.map_cons, entriesWithin,
        lookup_shownPairs, Bool.and_eq_true]
      refine and_congr_left fun _ => ?_
      constructor
      · intro same
        split at same
        · next value found => exact ⟨value, TypedMap.mem_of_get? found, same⟩
        · cases same
      · rintro ⟨value, member, same⟩
        rw [TypedMap.get?_of_mem distinct member]
        exact same
  have lengths : (shownPairs lefts).length = (shownPairs rights).length ↔
      lefts.length = rights.length := by simp [shownPairs]
  rw [equal, if_pos rfl, Bool.and_eq_true, decide_eq_true_iff, within, lengths]
  exact ⟨fun ⟨length, found⟩ => ⟨length, found⟩, fun both => ⟨both.length, both.found⟩⟩

/-- Typed maps match in both directions: as many distinct keys that are all found are all the keys
that there are. -/
theorem Matches.symm (both : Matches lefts rights) (distinct : (lefts.map Prod.fst).Nodup)
    (distinct' : (rights.map Prod.fst).Nodup)
    (each : ∀ pair ∈ lefts, ∀ value, (pair.1, value) ∈ rights → equal false pair.2 value = true →
      equal false value pair.2 = true) : Matches rights lefts := by
  refine ⟨both.length.symm, fun pair member => ?_⟩
  have inside : lefts.map Prod.fst ⊆ rights.map Prod.fst := by
    intro key named
    obtain ⟨pair, member, rfl⟩ := List.mem_map.mp named
    obtain ⟨value, found, _⟩ := both.found pair member
    exact List.mem_map.mpr ⟨_, found, rfl⟩
  have all : (lefts.map Prod.fst).Perm (rights.map Prod.fst) :=
    (List.subperm_of_subset distinct inside).perm_of_length_le (by simp [both.length])
  obtain ⟨other, listed, named⟩ := List.mem_map.mp (all.symm.subset (List.mem_map_of_mem member))
  obtain ⟨value, found, same⟩ := both.found other listed
  obtain rfl : value = pair.2 := Option.some.inj ((TypedMap.get?_of_mem distinct'
    (named ▸ found)).symm.trans (TypedMap.get?_of_mem distinct' member))
  exact ⟨other.2, named ▸ listed, each other listed pair.2 found same⟩

/-- Typed maps that match a common one match. -/
theorem Matches.trans (both : Matches lefts middles) (further : Matches middles rights)
    (each : ∀ pair ∈ lefts, ∀ value, (pair.1, value) ∈ middles → equal false pair.2 value = true →
      ∀ beyond, (pair.1, beyond) ∈ rights → equal false value beyond = true →
        equal false pair.2 beyond = true) : Matches lefts rights := by
  refine ⟨both.length.trans further.length, fun pair member => ?_⟩
  obtain ⟨value, found, same⟩ := both.found pair member
  obtain ⟨beyond, later, alike⟩ := further.found _ found
  exact ⟨beyond, later, each pair member value found same beyond later alike⟩

/-- A typed map matches itself if each of its values is equal to itself. -/
theorem matches_self_iff (distinct : (lefts.map Prod.fst).Nodup) :
    Matches lefts lefts ↔ ∀ pair ∈ lefts, equal false pair.2 pair.2 = true := by
  constructor
  · intro both pair member
    obtain ⟨value, found, same⟩ := both.found pair member
    obtain rfl : value = pair.2 := Option.some.inj
      ((TypedMap.get?_of_mem distinct found).symm.trans (TypedMap.get?_of_mem distinct member))
    exact same
  · exact fun each => ⟨rfl, fun pair member => ⟨pair.2, member, each pair member⟩⟩

end TypedMaps

section Conditions

/-- A map without a repeated key, whose keys are those of typed maps. -/
def Keyed : Value → Prop
  | map entries => ∃ pairs : List (MapKey × Value),
      (pairs.map Prod.fst).Nodup ∧ entries = shownPairs pairs
  | _ => True

/-- A value that may be compared: whatever is described in it is of its types, and it is a typed
map itself where one is looked for. -/
structure Comparable (typed : Bool) (value : Value) : Prop where
  throughout : value.Everywhere Typed
  keyed : typed = true → value.Keyed

/-- Slots that may be compared under their marks. -/
def ComparableRow (marks : List Bool) (slots : List Value) : Prop :=
  ∀ (index : Nat) (slot : Value), slots[index]? = some slot →
    Comparable (marks[index]?.getD false) slot

/-- Items may be compared if they are of their types. -/
theorem comparableRow_of_forall {items : List Value}
    (each : ∀ item ∈ items, item.Everywhere Typed) : ComparableRow [] items :=
  fun _ _ there => ⟨each _ (List.mem_of_getElem? there), nofun⟩

/-- What a typed map makes of a value has distinct keys. -/
theorem keyed_of_read {type : Ty} {value : Value} (typedMap : type.isTypedMap = true)
    (read : type.read value = .ok value) : value.Keyed := by
  cases type with
  | typedMap keys values =>
    obtain ⟨entries, pairs, -, -, shown⟩ := Ty.read_typedMap_eq_ok_iff.mp read
    rw [shown]
    exact ⟨TypedMap.ofPairs pairs, TypedMap.nodup_ofPairs pairs, rfl⟩
  | _ => cases typedMap

/-- The slots of a composite may be compared under the marks of its fields. A slot that its field
says is a typed map has been read as one, and so no key is in it twice. -/
theorem comparableRow_slots {form : Composite} {slots : List Value}
    (throughout : (described (.composite form slots)).Everywhere Typed) :
    ComparableRow (form.fields.map fun field => field.type.isTypedMap) slots := by
  intro index slot there
  refine ⟨throughout.contents (List.mem_of_getElem? there), fun marked => ?_⟩
  have read : Field.readAll form.fields slots = .ok slots := throughout.here
  rw [List.getElem?_map] at marked
  cases found : form.fields[index]? with
  | none =>
    rw [found] at marked
    cases marked
  | some field =>
    rw [found] at marked
    have shown := (Field.readAll_eq_ok_iff.mp read).2 index field slot found there
    rw [there] at shown
    rcases Field.cases_of_read shown with ⟨_, rfl⟩ | ⟨_, read⟩
    · trivial
    · exact keyed_of_read marked read

/-- The content of a section may be compared under the mark of the section. -/
theorem comparable_content {part : Section} {body : Value}
    (throughout : (described (.content part body)).Everywhere Typed) :
    Comparable part.type.isTypedMap body :=
  ⟨throughout.contents List.mem_cons_self, fun marked => keyed_of_read marked throughout.here⟩

/-- The body of a described value of no known form may be compared. -/
theorem comparable_body {descriptor : Descriptor} {body : Value}
    (throughout : (described (.unknown descriptor body)).Everywhere Typed) :
    Comparable false body :=
  ⟨throughout.contents List.mem_cons_self, nofun⟩

/-- The entries of a plain map may be compared, keys and values alike. -/
theorem comparableRow_entries {entries : Entries} (throughout : (map entries).Everywhere Typed) :
    ComparableRow [] (entries.map Prod.fst) ∧ ComparableRow [] (entries.map Prod.snd) := by
  constructor
  · refine comparableRow_of_forall fun item member => ?_
    obtain ⟨entry, listed, rfl⟩ := List.mem_map.mp member
    exact throughout.key listed
  · refine comparableRow_of_forall fun item member => ?_
    obtain ⟨entry, listed, rfl⟩ := List.mem_map.mp member
    exact throughout.mapped listed

/-- The values of a typed map may be compared. -/
theorem Comparable.of_shownPairs {typed : Bool} {pairs : List (MapKey × Value)}
    (comparable : Comparable typed (map (shownPairs pairs))) {pair : MapKey × Value}
    (member : pair ∈ pairs) : Comparable false pair.2 :=
  ⟨comparable.throughout.mapped (List.mem_map_of_mem member), nofun⟩

end Conditions

/-- How two values that may be compared are equal: as twins, or by being containers of one way
whose contents are equal. -/
inductive Alike (typed : Bool) : Value → Value → Prop
  | twin {left right : Value} (twin : Twin left right) : Alike typed left right
  | list {items others : List Value} (rows : slotsEqual [] items others = true) :
      Alike typed (list items) (list others)
  | array {items others : List Value} (rows : slotsEqual [] items others = true) :
      Alike typed (array items) (array others)
  | map {entries others : Entries} (plain : typed = false)
      (keys : slotsEqual [] (entries.map Prod.fst) (others.map Prod.fst) = true)
      (values : slotsEqual [] (entries.map Prod.snd) (others.map Prod.snd) = true) :
      Alike typed (map entries) (map others)
  | typedMap {lefts rights : List (MapKey × Value)} (marked : typed = true)
      (distinct : (lefts.map Prod.fst).Nodup) (distinct' : (rights.map Prod.fst).Nodup)
      (both : Matches lefts rights) :
      Alike typed (map (shownPairs lefts)) (map (shownPairs rights))
  | composite {form : Composite} {slots others : List Value}
      (rows : slotsEqual (form.fields.map fun field => field.type.isTypedMap) slots others = true) :
      Alike typed (described (.composite form slots)) (described (.composite form others))
  | content {part : Section} {body other : Value}
      (same : equal part.type.isTypedMap body other = true) :
      Alike typed (described (.content part body)) (described (.content part other))
  | unknown {descriptor : Descriptor} {body other : Value} (same : equal false body other = true) :
      Alike typed (described (.unknown descriptor body)) (described (.unknown descriptor other))

section Alike

variable {typed : Bool} {left right : Value}

/-- Values that are alike are equal. Nothing is asked of their slots here, since what is asked of
typed maps is part of being alike. -/
theorem Alike.equal (alike : Alike typed left right) : equal typed left right = true := by
  cases alike with
  | twin twin =>
    have simple : left.isSimple = true := twin.symm.isSimple
    exact (equal_iff_twin simple).mpr twin
  | list rows => exact (itemsEqual_eq _ _).trans rows
  | array rows => exact (itemsEqual_eq _ _).trans rows
  | map plain keys values =>
    subst plain
    exact entriesEqual_iff.mpr ⟨keys, values⟩
  | typedMap marked distinct distinct' both =>
    subst marked
    exact (equal_shownPairs_iff distinct').mpr both
  | composite rows => exact Bool.and_eq_true_iff.mpr ⟨decide_eq_true rfl, rows⟩
  | content same => exact Bool.and_eq_true_iff.mpr ⟨decide_eq_true rfl, same⟩
  | unknown same => exact Bool.and_eq_true_iff.mpr ⟨decide_eq_true rfl, same⟩

/-- Values that may be compared are equal only if they are alike. This is the one place where
equality is taken apart by the constructors of both sides, and whatever else is said of it is
said of being alike. -/
theorem alike_of_equal (comparable : Comparable typed left) (comparable' : Comparable typed right)
    (same : left.equal typed right = true) : Alike typed left right := by
  cases left with
  | list items =>
    cases right <;> try cases same
    exact .list ((itemsEqual_eq _ _).symm.trans same)
  | array items =>
    cases right <;> try cases same
    exact .array ((itemsEqual_eq _ _).symm.trans same)
  | map entries =>
    cases right <;> try cases same
    cases typed with
    | false =>
      obtain ⟨keys, values⟩ := entriesEqual_iff.mp same
      exact .map rfl keys values
    | true =>
      obtain ⟨lefts, distinct, rfl⟩ := comparable.keyed rfl
      obtain ⟨rights, distinct', rfl⟩ := comparable'.keyed rfl
      exact .typedMap rfl distinct distinct' ((equal_shownPairs_iff distinct').mp same)
  | described contained =>
    cases right <;> try cases same
    next other =>
      have bodies : describedEqual contained other = true := same
      cases contained <;> cases other <;> try cases bodies
      all_goals
        obtain ⟨one, inside⟩ := Bool.and_eq_true_iff.mp bodies
        cases of_decide_eq_true one
      · exact .composite inside
      · exact .content inside
      · exact .unknown inside
  | _ => exact .twin ((equal_iff_twin rfl).mp same)

end Alike

section Symmetry

/-- A value that is equal to others only if they are equal to it. -/
def Returns (left : Value) : Prop :=
  ∀ (typed : Bool) (right : Value), Comparable typed left → Comparable typed right →
    equal typed left right = true → equal typed right left = true

/-- Slots are equal in both directions if each of them is. -/
theorem slotsEqual_symm {marks : List Bool} {lefts rights : List Value}
    (each : ∀ left ∈ lefts, left.Returns) (comparable : ComparableRow marks lefts)
    (comparable' : ComparableRow marks rights) (same : slotsEqual marks lefts rights = true) :
    slotsEqual marks rights lefts = true := by
  obtain ⟨long, same⟩ := slotsEqual_iff.mp same
  exact slotsEqual_iff.mpr ⟨long.symm, fun index right left there here =>
    each left (List.mem_of_getElem? here) _ _ (comparable index left here)
      (comparable' index right there) (same index left right here there)⟩

/-- A map is equal to others only if they are equal to it, if its keys and values are. A typed map
is turned around as a whole: its keys are all the keys that there are. -/
theorem returns_map {entries : Entries}
    (each : ∀ entry ∈ entries, entry.1.Returns ∧ entry.2.Returns) : (map entries).Returns := by
  intro typed right comparable comparable' same
  cases alike_of_equal comparable comparable' same with
  | twin twin => cases twin.symm.isSimple
  | map plain keys values =>
    obtain ⟨first, second⟩ := comparableRow_entries comparable.throughout
    obtain ⟨first', second'⟩ := comparableRow_entries comparable'.throughout
    refine (Alike.map plain (slotsEqual_symm ?_ first first' keys)
      (slotsEqual_symm ?_ second second' values)).equal
    · exact List.forall_mem_map.mpr fun entry member => (each entry member).1
    · exact List.forall_mem_map.mpr fun entry member => (each entry member).2
  | typedMap marked distinct distinct' both =>
    refine (Alike.typedMap marked distinct' distinct (both.symm distinct distinct' ?_)).equal
    intro pair member value found
    exact (each _ (List.mem_map_of_mem member)).2 false value
      (comparable.of_shownPairs member) (comparable'.of_shownPairs found)

/-- A described value is equal to others only if they are equal to it, if what it contains is. -/
theorem returns_described {contained : Described}
    (each : ∀ value ∈ contained.contents, value.Returns) : (described contained).Returns := by
  intro typed right comparable comparable' same
  cases alike_of_equal comparable comparable' same with
  | twin twin => cases twin.symm.isSimple
  | composite rows =>
    exact (Alike.composite (slotsEqual_symm each (comparableRow_slots comparable.throughout)
      (comparableRow_slots comparable'.throughout) rows)).equal
  | content inside =>
    exact (Alike.content (each _ List.mem_cons_self _ _ (comparable_content comparable.throughout)
      (comparable_content comparable'.throughout) inside)).equal
  | unknown inside =>
    exact (Alike.unknown (each _ List.mem_cons_self _ _
      (comparable_body comparable.throughout) (comparable_body comparable'.throughout)
      inside)).equal

/-- Every value is equal to others only if they are equal to it. The induction is on the one
value, and what the other is follows from their being alike. -/
theorem returns (left : Value) : left.Returns := by
  induction left using Value.induction with
  | simple left simple =>
    intro typed right _ _ same
    have twin := (equal_iff_twin simple).mp same
    exact (equal_iff_twin twin.isSimple).mpr twin.symm
  | list items each =>
    intro typed right comparable comparable' same
    cases alike_of_equal comparable comparable' same with
    | twin twin => cases twin.symm.isSimple
    | list rows =>
      exact (Alike.list (slotsEqual_symm each
        (comparableRow_of_forall fun _ => comparable.throughout.item)
        (comparableRow_of_forall fun _ => comparable'.throughout.item) rows)).equal
  | array items each =>
    intro typed right comparable comparable' same
    cases alike_of_equal comparable comparable' same with
    | twin twin => cases twin.symm.isSimple
    | array rows =>
      exact (Alike.array (slotsEqual_symm each
        (comparableRow_of_forall fun _ => comparable.throughout.element)
        (comparableRow_of_forall fun _ => comparable'.throughout.element) rows)).equal
  | map entries each => exact returns_map each
  | described contained each => exact returns_described each

end Symmetry

section Transitivity

/-- A value that is equal to whatever its equals are equal to. -/
def Continues (left : Value) : Prop :=
  ∀ (typed : Bool) (middle right : Value), Comparable typed left → Comparable typed middle →
    Comparable typed right → equal typed left middle = true → equal typed middle right = true →
      equal typed left right = true

/-- Slots are equal to whatever their equals are equal to if each of them is. The three rows are
of one length, so there is a slot in the middle for every index. -/
theorem slotsEqual_trans {marks : List Bool} {lefts middles rights : List Value}
    (each : ∀ left ∈ lefts, left.Continues) (comparable : ComparableRow marks lefts)
    (comparable' : ComparableRow marks middles) (comparable'' : ComparableRow marks rights)
    (same : slotsEqual marks lefts middles = true)
    (further : slotsEqual marks middles rights = true) : slotsEqual marks lefts rights = true := by
  obtain ⟨long, same⟩ := slotsEqual_iff.mp same
  obtain ⟨long', further⟩ := slotsEqual_iff.mp further
  refine slotsEqual_iff.mpr ⟨long.trans long', fun index left right here beyond => ?_⟩
  have inside : index < middles.length := long ▸ (List.getElem?_eq_some_iff.mp here).1
  have there := List.getElem?_eq_getElem inside
  exact each left (List.mem_of_getElem? here) _ _ _ (comparable index left here)
    (comparable' index _ there) (comparable'' index right beyond) (same index left _ here there)
    (further index _ right there beyond)

/-- A map is equal to whatever its equals are equal to if its keys and values are. Plain maps are
compared pair by pair. In a typed one a key is looked up in the second map, and what is found
there in the third. -/
theorem continues_map {entries : Entries}
    (each : ∀ entry ∈ entries, entry.1.Continues ∧ entry.2.Continues) :
    (map entries).Continues := by
  intro typed middle right comparable comparable' comparable'' same further
  cases typed with
  | false =>
    cases alike_of_equal comparable comparable' same with
    | twin twin => cases twin.symm.isSimple
    | typedMap marked => cases marked
    | map plain keys values =>
      cases alike_of_equal comparable' comparable'' further with
      | twin twin => cases twin.symm.isSimple
      | typedMap marked => cases marked
      | map plain keys' values' =>
        obtain ⟨first, second⟩ := comparableRow_entries comparable.throughout
        obtain ⟨first', second'⟩ := comparableRow_entries comparable'.throughout
        obtain ⟨first'', second''⟩ := comparableRow_entries comparable''.throughout
        refine (Alike.map plain (slotsEqual_trans ?_ first first' first'' keys keys')
          (slotsEqual_trans ?_ second second' second'' values values')).equal
        · exact List.forall_mem_map.mpr fun entry member => (each entry member).1
        · exact List.forall_mem_map.mpr fun entry member => (each entry member).2
  | true =>
    cases middle <;> try cases same
    cases right <;> try cases further
    obtain ⟨lefts, _, rfl⟩ := comparable.keyed rfl
    obtain ⟨middles, distinct', rfl⟩ := comparable'.keyed rfl
    obtain ⟨rights, distinct'', rfl⟩ := comparable''.keyed rfl
    have both := (equal_shownPairs_iff distinct').mp same
    have more := (equal_shownPairs_iff distinct'').mp further
    refine (equal_shownPairs_iff distinct'').mpr (both.trans more ?_)
    intro pair member value found same beyond found' further
    exact (each _ (List.mem_map_of_mem member)).2 false value beyond
      (comparable.of_shownPairs member) (comparable'.of_shownPairs found)
      (comparable''.of_shownPairs found') same further

/-- A described value is equal to whatever its equals are equal to if what it contains is. All
three have one form, or one descriptor that finds none. -/
theorem continues_described {contained : Described}
    (each : ∀ value ∈ contained.contents, value.Continues) : (described contained).Continues := by
  intro typed middle right comparable comparable' comparable'' same further
  cases alike_of_equal comparable comparable' same with
  | twin twin => cases twin.symm.isSimple
  | composite rows =>
    cases alike_of_equal comparable' comparable'' further with
    | twin twin => cases twin.symm.isSimple
    | composite rows' =>
      exact (Alike.composite (slotsEqual_trans each (comparableRow_slots comparable.throughout)
        (comparableRow_slots comparable'.throughout)
        (comparableRow_slots comparable''.throughout) rows rows')).equal
  | content inside =>
    cases alike_of_equal comparable' comparable'' further with
    | twin twin => cases twin.symm.isSimple
    | content inside' =>
      exact (Alike.content (each _ List.mem_cons_self _ _ _
        (comparable_content comparable.throughout) (comparable_content comparable'.throughout)
        (comparable_content comparable''.throughout) inside inside')).equal
  | unknown inside =>
    cases alike_of_equal comparable' comparable'' further with
    | twin twin => cases twin.symm.isSimple
    | unknown inside' =>
      exact (Alike.unknown (each _ List.mem_cons_self _ _ _
        (comparable_body comparable.throughout) (comparable_body comparable'.throughout)
        (comparable_body comparable''.throughout) inside inside')).equal

/-- Every value is equal to whatever its equals are equal to. All three contain values in one
way. -/
theorem continues (left : Value) : left.Continues := by
  induction left using Value.induction with
  | simple left simple =>
    intro typed middle right _ _ _ same further
    have twin := (equal_iff_twin simple).mp same
    exact (equal_iff_twin simple).mpr (twin.trans ((equal_iff_twin twin.isSimple).mp further))
  | list items each =>
    intro typed middle right comparable comparable' comparable'' same further
    cases alike_of_equal comparable comparable' same with
    | twin twin => cases twin.symm.isSimple
    | list rows =>
      cases alike_of_equal comparable' comparable'' further with
      | twin twin => cases twin.symm.isSimple
      | list rows' =>
        exact (Alike.list (slotsEqual_trans each
          (comparableRow_of_forall fun _ => comparable.throughout.item)
          (comparableRow_of_forall fun _ => comparable'.throughout.item)
          (comparableRow_of_forall fun _ => comparable''.throughout.item) rows rows')).equal
  | array items each =>
    intro typed middle right comparable comparable' comparable'' same further
    cases alike_of_equal comparable comparable' same with
    | twin twin => cases twin.symm.isSimple
    | array rows =>
      cases alike_of_equal comparable' comparable'' further with
      | twin twin => cases twin.symm.isSimple
      | array rows' =>
        exact (Alike.array (slotsEqual_trans each
          (comparableRow_of_forall fun _ => comparable.throughout.element)
          (comparableRow_of_forall fun _ => comparable'.throughout.element)
          (comparableRow_of_forall fun _ => comparable''.throughout.element) rows rows')).equal
  | map entries each => exact continues_map each
  | described contained each => exact continues_described each

end Transitivity

section Reflexivity

/-- A value that is equal to itself exactly if no NaN is anywhere in it. -/
def Reflects (value : Value) : Prop :=
  ∀ typed, Comparable typed value →
    (equal typed value value = true ↔ value.Everywhere IsNumber)

/-- Slots are equal to themselves if each of them is. -/
theorem slotsEqual_self_iff {marks : List Bool} {slots : List Value}
    (each : ∀ slot ∈ slots, slot.Reflects)
    (comparable : ComparableRow marks slots) :
    slotsEqual marks slots slots = true ↔ ∀ slot ∈ slots, slot.Everywhere IsNumber := by
  rw [slotsEqual_iff]
  constructor
  · rintro ⟨-, same⟩ slot member
    obtain ⟨index, there⟩ := List.mem_iff_getElem?.mp member
    exact (each slot member _ (comparable index slot there)).mp (same index slot slot there there)
  · refine fun numbers => ⟨rfl, fun index left right here there => ?_⟩
    obtain rfl : left = right := Option.some.inj (here.symm.trans there)
    have member := List.mem_of_getElem? here
    exact (each left member _ (comparable index left here)).mpr (numbers left member)

/-- A map is equal to itself exactly if no NaN is in a key or a value of it. In a typed map only
the values can have one, because a key never does. -/
theorem reflects_map {entries : Entries}
    (each : ∀ entry ∈ entries, entry.1.Reflects ∧ entry.2.Reflects) : (map entries).Reflects := by
  intro typed comparable
  cases typed with
  | false =>
    obtain ⟨first, second⟩ := comparableRow_entries comparable.throughout
    have rows : equal false (.map entries) (.map entries) = entriesEqual entries entries := rfl
    rw [rows, entriesEqual_iff, slotsEqual_self_iff _ first, slotsEqual_self_iff _ second,
      List.forall_mem_map, List.forall_mem_map]
    · constructor
      · exact fun ⟨keys, values⟩ => .of_map trivial fun entry member =>
          ⟨keys entry member, values entry member⟩
      · exact fun numbers => ⟨fun _ => numbers.key, fun _ => numbers.mapped⟩
    · exact List.forall_mem_map.mpr fun entry member => (each entry member).2
    · exact List.forall_mem_map.mpr fun entry member => (each entry member).1
  | true =>
    obtain ⟨pairs, distinct, rfl⟩ := comparable.keyed rfl
    rw [equal_shownPairs_iff distinct, matches_self_iff distinct]
    constructor
    · intro same
      refine .of_map trivial (List.forall_mem_map.mpr fun pair member => ⟨?_, ?_⟩)
      · exact .of_simple (MapKey.isSimple_toValue pair.1) (isNumber_toValue pair.1)
      · exact ((each _ (List.mem_map_of_mem member)).2 false
          (comparable.of_shownPairs member)).mp (same pair member)
    · intro numbers pair member
      exact ((each _ (List.mem_map_of_mem member)).2 false
        (comparable.of_shownPairs member)).mpr (numbers.mapped (List.mem_map_of_mem member))

/-- A described value is equal to itself exactly if no NaN is in what it contains. Its form and
its descriptor always are. -/
theorem reflects_described {contained : Described}
    (each : ∀ value ∈ contained.contents, value.Reflects) : (described contained).Reflects := by
  intro typed comparable
  have one : equal typed (.described contained) (.described contained) =
      describedEqual contained contained := rfl
  rw [one]
  cases contained with
  | composite form slots =>
    have slotwise : ∀ slot ∈ slots, slot.Reflects := each
    rw [describedEqual, decide_eq_true rfl, Bool.true_and,
      slotsEqual_self_iff slotwise (comparableRow_slots comparable.throughout)]
    exact ⟨fun numbers => .of_described trivial numbers, fun numbers _ => numbers.contents⟩
  | content part body =>
    rw [describedEqual, decide_eq_true rfl, Bool.true_and,
      each body List.mem_cons_self _ (comparable_content comparable.throughout)]
    exact ⟨.of_content trivial, fun numbers => numbers.contents List.mem_cons_self⟩
  | unknown descriptor body =>
    rw [describedEqual, decide_eq_true rfl, Bool.true_and,
      each body List.mem_cons_self _ (comparable_body comparable.throughout)]
    exact ⟨.of_unknown trivial, fun numbers => numbers.contents List.mem_cons_self⟩

/-- Every value is equal to itself exactly if no NaN is anywhere in it. -/
theorem reflects (value : Value) : value.Reflects := by
  induction value using Value.induction with
  | simple value simple =>
    intro typed _
    rw [equal_iff_twin simple, twin_self_iff simple]
    exact ⟨.of_simple simple, Everywhere.here⟩
  | list items each =>
    intro typed comparable
    have rows : equal typed (.list items) (.list items) = slotsEqual [] items items :=
      itemsEqual_eq items items
    rw [rows, slotsEqual_self_iff each
      (comparableRow_of_forall fun _ => comparable.throughout.item)]
    exact ⟨.of_list trivial, fun numbers _ => numbers.item⟩
  | array items each =>
    intro typed comparable
    have rows : equal typed (.array items) (.array items) = slotsEqual [] items items :=
      itemsEqual_eq items items
    rw [rows, slotsEqual_self_iff each
      (comparableRow_of_forall fun _ => comparable.throughout.element)]
    exact ⟨.of_array trivial, fun numbers _ => numbers.element⟩
  | map entries each => exact reflects_map each
  | described contained each => exact reflects_described each

end Reflexivity

section Laws

variable {left middle right : Value}

/-- Equality by meaning does not depend on which side a value stands, NaN and typed maps
included. Both sides are asked to be of their types, because a key that a typed map names twice
is counted twice and looked up once.

Proof: A value is equal to others only if they are equal to it, by induction on it. Equal values
contain values in the same way, and a typed map whose keys are all found in another one with as
many has all the keys of that. -/
theorem equal_comm (typed : left.Everywhere Typed) (typed' : right.Everywhere Typed) :
    left.equal false right = right.equal false left := by
  have comparable : Comparable false left := ⟨typed, nofun⟩
  have comparable' : Comparable false right := ⟨typed', nofun⟩
  exact Bool.eq_iff_iff.mpr ⟨returns left false right comparable comparable',
    returns right false left comparable' comparable⟩

/-- Values that are equal to a common one are equal. The value in the middle settles the way in
which all three contain values, and a key of the first is looked up in the second and from there
in the third. -/
theorem equal_trans (typed : left.Everywhere Typed) (typed' : middle.Everywhere Typed)
    (typed'' : right.Everywhere Typed) (same : equal false left middle = true)
    (further : equal false middle right = true) : equal false left right = true :=
  continues left false middle right ⟨typed, nofun⟩ ⟨typed', nofun⟩ ⟨typed'', nofun⟩ same further

/-- A value is equal to itself exactly if no NaN is anywhere in it, in a key or a slot either. So
the only values that are not equal to themselves are those with a number that is not. -/
theorem equal_self_iff (typed : left.Everywhere Typed) :
    equal false left left = true ↔ left.Everywhere IsNumber :=
  reflects left false ⟨typed, nofun⟩

end Laws

section Order

variable {left middle right : Value} {order further : Ordering}

/-- Byte strings are ordered as lists of numbers are. -/
theorem compareBytes_eq (left right : Bytes) : compareBytes left right = compare left right := by
  induction left generalizing right with
  | nil => cases right <;> rfl
  | cons first left inductionHypothesis =>
    cases right with
    | nil => rfl
    | cons second right => rw [compareBytes, List.compare_cons_cons, inductionHypothesis]

/-- What the order of two values is the order of: the bytes of a name, a byte string or an
identifier, and the number of a time. -/
inductive Ordered : Value → Value → Ordering → Prop
  | symbol (left right : String) : Ordered (symbol left) (symbol right)
      (compare (Utf8.encode left) (Utf8.encode right))
  | binary (left right : Bytes) : Ordered (binary left) (binary right) (compare left right)
  | uuid (left right : Vector UInt8 16) : Ordered (uuid left) (uuid right)
      (compare left.toList right.toList)
  | timestamp (left right : Int64) : Ordered (timestamp left) (timestamp right)
      (compare left.toInt right.toInt)

/-- Two values have an order if they are of one kind that is ordered. Names and byte strings are
ordered by their bytes, as lists of numbers are. -/
theorem compare?_eq_some_iff : compare? left right = some order ↔ Ordered left right order := by
  constructor
  · intro found
    cases left <;> cases right <;> cases found
    · exact .timestamp _ _
    · exact compareBytes_eq _ _ ▸ .uuid _ _
    · exact compareBytes_eq _ _ ▸ .binary _ _
    · exact compareBytes_eq _ _ ▸ .symbol _ _
  · rintro (_ | _ | _ | _)
    · exact congrArg some (compareBytes_eq _ _)
    · exact congrArg some (compareBytes_eq _ _)
    · exact congrArg some (compareBytes_eq _ _)
    · rfl

/-- Turned around, two values have the opposite order. -/
theorem compare?_swap (found : compare? left right = some order) :
    compare? right left = some order.swap := by
  rw [compare?_eq_some_iff] at found ⊢
  cases found <;> rw [← Std.OrientedCmp.eq_swap] <;> constructor

/-- Values that have an order are the same in it exactly if they are one value. For names this is
so because their bytes can be read back. -/
theorem compare?_eq_iff (found : compare? left right = some order) :
    order = .eq ↔ left = right := by
  rw [compare?_eq_some_iff] at found
  cases found with
  | symbol left right => rw [Std.compare_eq_iff_eq, Value.symbol.injEq, Utf8.encode_inj]
  | binary left right => rw [Std.compare_eq_iff_eq, Value.binary.injEq]
  | uuid left right => rw [Std.compare_eq_iff_eq, Value.uuid.injEq, Vector.toList_inj]
  | timestamp left right => rw [Std.compare_eq_iff_eq, Value.timestamp.injEq, Int64.toInt_inj]

/-- A value that is not behind another is not behind what that is not behind. -/
theorem compare?_trans (found : compare? left middle = some order)
    (found' : compare? middle right = some further) (first : order.isLE) (second : further.isLE) :
    ∃ whole, compare? left right = some whole ∧ whole.isLE := by
  simp only [compare?_eq_some_iff] at found found' ⊢
  cases found <;> cases found' <;> exact ⟨_, by constructor, Std.TransCmp.isLE_trans first second⟩

end Order

end Amqp.Value
