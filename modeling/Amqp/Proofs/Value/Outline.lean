import Amqp.Proofs.Decoder.Regularity

/-!
# The outline of a value

The outline of a value is what does not depend on how its strings are spelled. The text of every
string is taken out of it, and so are the contents of every described value, because a typed map
keeps one of two entries whose keys have become the same. Everything else stays: a value without
described parts has the constructors, the lengths and the leaves of its outline, strings excepted.

Types and registries see no more of a value than its outline when they decide whether to accept it.
So where a value is accepted, every other value of the same outline is accepted too.
-/

namespace Amqp

/-- A described value of the same form, or of the same descriptor, with nothing in it. -/
def Described.hull : Described → Described
  | composite form _ => .composite form []
  | content portion _ => .content portion .null
  | unknown descriptor _ => .unknown descriptor .null

namespace Value

mutual

/-- A value without the text of its strings and without the contents of its described parts. -/
def outline : Value → Value
  | .string _ => .string ""
  | .list items => .list (outlines items)
  | .map entries => .map (entryOutlines entries)
  | .array items => .array (outlines items)
  | .described contained => .described contained.hull
  | value => value
termination_by structural value => value

/-- The outlines of some values. -/
def outlines : List Value → List Value
  | [] => []
  | item :: rest => outline item :: outlines rest
termination_by structural items => items

/-- The outlines of some keys and values. -/
def entryOutlines : Entries → Entries
  | [] => []
  | (key, value) :: rest => (outline key, outline value) :: entryOutlines rest
termination_by structural entries => entries

end

/-- The outlines of a key and a value. -/
def outlinePair (entry : Value × Value) : Value × Value := (entry.1.outline, entry.2.outline)

section Equations

/-- Values have their outlines each on its own. -/
theorem outlines_eq (items : List Value) : outlines items = items.map outline := by
  induction items with
  | nil => rfl
  | cons item rest inductionHypothesis => rw [outlines, inductionHypothesis, List.map_cons]

/-- Keys and values have their outlines each on its own. -/
theorem entryOutlines_eq (entries : Entries) : entryOutlines entries = entries.map outlinePair := by
  induction entries with
  | nil => rfl
  | cons entry rest inductionHypothesis =>
    rw [entryOutlines, inductionHypothesis, List.map_cons]
    rfl

/-- The outline of a list. -/
theorem outline_list (items : List Value) : (list items).outline = list (items.map outline) := by
  rw [outline, outlines_eq]

/-- The outline of a map. -/
theorem outline_map (entries : Entries) :
    (map entries).outline = map (entries.map outlinePair) := by
  rw [outline, entryOutlines_eq]

/-- The outline of an array. -/
theorem outline_array (items : List Value) : (array items).outline = array (items.map outline) := by
  rw [outline, outlines_eq]

/-- The outline of a value is of its kind. -/
theorem kind_outline (value : Value) : value.outline.kind = value.kind := by
  cases value <;> rfl

/-- The outline of a value contains values if the value does. -/
theorem isSimple_outline (value : Value) : value.outline.isSimple = value.isSimple := by
  cases value <;> rfl

/-- Nothing is taken out of a value that contains no values and is not a string. -/
theorem outline_of_isSimple {value : Value} (simple : value.isSimple = true)
    (textless : value.kind ≠ .string) : value.outline = value := by
  cases value with
  | list | map | array | described => cases simple
  | string => exact absurd rfl textless
  | _ => rfl

end Equations

section Inversion

variable {value other : Value}

/-- Values of one outline are of one kind. -/
theorem kind_of_outline (same : other.outline = value.outline) : other.kind = value.kind := by
  rw [← kind_outline, same, kind_outline]

/-- Only a value itself has its outline if nothing is taken out of it. -/
theorem eq_of_outline (same : other.outline = value.outline) (simple : value.isSimple = true)
    (textless : value.kind ≠ .string) : other = value := by
  have kind := kind_of_outline same
  have simple' : other.isSimple = true := by
    rw [← isSimple_outline, same, isSimple_outline, simple]
  rw [← outline_of_isSimple simple' (kind ▸ textless), same, outline_of_isSimple simple textless]

/-- A value of the outline of a string is a string. -/
theorem eq_string_of_outline {text : String} (same : other.outline = (string text).outline) :
    ∃ shown, other = .string shown := by
  have kind := kind_of_outline same
  cases other with
  | string shown => exact ⟨shown, rfl⟩
  | _ => cases kind

/-- A value of the outline of a list is a list of values of the outlines. -/
theorem eq_list_of_outline {items : List Value} (same : other.outline = (list items).outline) :
    ∃ others, other = .list others ∧ others.map outline = items.map outline := by
  have kind := kind_of_outline same
  cases other with
  | list others =>
    rw [outline_list, outline_list] at same
    exact ⟨others, rfl, list.inj same⟩
  | _ => cases kind

/-- A value of the outline of a map is a map of keys and values of the outlines. -/
theorem eq_map_of_outline {entries : Entries} (same : other.outline = (map entries).outline) :
    ∃ others, other = .map others ∧ others.map outlinePair = entries.map outlinePair := by
  have kind := kind_of_outline same
  cases other with
  | map others =>
    rw [outline_map, outline_map] at same
    exact ⟨others, rfl, map.inj same⟩
  | _ => cases kind

/-- A value of the outline of an array is an array of values of the outlines. -/
theorem eq_array_of_outline {items : List Value} (same : other.outline = (array items).outline) :
    ∃ others, other = .array others ∧ others.map outline = items.map outline := by
  have kind := kind_of_outline same
  cases other with
  | array others =>
    rw [outline_array, outline_array] at same
    exact ⟨others, rfl, array.inj same⟩
  | _ => cases kind

/-- A value of the outline of a described value is described, of the same form if any. -/
theorem eq_described_of_outline {contained : Described}
    (same : other.outline = (described contained).outline) :
    ∃ inside, other = .described inside ∧ inside.form? = contained.form? := by
  have kind := kind_of_outline same
  cases other with
  | described inside =>
    refine ⟨inside, rfl, ?_⟩
    have hulls : inside.hull = contained.hull := described.inj same
    cases inside <;> cases contained <;> cases hulls <;> rfl
  | _ => cases kind

end Inversion

/-- Where each thing is the only one of its view, so is the list of them. -/
theorem eq_of_map_eq {α β : Type} {view : α → β} {items others : List α}
    (same : others.map view = items.map view)
    (each : ∀ item ∈ items, ∀ other, view other = view item → other = item) : others = items := by
  induction items generalizing others with
  | nil => exact List.map_eq_nil_iff.mp same
  | cons item rest inductionHypothesis =>
    obtain ⟨other, others, rfl, first, later⟩ := List.map_eq_cons_iff.mp same
    obtain ⟨here, remaining⟩ := List.forall_mem_cons.mp each
    rw [here other first, inductionHypothesis later remaining]

/-- A value that has neither strings nor described parts is the only one of its outline. Nothing
has been taken out of such a value. -/
theorem eq_of_outline_of_everywhere {value other : Value}
    (kept : value.Everywhere fun part => part.kind ≠ .string ∧ part.kind ≠ .described)
    (same : other.outline = value.outline) : other = value := by
  induction value using Value.induction generalizing other with
  | simple value simple => exact eq_of_outline same simple kept.here.1
  | list items inductionHypothesis =>
    obtain ⟨others, rfl, looks⟩ := eq_list_of_outline same
    rw [eq_of_map_eq looks fun item member _ => inductionHypothesis item member (kept.item member)]
  | map entries inductionHypothesis =>
    obtain ⟨others, rfl, looks⟩ := eq_map_of_outline same
    rw [eq_of_map_eq looks fun entry member other alike => ?_]
    obtain ⟨key, mapped⟩ := inductionHypothesis entry member
    obtain ⟨sameKey, sameValue⟩ := Prod.mk.inj alike
    exact Prod.ext (key (kept.key member) sameKey) (mapped (kept.mapped member) sameValue)
  | array items inductionHypothesis =>
    obtain ⟨others, rfl, looks⟩ := eq_array_of_outline same
    rw [eq_of_map_eq looks fun item member _ =>
      inductionHypothesis item member (kept.element member)]
  | described contained => exact absurd rfl kept.here.2

end Value

section Reading

/-- Where one list looks like another, what is looked for in both is found in both. -/
theorem exists_of_map_eq {α β : Type} {view : α → β} {items others : List α}
    (same : others.map view = items.map view) {other : α} (member : other ∈ others) :
    ∃ item ∈ items, view item = view other :=
  List.mem_map.mp (same ▸ List.mem_map_of_mem member)

/-- A computation that succeeds on all of some things succeeds on all others that look like them,
if it succeeds on whatever looks like what it succeeds on. -/
theorem exists_mapM_of_map_eq {α β γ ε : Type} {compute : α → Except ε γ} {view : α → β}
    {items others : List α} (same : others.map view = items.map view) {results : List γ}
    (ran : items.mapM compute = .ok results)
    (each : ∀ item other result, view other = view item → compute item = .ok result →
      ∃ shown, compute other = .ok shown) : ∃ shown, others.mapM compute = .ok shown := by
  refine exists_mapM_eq_ok_iff.mpr fun other member => ?_
  obtain ⟨item, listed, alike⟩ := exists_of_map_eq same member
  obtain ⟨result, computed⟩ := exists_mapM_eq_ok_iff.mp ⟨results, ran⟩ item listed
  exact each item other result alike.symm computed

variable {value other : Value}

/-- A key is read of a value if one is read of a value of the same outline. -/
theorem KeyType.read_of_outline {type : KeyType} {key : MapKey}
    (same : other.outline = value.outline) (read : type.read value = .ok key) :
    ∃ shown, type.read other = .ok shown := by
  obtain ⟨rfl, admitted⟩ := KeyType.read_eq_ok_iff.mp read
  cases key with
  | string text =>
    obtain ⟨shown, rfl⟩ := Value.eq_string_of_outline same
    exact ⟨.string shown, KeyType.read_eq_ok_iff.mpr ⟨rfl, admitted⟩⟩
  | _ =>
    obtain rfl := Value.eq_of_outline same rfl (by intro textual; cases textual)
    exact ⟨_, read⟩

/-- What a type admits it admits of every value of the same outline. What it makes of the two may
differ, since a typed map can have fewer pairs where strings have become the same. -/
theorem Ty.read_of_outline {type : Ty} {shown : Value} (same : other.outline = value.outline)
    (read : type.read value = .ok shown) : ∃ shown, type.read other = .ok shown := by
  have kind := Value.kind_of_outline same
  induction type generalizing value other shown with
  | any => exact ⟨other, rfl⟩
  | kinds admitted name =>
    obtain ⟨member, _⟩ := read_kinds_eq_ok_iff.mp read
    exact ⟨other, read_kinds_eq_ok_iff.mpr ⟨kind ▸ member, rfl⟩⟩
  | symbols =>
    rcases read_symbols_eq_ok_iff.mp read with ⟨name, rfl, rfl⟩ | ⟨items, rfl, each, rfl⟩
    · rw [Value.eq_of_outline same rfl (by intro textual; cases textual)]
      exact ⟨_, rfl⟩
    · obtain ⟨others, rfl, looks⟩ := Value.eq_array_of_outline same
      refine ⟨_, read_symbols_eq_ok_iff.mpr (.inr ⟨others, rfl, fun other member => ?_, rfl⟩)⟩
      obtain ⟨item, found, alike⟩ := exists_of_map_eq looks member
      rw [← Value.kind_of_outline alike]
      exact each item found
  | typedMap keys values inductionHypothesis =>
    obtain ⟨entries, pairs, rfl, ran, rfl⟩ := read_typedMap_eq_ok_iff.mp read
    obtain ⟨others, rfl, looks⟩ := Value.eq_map_of_outline same
    have each (entry other : Value × Value) (pair : MapKey × Value)
        (alike : (other.1.outline, other.2.outline) = (entry.1.outline, entry.2.outline))
        (ran : readEntry keys values entry = .ok pair) :
        ∃ shown, readEntry keys values other = .ok shown := by
      obtain ⟨sameKey, sameValue⟩ := Prod.mk.inj alike
      obtain ⟨first, second⟩ := readEntry_eq_ok_iff.mp ran
      obtain ⟨key, first⟩ := KeyType.read_of_outline sameKey first
      obtain ⟨shown, second⟩ :=
        inductionHypothesis sameValue second (Value.kind_of_outline sameValue)
      exact ⟨(key, shown), readEntry_eq_ok_iff.mpr ⟨first, second⟩⟩
    obtain ⟨found, computed⟩ := exists_mapM_of_map_eq looks ran each
    exact ⟨_, read_typedMap_eq_ok_iff.mpr ⟨others, found, rfl, computed, rfl⟩⟩
  | forms admitted name =>
    obtain ⟨rfl, contained, form, rfl, known, member⟩ := read_forms_eq_ok_iff.mp read
    obtain ⟨inside, rfl, sameForm⟩ := Value.eq_described_of_outline same
    exact ⟨_, read_forms_eq_ok_iff.mpr ⟨rfl, inside, form, rfl, sameForm.trans known, member⟩⟩
  | optional inner inductionHypothesis =>
    rcases read_optional_eq_ok_iff.mp read with ⟨rfl, rfl⟩ | ⟨set, read⟩
    · rw [Value.eq_of_outline same rfl (by intro textual; cases textual)]
      exact ⟨.null, rfl⟩
    · obtain ⟨shown, read⟩ := inductionHypothesis same read kind
      refine ⟨shown, read_optional_eq_ok_iff.mpr (.inr ⟨?_, read⟩)⟩
      rintro rfl
      exact set (Value.eq_of_outline same.symm rfl (by intro textual; cases textual))

variable {field : Field} {fields : List Field} {slot : Value} {values others slots : List Value}

/-- What a field admits it admits of every value of the same outline. -/
theorem Field.read_of_outline (same : other.outline = value.outline)
    (read : field.read value = .ok slot) : ∃ shown, field.read other = .ok shown := by
  by_cases unset : other = .null
  · subst unset
    exact ⟨.null, rfl⟩
  · rcases Field.cases_of_read read with ⟨rfl, _⟩ | ⟨_, typed⟩
    · exact absurd (Value.eq_of_outline same rfl (by intro textual; cases textual)) unset
    · obtain ⟨shown, typed'⟩ := Ty.read_of_outline same typed
      exact ⟨shown, by rw [read_of_ne_null unset, typed']; rfl⟩

/-- What fields admit they admit of all values of the same outlines. A slot that is null is null
in the outline too, so the same slots are unset. -/
theorem Field.readAll_of_outlines (same : others.map Value.outline = values.map Value.outline)
    (read : Field.readAll fields values = .ok slots) :
    ∃ shown, Field.readAll fields others = .ok shown := by
  induction fields generalizing values others slots with
  | nil => exact ⟨[], rfl⟩
  | cons field fields inductionHypothesis =>
    obtain ⟨slot, later, rfl, first, remaining⟩ := Field.readAll_cons_eq_ok_iff.mp read
    cases values with
    | nil =>
      obtain rfl := List.map_eq_nil_iff.mp same
      exact ⟨_, read⟩
    | cons value values =>
      obtain ⟨other, others, rfl, alike, looks⟩ := List.map_eq_cons_iff.mp same
      obtain ⟨shown, here⟩ := Field.read_of_outline alike first
      obtain ⟨more, there⟩ := inductionHypothesis looks remaining
      exact ⟨shown :: more, Field.readAll_of_cons here there⟩

/-- A body of the same outline makes a described value of the same outline. Only the form or the
descriptor is in the outline of that, so it does not matter how the slots differ. -/
theorem Registry.resolve_of_outline {descriptor : Descriptor} {described : Described}
    (same : other.outline = value.outline)
    (resolved : Registry.standard.resolve descriptor value = .ok described) :
    ∃ shown, Registry.standard.resolve descriptor other = .ok shown ∧
      (Value.described shown).outline = (Value.described described).outline := by
  rcases Registry.resolve_eq_ok_iff.mp resolved with ⟨unknown, rfl⟩ |
    ⟨form, values, slots, known, rfl, read, rfl⟩ | ⟨portion, content, known, read, rfl⟩
  · exact ⟨_, Registry.resolve_of_find?_none unknown other, rfl⟩
  · obtain ⟨others, rfl, looks⟩ := Value.eq_list_of_outline same
    obtain ⟨shown, read'⟩ := Field.readAll_of_outlines looks read
    exact ⟨.composite form shown, Registry.resolve_eq_ok_iff.mpr
      (.inr (.inl ⟨form, others, shown, known, rfl, read', rfl⟩)), rfl⟩
  · obtain ⟨shown, read'⟩ := Ty.read_of_outline same read
    exact ⟨.content portion shown, Registry.resolve_eq_ok_iff.mpr
      (.inr (.inr ⟨portion, shown, known, read', rfl⟩)), rfl⟩

end Reading

end Amqp
