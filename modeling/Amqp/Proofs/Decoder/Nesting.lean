import Amqp.Proofs.Decoder.Regularity

/-!
# How deep values nest that are read

The canonical encoding of a value that is read within some levels needs one level more at
most. Three things can be read without the level that their canonical encoding needs: an
array without bytes, an empty list behind a constructor that an array shares or in place of
the fields of a composite, and a single symbol in place of a list of symbols. All of them are at
the bottom of a value, so no more than one level is added.
-/

namespace Amqp

open Canonical (bodyNesting elementNesting elementNestings entryNestings nesting nestings
  rawNesting)

section Types

/-- The types whose maps have values as they are. What such a type makes of a value nests no
deeper than the value, unless the value is a single symbol. -/
def Ty.isFlat : Ty → Bool
  | typedMap _ values => values = any
  | optional inner => inner.isFlat
  | _ => true

/-- The fields of every composite are of flat types. -/
theorem Composite.isFlat_of_mem {form : Composite} {field : Field} (member : field ∈ form.fields) :
    field.type.isFlat = true := by
  have all : form.fields.all (fun field => field.type.isFlat) = true := by
    cases form <;> decide
  exact List.all_eq_true.mp all field member

/-- What a flat type makes of a value: the value as it is, a list of the one symbol, or the map
without the repetitions of its keys. -/
inductive Value.ReadAs : Value → Value → Prop
  | same (value : Value) : ReadAs value value
  | single (name : String) : ReadAs (.symbol name) (.array [.symbol name])
  | typedMap (pairs : List (MapKey × Value)) :
      ReadAs (.map (pairs.map fun pair => (pair.1.toValue, pair.2)))
        (.map ((TypedMap.ofPairs pairs).map fun pair => (pair.1.toValue, pair.2)))

/-- Entries that are read with their values as they are, are the pairs that were read. -/
theorem KeyType.eq_of_mapM {keys : KeyType} {entries : Entries} {pairs : List (MapKey × Value)}
    (read : entries.mapM (Ty.readEntry keys .any) = .ok pairs) :
    entries = pairs.map fun pair => (pair.1.toValue, pair.2) := by
  induction entries generalizing pairs with
  | nil =>
    cases read
    rfl
  | cons entry rest inductionHypothesis =>
    obtain ⟨pair, others, first, later, rfl⟩ := mapM_cons_eq_ok_iff.mp read
    obtain ⟨key, shown⟩ := Ty.readEntry_eq_ok_iff.mp first
    rw [List.map_cons, ← inductionHypothesis later, (read_eq_ok_iff.mp key).1,
      ← Except.ok.inj shown]

/-- What a flat type makes of a value is the value, a list of the one symbol, or the map without
repetitions. Flatness is used where a type is made of another one: the values of a typed map are
kept as they are. -/
theorem Ty.readAs_of_read {type : Ty} (flat : type.isFlat = true) {value shown : Value}
    (read : type.read value = .ok shown) : value.ReadAs shown := by
  induction type generalizing value shown with
  | any =>
    cases read
    exact .same value
  | kinds admitted name =>
    obtain ⟨_, rfl⟩ := read_kinds_eq_ok_iff.mp read
    exact .same _
  | symbols =>
    rcases read_symbols_eq_ok_iff.mp read with ⟨name, rfl, rfl⟩ | ⟨items, rfl, _, rfl⟩
    · exact .single name
    · exact .same _
  | typedMap keys values =>
    obtain rfl : values = .any := of_decide_eq_true flat
    obtain ⟨entries, pairs, rfl, ran, rfl⟩ := read_typedMap_eq_ok_iff.mp read
    rw [KeyType.eq_of_mapM ran]
    exact .typedMap pairs
  | forms admitted name =>
    obtain ⟨rfl, _⟩ := read_forms_eq_ok_iff.mp read
    exact .same _
  | optional inner inductionHypothesis =>
    rcases read_optional_eq_ok_iff.mp read with ⟨rfl, rfl⟩ | ⟨_, inside⟩
    · exact .same _
    · exact inductionHypothesis flat inside

/-- What a flat type makes of a value nests no deeper, unless it is a list of one symbol. A typed
map has fewer entries than the map, and each of them was an entry of it. -/
theorem Ty.nesting_of_read {type : Ty} (flat : type.isFlat = true) {value shown : Value}
    (read : type.read value = .ok shown) :
    nesting shown ≤ nesting value ∧ elementNesting shown ≤ elementNesting value ∨
      ∃ name, shown = .array [.symbol name] := by
  cases Ty.readAs_of_read flat read with
  | same => exact .inl ⟨Nat.le_refl _, Nat.le_refl _⟩
  | single name => exact .inr ⟨name, rfl⟩
  | typedMap pairs =>
    have bound : entryNestings ((TypedMap.ofPairs pairs).map fun pair => (pair.1.toValue, pair.2)) ≤
        entryNestings (pairs.map fun pair => (pair.1.toValue, pair.2)) := by
      refine Canonical.entryNestings_le fun entry member => ?_
      obtain ⟨pair, listed, rfl⟩ := List.mem_map.mp member
      exact Canonical.nesting_le_entryNestings
        (List.mem_map_of_mem (TypedMap.mem_ofPairs listed))
    exact .inl ⟨Nat.succ_le_succ bound, Nat.succ_le_succ bound⟩

/-- The content of a section nests no deeper than the value that it was made of. -/
theorem Section.nesting_of_read {portion : Section} {value shown : Value}
    (read : portion.type.read value = .ok shown) :
    nesting shown ≤ nesting value ∧ elementNesting shown ≤ elementNesting value := by
  have flat : portion.type.isFlat = true := by cases portion <;> rfl
  rcases Ty.nesting_of_read flat read with bounds | ⟨name, rfl⟩
  · exact bounds
  · cases portion with
    | amqpValue =>
      cases read
      exact ⟨Nat.le_refl _, Nat.le_refl _⟩
    | _ => cases Ty.read_read read

/-- The slots that are made of values within some levels are within these levels, if there are
levels for the lists of one symbol. Such a list needs one level where the symbol needs none, so
the premise asks for one beside every value. -/
theorem Field.nestings_of_readAll {fields : List Field} {values slots : List Value}
    (flat : ∀ field ∈ fields, field.type.isFlat = true)
    (read : Field.readAll fields values = .ok slots) {levels : Nat}
    (within : ∀ value ∈ values, nesting value ≤ levels ∧ 0 < levels) :
    nestings slots ≤ levels := by
  induction fields generalizing values slots with
  | nil =>
    cases read
    exact Nat.zero_le _
  | cons field fields inductionHypothesis =>
    obtain ⟨slot, later, rfl, shown, others⟩ := Field.readAll_cons_eq_ok_iff.mp read
    obtain ⟨here, further⟩ := List.forall_mem_cons.mp flat
    have bound := inductionHypothesis further others fun value member =>
      within value (List.mem_of_mem_tail member)
    have first : nesting slot ≤ levels := by
      rcases Field.cases_of_read shown with ⟨_, rfl⟩ | ⟨set, read⟩
      · exact Nat.zero_le _
      · have found : values.headD .null ∈ values := by
          cases values with
          | nil => exact absurd rfl set
          | cons value rest => exact List.mem_cons_self
        obtain ⟨here', positive⟩ := within _ found
        rcases Ty.nesting_of_read here read with ⟨nested, _⟩ | ⟨name, rfl⟩
        · exact Nat.le_trans nested here'
        · exact positive
    exact Nat.max_le.mpr ⟨first, bound⟩

end Types

section Resolution

/-- A value that is read within some levels. -/
structure Value.Reached (levels : Nat) (value : Value) : Prop where
  whole : nesting value ≤ levels + 1
  element : elementNesting value ≤ levels + 1
  deep {items : List Value} : value = .list items → items ≠ [] → 0 < levels

/-- A value that contains no values is read within any levels. -/
theorem Value.Reached.of_simple {levels : Nat} {value : Value} (simple : value.isSimple = true) :
    value.Reached levels := by
  constructor
  · rw [Canonical.nesting_of_isSimple simple]
    exact Nat.zero_le _
  · rw [Canonical.elementNesting_of_isSimple simple]
    exact Nat.zero_le _
  · rintro items rfl
    cases simple

/-- A list is read one level above its items. -/
theorem Value.Reached.of_list {levels : Nat} {items : List Value}
    (each : ∀ item ∈ items, item.Reached levels) : (list items).Reached (levels + 1) := by
  have bound : nestings items ≤ levels + 1 :=
    Canonical.nestings_le fun item member => (each item member).whole
  constructor
  · rw [nesting]
    split <;> omega
  · exact Nat.succ_le_succ bound
  · intro _ _ _
    exact Nat.succ_pos levels

/-- A map is read one level above its keys and values. -/
theorem Value.Reached.of_map {levels : Nat} {entries : Entries}
    (each : ∀ entry ∈ entries, entry.1.Reached levels ∧ entry.2.Reached levels) :
    (map entries).Reached (levels + 1) := by
  have bound : entryNestings entries ≤ levels + 1 :=
    Canonical.entryNestings_le fun entry member =>
      ⟨(each entry member).1.whole, (each entry member).2.whole⟩
  exact ⟨Nat.succ_le_succ bound, Nat.succ_le_succ bound, nofun⟩

/-- An array is read one level above its elements. -/
theorem Value.Reached.of_array {levels : Nat} {items : List Value}
    (each : ∀ item ∈ items, elementNesting item ≤ levels + 1) :
    (array items).Reached (levels + 1) := by
  have bound : elementNestings items ≤ levels + 1 := Canonical.elementNestings_le each
  exact ⟨Nat.succ_le_succ bound, Nat.succ_le_succ bound, nofun⟩

variable {levels : Nat} {descriptor : Descriptor} {body : Value} {described : Described}

/-- A described value that is found in the registry needs the levels of its body. That a list of
fields which is not empty has been read one level up leaves the level that a list of one symbol
may need in a slot. -/
theorem Registry.nesting_of_resolve
    (resolved : Registry.standard.resolve descriptor body = .ok described)
    (reached : body.Reached levels) :
    bodyNesting described ≤ levels + 1 ∧ rawNesting described ≤ levels + 1 := by
  rcases Registry.resolve_eq_ok_iff.mp resolved with ⟨_, rfl⟩ |
    ⟨form, values, slots, _, rfl, read, rfl⟩ | ⟨portion, content, _, read, rfl⟩
  · exact ⟨reached.whole, reached.element⟩
  · have within : nestings values ≤ levels := Nat.le_of_succ_le_succ reached.element
    have bound : nestings slots ≤ levels := by
      apply Field.nestings_of_readAll (fun _ => Composite.isFlat_of_mem) read
      intro value member
      have nonempty : values ≠ [] := List.ne_nil_of_mem member
      exact ⟨Nat.le_trans (Canonical.nesting_le_nestings member) within, reached.deep rfl nonempty⟩
    rw [bodyNesting, rawNesting]
    constructor
    · split <;> omega
    · omega
  · obtain ⟨whole, element⟩ := Section.nesting_of_read read
    exact ⟨Nat.le_trans whole reached.whole, Nat.le_trans element reached.element⟩

end Resolution

namespace Grammar

variable {text : TextDecoder} {levels : Nat}

/-- The element that a body makes behind the shared descriptor nests as deep as the body. For a
descriptor that finds a form this is known of the registry. -/
theorem Resolves.elementNesting_le {descriptor : Option Descriptor} {body value : Value}
    (resolves : Resolves descriptor body value) (reached : body.Reached levels) :
    elementNesting value ≤ levels + 1 := by
  cases descriptor with
  | none =>
    obtain rfl : value = body := resolves
    exact reached.element
  | some descriptor =>
    obtain ⟨described, resolved, rfl⟩ := resolves
    exact (Registry.nesting_of_resolve resolved reached).2

/-- A value that is encoded within some levels is read within these. The proof goes along the
encoding, with one step for each way of containing values. -/
theorem Encoding.reached {bytes : Bytes} {value : Value}
    (encoding : Encoding text levels bytes value) : value.Reached levels := by
  obtain ⟨_, _, _, word⟩ := encoding
  refine @payload_induction text levels (fun levels value => value.Reached levels)
    ?simple ?noList ?list ?map ?noArray ?array ?described _ _ value word
  case simple => exact fun simple => .of_simple simple
  case noList =>
    intro levels
    refine ⟨Nat.zero_le _, Nat.le_add_left 1 levels, fun same nonempty => ?_⟩
    cases same
    exact absurd rfl nonempty
  case list => exact fun each => .of_list each
  case map => exact fun each => .of_map each
  case noArray =>
    intro levels
    exact ⟨Nat.le_add_left 1 levels, Nat.le_add_left 1 levels, nofun⟩
  case array =>
    refine fun _ each => .of_array fun item member => ?_
    obtain ⟨body, _, reached, resolves⟩ := each item member
    exact resolves.elementNesting_le reached
  case described =>
    intro levels descriptor body described reached resolved
    obtain ⟨whole, raw⟩ := Registry.nesting_of_resolve resolved reached
    exact ⟨Nat.succ_le_succ whole, Nat.le_succ_of_le raw, nofun⟩

/-- The canonical encoding of a value needs a level more at most than another encoding. -/
theorem Encoding.nesting_le {bytes : Bytes} {value : Value}
    (encoding : Encoding text levels bytes value) : nesting value ≤ levels + 1 :=
  encoding.reached.whole

end Grammar

end Amqp
