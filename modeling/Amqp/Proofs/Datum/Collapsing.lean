import Amqp.Proofs.Datum.Reading
import Mathlib.Data.List.Forall2
import Mathlib.Data.List.Induction
import Mathlib.Data.List.Nodup

/-!
# Typed maps collapse repetitions

A map may name a key twice, and a typed map may not. A key stays where it was first named and has
the value that was named with it last. These two rules and the distinctness of the keys leave one
typed map for any pairs, and it is the one that is made by inserting them one after the other:
if the rules hold of the pairs so far, then they hold with one pair more.

Before that the entries are converted, each key ahead of the value beside it. So an entry that is
not of the types of the map is reported if every entry before it is, also where a later entry
would have replaced its value.

The value of a typed map has nothing left to collapse, and viewed again it is the same map in the
same order. This is asked of maps whose values are never missing, for only those have a value.
-/

namespace Amqp

section Traversals

variable {α β ε : Type} {compute : α → Except ε β} {items : List α}

/-- A traversal succeeds with the results of its items, in their order and as many of them. -/
theorem mapM_eq_ok_iff {results : List β} : items.mapM compute = .ok results ↔
    List.Forall₂ (fun item result => compute item = .ok result) items results := by
  induction items generalizing results with
  | nil =>
    constructor
    · rintro ⟨⟩
      exact .nil
    · rintro ⟨⟩
      rfl
  | cons item rest inductionHypothesis =>
    rw [mapM_cons_eq_ok_iff]
    constructor
    · rintro ⟨result, others, first, later, rfl⟩
      exact .cons first (inductionHypothesis.mp later)
    · rintro (_ | ⟨first, later⟩)
      exact ⟨_, _, first, inductionHypothesis.mpr later, rfl⟩

end Traversals

namespace TypedMap

variable {κ β : Type} [DecidableEq κ] {key : κ} {value : β} {pairs built built' : List (κ × β)}

/-- The last pair of a key tells its value if the pairs are taken from behind. -/
theorem get?_reverse_of_last {before after : List (κ × β)} (last : key ∉ after.map Prod.fst) :
    get? key (before ++ (key, value) :: after).reverse = some value := by
  rw [List.reverse_append, List.reverse_cons, List.append_assoc, get?_append_of_not_mem]
  · exact if_pos rfl
  · simpa using last

/-- How pairs collapse that may name a key twice: no key is left twice, every key is still there,
the keys come as they first came, and each has the value of its last pair. -/
structure Collapses (pairs built : List (κ × β)) : Prop where
  distinct : (built.map Prod.fst).Nodup
  same_keys (key : κ) : key ∈ built.map Prod.fst ↔ key ∈ pairs.map Prod.fst
  first_place : (built.map Prod.fst).Pairwise fun one other =>
    (pairs.map Prod.fst).idxOf one < (pairs.map Prod.fst).idxOf other
  last_value {key : κ} {value : β} : (key, value) ∈ built → ∃ before after,
    pairs = before ++ (key, value) :: after ∧ key ∉ after.map Prod.fst

/-- One pair more collapses into what the others have become by an insertion. Each rule is kept
by itself. The order of the keys is that of their first places among the pairs, and a pair added
behind moves none of these; a new key comes last in both. -/
theorem Collapses.insert (collapses : Collapses pairs built) (key : κ) (value : β) :
    Collapses (pairs ++ [(key, value)]) (insert key value built) where
  distinct := nodup_insert collapses.distinct key value
  same_keys other := by
    have before := collapses.same_keys
    rw [keys_insert, List.map_append, List.mem_append, ← before other]
    split
    · next present =>
      constructor
      · exact .inl
      · rintro (old | new)
        · exact old
        · rwa [List.mem_singleton.mp new]
    · exact List.mem_append
  first_place := by
    -- A key that was named before keeps its first place, whatever is added behind.
    have kept {one : κ} (present : one ∈ built.map Prod.fst) :
        ((pairs ++ [(key, value)]).map Prod.fst).idxOf one = (pairs.map Prod.fst).idxOf one := by
      rw [List.map_append]
      exact List.idxOf_append_of_mem ((collapses.same_keys one).mp present)
    have ordered : (built.map Prod.fst).Pairwise fun one other =>
        ((pairs ++ [(key, value)]).map Prod.fst).idxOf one <
          ((pairs ++ [(key, value)]).map Prod.fst).idxOf other := by
      refine collapses.first_place.imp_of_mem fun present present' before => ?_
      rwa [kept present, kept present']
    rw [keys_insert]
    split
    · exact ordered
    · next fresh =>
      refine List.pairwise_append.mpr ⟨ordered, List.pairwise_singleton _ _, ?_⟩
      intro one present other new
      obtain rfl := List.mem_singleton.mp new
      have absent : other ∉ pairs.map Prod.fst := fun named =>
        fresh ((collapses.same_keys other).mpr named)
      rw [kept present, List.map_append, List.idxOf_append_of_notMem absent]
      have within := List.idxOf_lt_length_of_mem ((collapses.same_keys one).mp present)
      omega
  last_value {other found} member := by
    have here := get?_of_mem (nodup_insert collapses.distinct key value) member
    rw [get?_insert] at here
    by_cases same : key = other
    · rw [if_pos same] at here
      cases here
      exact ⟨pairs, [], by rw [same], List.not_mem_nil⟩
    · have old : (other, found) ∈ built :=
        (mem_insert member).resolve_left fun new => same (congrArg Prod.fst new).symm
      obtain ⟨before, after, rfl, last⟩ := collapses.last_value old
      refine ⟨before, after ++ [(key, value)], by simp, ?_⟩
      simpa [Ne.symm same] using last

/-- Pairs collapse into the typed map of them. -/
theorem collapses_ofPairs (pairs : List (κ × β)) : Collapses pairs (ofPairs pairs) := by
  induction pairs using List.reverseRecOn with
  | nil => exact ⟨.nil, fun _ => .rfl, .nil, nofun⟩
  | append_singleton pairs pair inductionHypothesis =>
    have last : ofPairs (pairs ++ [pair]) = TypedMap.insert pair.1 pair.2 (ofPairs pairs) :=
      List.foldl_append ..
    rw [last]
    exact inductionHypothesis.insert pair.1 pair.2

/-- The pairs that some pairs collapse into are found in whatever else they collapse into. The
key of such a pair is a key of both, and the last pair of that key decides its value in both. -/
theorem Collapses.mem_of_mem (collapses : Collapses pairs built)
    (collapses' : Collapses pairs built') {pair : κ × β} (member : pair ∈ built) :
    pair ∈ built' := by
  obtain ⟨key, value⟩ := pair
  have named := (collapses.same_keys key).mp (List.mem_map_of_mem member)
  obtain ⟨⟨key', value'⟩, member', same⟩ := List.mem_map.mp ((collapses'.same_keys key).mpr named)
  obtain rfl : key' = key := same
  obtain ⟨before, after, whole, last⟩ := collapses.last_value member
  obtain ⟨before', after', whole', last'⟩ := collapses'.last_value member'
  have found : get? key' pairs.reverse = some value := whole ▸ get?_reverse_of_last last
  have found' : get? key' pairs.reverse = some value' := whole' ▸ get?_reverse_of_last last'
  obtain rfl := Option.some.inj (found.symm.trans found')
  exact member'

/-- Pairs collapse into one typed map only. Keys, their order and the value of each are all
settled by the pairs. -/
theorem Collapses.unique (collapses : Collapses pairs built)
    (collapses' : Collapses pairs built') : built = built' := by
  have same : built.Perm built' :=
    (List.perm_ext_iff_of_nodup (.of_map _ collapses.distinct)
      (.of_map _ collapses'.distinct)).mpr
      fun _ => ⟨collapses.mem_of_mem collapses', collapses'.mem_of_mem collapses⟩
  have ordered := List.pairwise_map.mp collapses.first_place
  have ordered' := List.pairwise_map.mp collapses'.first_place
  exact same.eq_of_pairwise (fun _ _ _ _ less greater => absurd less (Nat.lt_asymm greater))
    ordered ordered'

end TypedMap

namespace KeyType

variable {β : Type} {type : KeyType} {find : Value → Except Error β} {entry : Value × Value}

/-- An entry makes a pair if a key is found in its key and something in the value beside it. -/
theorem pairOfEntry_eq_ok_iff {pair : type.Key × β} : type.pairOfEntry find entry = .ok pair ↔
    type.ofValue entry.1 = .ok pair.1 ∧ find entry.2 = .ok pair.2 := pair_eq_ok_iff

/-- An entry is refused for its key, or for its value beside a key that is found. -/
theorem pairOfEntry_eq_error_iff {error : Error} : type.pairOfEntry find entry = .error error ↔
    type.ofValue entry.1 = .error error ∨
      (∃ key, type.ofValue entry.1 = .ok key) ∧ find entry.2 = .error error := pair_eq_error_iff

/-- An entry makes a pair exactly if both of its sides are of their types. -/
theorem exists_pairOfEntry_eq_ok_iff : (∃ pair, type.pairOfEntry find entry = .ok pair) ↔
    (∃ key, type.ofValue entry.1 = .ok key) ∧ ∃ found, find entry.2 = .ok found := by
  simp only [pairOfEntry_eq_ok_iff]
  exact ⟨fun ⟨pair, key, found⟩ => ⟨⟨_, key⟩, _, found⟩,
    fun ⟨⟨key, first⟩, found, second⟩ => ⟨(key, found), first, second⟩⟩

end KeyType

namespace Ty

variable {keys : KeyType} {values : Ty} {entries : Entries}

/-- Both sides of an entry are of the types of a map. -/
def Fits (keys : KeyType) (values : Ty) (entry : Value × Value) : Prop :=
  (∃ key, keys.ofValue entry.1 = .ok key) ∧ ∃ found, values.ofValue entry.2 = .ok found

/-- An entry becomes a pair of a typed map. -/
def Becomes (keys : KeyType) (values : Ty) (entry : Value × Value)
    (pair : keys.Key × values.Datum) : Prop :=
  keys.ofValue entry.1 = .ok pair.1 ∧ values.ofValue entry.2 = .ok pair.2

/-- A typed map is found in some entries as the map into which the pairs collapse that they
become. The rules of collapsing leave only one map, so the one made by insertions is the one that
they describe. -/
theorem ofValue_map_eq_ok_iff {datum : (typedMap keys values).Datum} :
    (typedMap keys values).ofValue (.map entries) = .ok datum ↔
      ∃ pairs, List.Forall₂ (Becomes keys values) entries pairs ∧
        TypedMap.Collapses pairs datum.pairs := by
  have each (entry : Value × Value) (pair : keys.Key × values.Datum) :
      keys.pairOfEntry values.ofValue entry = .ok pair ↔ Becomes keys values entry pair :=
    KeyType.pairOfEntry_eq_ok_iff
  rw [ofValue_map, map_eq_ok_iff]
  constructor
  · rintro ⟨pairs, found, rfl⟩
    exact ⟨pairs, (mapM_eq_ok_iff.mp found).imp fun _ _ => (each _ _).mp,
      TypedMap.collapses_ofPairs pairs⟩
  · rintro ⟨pairs, become, collapses⟩
    exact ⟨pairs, mapM_eq_ok_iff.mpr (become.imp fun _ _ => (each _ _).mpr),
      Dictionary.ext ((TypedMap.collapses_ofPairs pairs).unique collapses)⟩

end Ty

open Ty (Becomes Fits)

/-- Typed maps collapse repetitions. A typed map is found in a map exactly if both sides of every
entry are of its types, and otherwise the first entry that fails is reported, for its key before
its value. The typed map that is found has the keys of the entries in the order in which they
first came, none of them twice, and each with its last value. The value of a typed map is viewed
as the same map in the same order.

Proof: The entries are traversed from the front before any two of them are compared, which gives
the first two parts. The rules of collapsing hold of no pairs, are kept by inserting one more,
and leave only one result; so they describe what the insertions make. A map without repetitions
collapses into itself. -/
theorem typedMap_collapses (keys : KeyType) (values : Ty) (entries : Entries) :
    ((∃ datum, (Ty.typedMap keys values).ofValue (.map entries) = .ok datum) ↔
      ∀ entry ∈ entries, Fits keys values entry) ∧
    (∀ error, (Ty.typedMap keys values).ofValue (.map entries) = .error error ↔
      ∃ before entry after, entries = before ++ entry :: after ∧
        (∀ earlier ∈ before, Fits keys values earlier) ∧
        (keys.ofValue entry.1 = .error error ∨
          (∃ key, keys.ofValue entry.1 = .ok key) ∧ values.ofValue entry.2 = .error error)) ∧
    ∀ datum, (Ty.typedMap keys values).ofValue (.map entries) = .ok datum →
      (∃ pairs, List.Forall₂ (Becomes keys values) entries pairs ∧
        TypedMap.Collapses pairs datum.pairs) ∧
      (values.isDefinite = true → (Ty.typedMap keys values).ofValue
        ((Ty.typedMap keys values).toValue datum) = .ok datum) := by
  have accepted (entry : Value × Value) :
      (∃ pair, keys.pairOfEntry values.ofValue entry = .ok pair) ↔ Fits keys values entry :=
    KeyType.exists_pairOfEntry_eq_ok_iff
  refine ⟨?_, fun error => ?_, fun datum found => ⟨Ty.ofValue_map_eq_ok_iff.mp found, ?_⟩⟩
  · simp only [← accepted, ← exists_mapM_eq_ok_iff, Ty.ofValue_map]
    simp only [map_eq_ok_iff]
    exact ⟨fun ⟨_, pairs, ran, _⟩ => ⟨pairs, ran⟩, fun ⟨pairs, ran⟩ => ⟨_, pairs, ran, rfl⟩⟩
  · simp only [← accepted, ← KeyType.pairOfEntry_eq_error_iff, ← mapM_eq_error_iff, Ty.ofValue_map]
    exact map_eq_error_iff
  · exact fun definite =>
      @Ty.ofValue_toValue (.typedMap keys values) definite datum

/-- Of annotations that name a symbol again behind a number, the symbol stays ahead of the number
and has the later value. Viewed again they are the same. -/
theorem typedMap_collapses_annotations :
    let entries : Entries := [(.symbol "a", .uint 1), (.ulong 7, .uint 2), (.symbol "a", .uint 3)]
    let datum : Ty.annotations.Datum :=
      ⟨[(⟨.symbol "a", by decide⟩, .uint 3), (⟨.ulong 7, by decide⟩, .uint 2)], by decide⟩
    Ty.annotations.ofValue (.map entries) = .ok datum ∧
      (∃ pairs, List.Forall₂ (Becomes .annotationKey .any) entries pairs ∧
        TypedMap.Collapses pairs datum.pairs) ∧
      Ty.annotations.ofValue (Ty.annotations.toValue datum) = .ok datum := by
  intro entries datum
  have found : Ty.annotations.ofValue (.map entries) = .ok datum := rfl
  obtain ⟨collapses, again⟩ := (typedMap_collapses .annotationKey .any entries).2.2 datum found
  exact ⟨found, collapses, again rfl⟩

end Amqp
