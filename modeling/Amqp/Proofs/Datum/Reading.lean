import Amqp.Datum
import Amqp.Proofs.Sequencing

/-!
# Data are found in the values that they become

Every datum that is never missing is found again in the value it becomes: no conversion into a
value names another kind, another form or another key than the conversion back looks for. What
is found in any value, or why it is refused, is what the view of the value as a type says.

A final state of a delivery is a state of a delivery in either order: the value is read as the
one or as the other.
-/

namespace Amqp

open Decoder (decodeAs decodeDatum decodeValue)

namespace TypedMap

variable {κ ι β γ : Type} [DecidableEq κ] [DecidableEq ι] {rename : κ → ι} {show' : β → γ}

/-- An insertion under other names of the keys. Only that different keys keep different names is
used. -/
theorem insert_map (injective : Function.Injective rename) (key : κ) (value : β)
    (built : List (κ × β)) :
    insert (rename key) (show' value) (built.map (Prod.map rename show')) =
      (insert key value built).map (Prod.map rename show') := by
  induction built with
  | nil => rfl
  | cons pair rest inductionHypothesis =>
    obtain ⟨present, old⟩ := pair
    simp only [List.map_cons, Prod.map, insert, injective.eq_iff]
    split
    · rfl
    · rw [List.map_cons, ← inductionHypothesis]
      rfl

/-- The typed map of some pairs under other names of the keys. The insertions are folded over a
map built so far, so the induction is over all of these. -/
theorem ofPairs_map (injective : Function.Injective rename) (pairs : List (κ × β)) :
    ofPairs (pairs.map (Prod.map rename show')) =
      (ofPairs pairs).map (Prod.map rename show') := by
  have general (built : List (κ × β)) :
      (pairs.map (Prod.map rename show')).foldl (fun built pair => insert pair.1 pair.2 built)
          (built.map (Prod.map rename show')) =
        (pairs.foldl (fun built pair => insert pair.1 pair.2 built) built).map
          (Prod.map rename show') := by
    induction pairs generalizing built with
    | nil => rfl
    | cons pair rest inductionHypothesis =>
      rw [List.map_cons, List.foldl_cons, List.foldl_cons, ← inductionHypothesis,
        ← insert_map injective]
      rfl
  exact general []

end TypedMap

/-- A value is that of its kind that holds what it holds. -/
theorem Value.toValue_content (value : Value) : value.kind.toValue value.content = value := by
  cases value <;> rfl

/-- A key is found in the value it becomes. -/
theorem KeyType.ofValue_toValue {type : KeyType} (key : type.Key) :
    type.ofValue key.toValue = .ok key := by
  rw [KeyType.ofValue, Key.toValue, MapKey.ofValue?_toValue]
  exact dif_pos key.member

/-- A key of a type is known by the key that it is. -/
theorem KeyType.key_injective {type : KeyType} :
    Function.Injective (Key.key : type.Key → MapKey) :=
  fun _ _ => Key.ext

/-- A value is viewed as a key as a key is found in it. -/
theorem KeyType.read_eq_ofValue (type : KeyType) (value : Value) :
    type.read value = (type.ofValue value).map Key.key := by
  unfold KeyType.read KeyType.ofValue
  cases found : MapKey.ofValue? value with
  | none => rfl
  | some key =>
    rw [← MapKey.toValue_of_ofValue? found]
    by_cases member : key.toValue.kind ∈ type.kinds
    · simp only [dif_pos member, if_pos member]
      rfl
    · simp only [dif_neg member, if_neg member]
      rfl

/-- A datum of some kinds is found in the value it becomes. -/
theorem OfKinds.ofValue_toValue {admitted : List Kind} {name : String}
    (datum : OfKinds admitted) :
    OfKinds.ofValue name (datum.kind.toValue datum.content) = .ok datum := by
  obtain ⟨kind, member, content⟩ := datum
  cases kind <;> exact dif_pos member

namespace OfForms

variable {admitted wider : List Form} {name : String}

/-- A datum of some forms is found in the described value it becomes. -/
theorem ofValue_toDescribed (datum : OfForms admitted) :
    OfForms.ofValue name (.described (datum.form.toDescribed datum.body)) = .ok datum := by
  obtain ⟨form, member, body⟩ := datum
  cases form with
  | composite form => exact dif_pos member
  | content part => exact dif_pos member

/-- A value is viewed as one of some forms as the content of one is found in it. A described
value of no known form is refused by both, whatever the forms are. -/
theorem read_eq_ofValue (name : String) (value : Value) :
    (Ty.forms admitted name).read value =
      (OfForms.ofValue name value).map (Ty.forms admitted name).toValue := by
  cases value with
  | described described =>
    cases described with
    | composite form slots =>
      rw [OfForms.ofValue]
      by_cases member : .composite form ∈ admitted
      · rw [dif_pos member]
        exact if_pos member
      · rw [dif_neg member]
        exact if_neg member
    | content part body =>
      rw [OfForms.ofValue]
      by_cases member : .content part ∈ admitted
      · rw [dif_pos member]
        exact if_pos member
      · rw [dif_neg member]
        exact if_neg member
    | unknown => rfl
  | _ => rfl

/-- The content of one of some forms is found as that of one of more. The name of the wider type
may be another one: it only matters for refusals. -/
theorem ofValue_widen {value : Value} {datum : OfForms admitted} (within : admitted ⊆ wider)
    (found : OfForms.ofValue name value = .ok datum) (name : String) :
    OfForms.ofValue name value = .ok (datum.widen within) := by
  cases value with
  | described described =>
    cases described with
    | composite form slots =>
      rw [OfForms.ofValue] at found ⊢
      split at found
      · next member =>
        cases found
        exact dif_pos (within member)
      · cases found
    | content part body =>
      rw [OfForms.ofValue] at found ⊢
      split at found
      · next member =>
        cases found
        exact dif_pos (within member)
      · cases found
    | unknown => cases found
  | _ => cases found

end OfForms

/-- Symbols are found in an array exactly if none of its items is anything else, and otherwise
the first such item is reported. The traversal of the items and the search among them stop at the
same one. -/
theorem Value.mapM_toSymbol (items : List Value) :
    (items.mapM toSymbol).map ofSymbols =
      match items.find? fun item => item.kind ≠ .symbol with
      | some item => .error (item.mismatch "symbol")
      | none => .ok (.array items) := by
  induction items with
  | nil => rfl
  | cons item rest inductionHypothesis =>
    rw [List.mapM_cons]
    cases item with
    | symbol name =>
      rw [List.find?_cons_of_neg (by simp [kind])]
      cases found : rest.mapM toSymbol with
      | error error =>
        rw [found] at inductionHypothesis
        split at inductionHypothesis
        · exact inductionHypothesis
        · cases inductionHypothesis
      | ok names =>
        rw [found] at inductionHypothesis
        split at inductionHypothesis
        · cases inductionHypothesis
        · obtain rfl := array.inj (Except.ok.inj inductionHypothesis)
          rfl
    | _ => rfl

namespace Ty

/-- Whether a type has no data that are missing, so that each of its data has a value of its
own. -/
def isDefinite : Ty → Bool
  | typedMap _ values => values.isDefinite
  | optional _ => false
  | _ => true

/-- A typed map is found in a map entry by entry. -/
theorem ofValue_map {keys : KeyType} {values : Ty} (entries : Entries) :
    (typedMap keys values).ofValue (.map entries) =
      (entries.mapM (keys.pairOfEntry values.ofValue)).map Dictionary.ofPairs := by
  change (do
    let pairs ← entries.mapM (keys.pairOfEntry values.ofValue)
    pure (Dictionary.ofPairs pairs)) = _
  cases entries.mapM (keys.pairOfEntry values.ofValue) <;> rfl

/-- Every datum that is never missing is found in the value it becomes. For a typed map each pair
is found by itself, and since no key is there twice, nothing collapses. -/
theorem ofValue_toValue {type : Ty} (definite : type.isDefinite = true) (datum : type.Datum) :
    type.ofValue (type.toValue datum) = .ok datum := by
  induction type with
  | any => rfl
  | kinds admitted name => exact OfKinds.ofValue_toValue datum
  | symbols => exact mapM_map_of_forall fun _ _ => rfl
  | typedMap keys values inductionHypothesis =>
    obtain ⟨pairs, distinct⟩ := datum
    have found : (pairs.map fun pair => (pair.1.toValue, values.toValue pair.2)).mapM
        (keys.pairOfEntry values.ofValue) = .ok pairs := by
      refine mapM_map_of_forall fun pair _ => ?_
      rw [KeyType.pairOfEntry, KeyType.ofValue_toValue, inductionHypothesis definite]
      rfl
    rw [toValue, ofValue_map, found]
    exact congrArg Except.ok (Dictionary.ext (TypedMap.ofPairs_of_nodup distinct))
  | forms admitted name => exact OfForms.ofValue_toDescribed datum
  | optional => cases definite

/-- A value is viewed as a type as a datum of the type is found in it: what is shown is the value
of the datum, and a refusal is the same. So there is one account of what a type accepts, although
a view never makes a datum. -/
theorem read_eq_ofValue (type : Ty) (value : Value) :
    type.read value = (type.ofValue value).map type.toValue := by
  induction type generalizing value with
  | any => rfl
  | kinds admitted name =>
    rw [read, ofValue, OfKinds.ofValue]
    split
    · exact congrArg Except.ok value.toValue_content.symm
    · rfl
  | symbols =>
    cases value with
    | array items => exact (Value.mapM_toSymbol items).symm
    | _ => rfl
  | typedMap keys values inductionHypothesis =>
    cases value with
    | map entries =>
      have each (entry : Value × Value) : readEntry keys values entry =
          (keys.pairOfEntry values.ofValue entry).map
            (Prod.map KeyType.Key.key values.toValue) := by
        rw [readEntry, KeyType.read_eq_ofValue, inductionHypothesis, KeyType.pairOfEntry]
        cases keys.ofValue entry.1 with
        | error error => rfl
        | ok key => cases values.ofValue entry.2 <;> rfl
      rw [read_map, ofValue_map, mapM_eq_map_mapM fun entry _ => each entry]
      cases entries.mapM (keys.pairOfEntry values.ofValue) with
      | error error => rfl
      | ok pairs =>
        refine congrArg Except.ok (congrArg Value.map ?_)
        rw [TypedMap.ofPairs_map KeyType.key_injective, List.map_map]
        rfl
    | _ => rfl
  | forms admitted name => exact OfForms.read_eq_ofValue name value
  | optional inner inductionHypothesis =>
    have set (value : Value) : (inner.ofValue value).map inner.toValue =
        ((inner.ofValue value).map some).map (optional inner).toValue := by
      cases inner.ofValue value <;> rfl
    cases value with
    | null => rfl
    | _ => exact (inductionHypothesis _).trans (set _)

/-- What a type shows of a value is the value of a datum that is found in it. -/
theorem exists_datum_of_read {type : Ty} {value shown : Value}
    (read : type.read value = .ok shown) :
    ∃ datum, type.ofValue value = .ok datum ∧ type.toValue datum = shown := by
  rw [read_eq_ofValue] at read
  exact map_eq_ok_iff.mp read

end Ty

/-- Reading a value as a type is reading a datum of the type and showing its value. Errors and
what is left in the source are the same too. -/
theorem Decoder.decodeAs_eq_decodeDatum {σ : Type} [Source σ] (settings : DecoderSettings)
    (type : Ty) : (decodeAs settings type : Fetch σ Value) =
      (do return type.toValue (← decodeDatum settings type)) := by
  funext source
  simp only [decodeAs, decodeDatum, Ty.read_eq_ofValue, bind_assoc]
  cases ran : (decodeValue settings : Fetch σ Value) source with
  | error error after => rw [bind_of_error ran, bind_of_error ran]
  | ok value after =>
    rw [bind_of_ok ran, bind_of_ok ran]
    cases type.ofValue value <;> rfl

end Amqp
