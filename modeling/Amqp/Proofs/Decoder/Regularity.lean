import Amqp.Proofs.Canonical.Slots
import Amqp.Proofs.Decoder.Acceptance

/-!
# Values that are read are regular

Whatever a reader makes of bytes, the slots and contents of its described values are of their
types, a described value of no known form has a descriptor of none, and the elements of an
array are of one kind. Types may change what they read, but only to what they would read
again, so all of this is kept.

The induction is on the payloads of the grammar, inside an induction on the levels.
-/

namespace Amqp

namespace Value

/-- A value as a reader makes it. -/
structure Regular (value : Value) : Prop extends Plain value where
  uniform : value.Uniform

/-- A value that contains no values is regular. -/
theorem regular_of_isSimple {value : Value} (simple : value.isSimple = true) :
    value.Everywhere Regular := by
  refine .of_simple simple ⟨(plain_of_isSimple simple).here, ?_⟩
  cases value <;> trivial

/-- A list of regular values is regular. -/
theorem regular_list {items : List Value} (each : ∀ item ∈ items, item.Everywhere Regular) :
    (list items).Everywhere Regular := .of_list ⟨⟨trivial, trivial⟩, trivial⟩ each

/-- A map of regular keys and values is regular. -/
theorem regular_map {entries : Entries}
    (each : ∀ entry ∈ entries, entry.1.Everywhere Regular ∧ entry.2.Everywhere Regular) :
    (map entries).Everywhere Regular := .of_map ⟨⟨trivial, trivial⟩, trivial⟩ each

end Value

open Value (Regular)

section Types

/-- A map that is read as a typed map is a map of shown keys and of values that were read. -/
theorem Ty.exists_of_read_typedMap {keys : KeyType} {values : Ty} {value shown : Value}
    (read : (typedMap keys values).read value = .ok shown) :
    ∃ (entries : Entries) (pairs : List (MapKey × Value)), value = .map entries ∧
      shown = .map (pairs.map fun pair => (pair.1.toValue, pair.2)) ∧
      ∀ pair ∈ pairs, ∃ entry ∈ entries, values.read entry.2 = .ok pair.2 := by
  obtain ⟨entries, pairs, rfl, ran, rfl⟩ := read_typedMap_eq_ok_iff.mp read
  refine ⟨entries, TypedMap.ofPairs pairs, rfl, rfl, fun pair member => ?_⟩
  obtain ⟨entry, found, computed⟩ := exists_of_mapM ran (TypedMap.mem_ofPairs member)
  exact ⟨entry, found, (readEntry_eq_ok_iff.mp computed).2⟩

/-- What a type makes of a regular value is regular. New values only come from a single symbol,
as a list of one, and from a map, as its entries without repetitions; the induction is on the
type because an optional type or the values of a typed map may do either. -/
theorem Ty.regular_of_read {type : Ty} {value shown : Value} (read : type.read value = .ok shown)
    (regular : value.Everywhere Regular) : shown.Everywhere Regular := by
  induction type generalizing value shown with
  | any => cases read; exact regular
  | kinds admitted name =>
    obtain ⟨_, rfl⟩ := read_kinds_eq_ok_iff.mp read
    exact regular
  | symbols =>
    rcases read_symbols_eq_ok_iff.mp read with ⟨name, rfl, rfl⟩ | ⟨items, rfl, _, rfl⟩
    · refine .of_array ⟨⟨trivial, trivial⟩, none, .symbol, by decide, ?_⟩ ?_
      · exact List.forall_mem_singleton.mpr ⟨rfl, rfl⟩
      · exact List.forall_mem_singleton.mpr (Value.regular_of_isSimple rfl)
    · exact regular
  | typedMap keys values inductionHypothesis =>
    obtain ⟨entries, pairs, rfl, rfl, each⟩ := exists_of_read_typedMap read
    apply Value.regular_map
    intro entry member
    obtain ⟨pair, listed, rfl⟩ := List.mem_map.mp member
    obtain ⟨entry, found, shown⟩ := each pair listed
    exact ⟨Value.regular_of_isSimple (MapKey.isSimple_toValue pair.1),
      inductionHypothesis shown (regular.mapped found)⟩
  | forms admitted name =>
    obtain ⟨rfl, _⟩ := read_forms_eq_ok_iff.mp read
    exact regular
  | optional inner inductionHypothesis =>
    rcases read_optional_eq_ok_iff.mp read with ⟨rfl, rfl⟩ | ⟨_, inside⟩
    · exact regular
    · exact inductionHypothesis inside regular

/-- The content of a section keeps its kind when it is read. A section is a map, a list, a binary
or any value, and of these only a map is changed, into a map. -/
theorem Section.kind_of_read {portion : Section} {value shown : Value}
    (read : portion.type.read value = .ok shown) : shown.kind = value.kind := by
  have typed (keys : KeyType) (values : Ty)
      (read : (Ty.typedMap keys values).read value = .ok shown) : shown.kind = value.kind := by
    obtain ⟨entries, pairs, rfl, rfl, _⟩ := Ty.exists_of_read_typedMap read
    rfl
  have same (admitted : List Kind) (name : String)
      (read : (Ty.kinds admitted name).read value = .ok shown) : shown.kind = value.kind := by
    obtain ⟨_, rfl⟩ := Ty.read_kinds_eq_ok_iff.mp read
    rfl
  cases portion with
  | deliveryAnnotations | messageAnnotations | applicationProperties | footer =>
    exact typed _ _ read
  | data | amqpSequence => exact same _ _ read
  | amqpValue => cases read; rfl

end Types

section Fields

variable {field : Field} {fields : List Field} {value slot : Value} {values slots : List Value}

/-- What a field makes of a value is of the field. -/
theorem Field.read_read (read : field.read value = .ok slot) : field.read slot = .ok slot := by
  by_cases unset : slot = .null
  · subst unset
    rfl
  · rcases Field.cases_of_read read with ⟨_, null⟩ | ⟨_, shown⟩
    · exact absurd null unset
    · rw [read_of_ne_null unset, Ty.read_read shown]
      rfl

/-- What a field makes of a regular value is regular. -/
theorem Field.regular_of_read (read : field.read value = .ok slot)
    (regular : value.Everywhere Regular) : slot.Everywhere Regular := by
  rcases Field.cases_of_read read with ⟨rfl, rfl⟩ | ⟨_, shown⟩
  · exact regular
  · exact Ty.regular_of_read shown regular

/-- The slots that are made of regular values are of their fields, and regular. That they are of
their fields means that reading them again changes nothing, which is what writing relies on. -/
theorem Field.regular_of_readAll (read : Field.readAll fields values = .ok slots)
    (regular : ∀ value ∈ values, value.Everywhere Regular) :
    Field.readAll fields slots = .ok slots ∧ ∀ slot ∈ slots, slot.Everywhere Regular := by
  induction fields generalizing values slots with
  | nil =>
    cases read
    exact ⟨rfl, nofun⟩
  | cons field fields inductionHypothesis =>
    obtain ⟨slot, later, rfl, shown, others⟩ := Field.readAll_cons_eq_ok_iff.mp read
    have first : (values.headD .null).Everywhere Regular := by
      cases values with
      | nil => exact Value.regular_of_isSimple rfl
      | cons value rest => exact regular value List.mem_cons_self
    obtain ⟨typed, each⟩ := inductionHypothesis others fun value member =>
      regular value (List.mem_of_mem_tail member)
    exact ⟨Field.readAll_of_cons (Field.read_read shown) typed,
      List.forall_mem_cons.mpr ⟨Field.regular_of_read shown first, each⟩⟩

end Fields

section Resolution

variable {descriptor : Descriptor} {body : Value} {described : Described}

/-- A described value that is found in the registry is regular. -/
theorem Registry.regular_of_resolve
    (resolved : Registry.standard.resolve descriptor body = .ok described)
    (regular : body.Everywhere Regular) : (Value.described described).Everywhere Regular := by
  rcases Registry.resolve_eq_ok_iff.mp resolved with ⟨unknown, rfl⟩ |
    ⟨form, values, slots, _, rfl, read, rfl⟩ | ⟨portion, content, _, read, rfl⟩
  · exact .of_unknown ⟨⟨trivial, unknown⟩, trivial⟩ regular
  · obtain ⟨typed, each⟩ := Field.regular_of_readAll read fun _ => regular.item
    exact .of_described ⟨⟨typed, trivial⟩, trivial⟩ each
  · exact .of_content ⟨⟨Ty.read_read read, trivial⟩, trivial⟩ (Ty.regular_of_read read regular)

/-- The descriptor that a described value is shown with: that of the form which a descriptor
belongs to, or the descriptor itself. -/
def Registry.shown (descriptor : Descriptor) : Descriptor :=
  match Registry.standard.find? descriptor with
  | some form => .ofForm form
  | none => descriptor

/-- A described value that is found in the registry is shown with the descriptor of its form,
and its raw body is of the kind of the body that was read. -/
theorem Registry.shape_of_resolve
    (resolved : Registry.standard.resolve descriptor body = .ok described) :
    described.descriptor = Registry.shown descriptor ∧ described.rawBody.kind = body.kind := by
  unfold Registry.shown
  rcases Registry.resolve_eq_ok_iff.mp resolved with ⟨known, rfl⟩ |
    ⟨form, values, slots, known, rfl, _, rfl⟩ | ⟨portion, content, known, read, rfl⟩
  · rw [known]
    exact ⟨rfl, rfl⟩
  · rw [known]
    exact ⟨rfl, rfl⟩
  · rw [known]
    exact ⟨rfl, Section.kind_of_read read⟩

end Resolution

namespace Grammar

/-- Elements that are made of regular bodies of one kind are regular, and so is their array. What
the elements share is the descriptor that they are shown with and the kind of their raw bodies;
both are fixed by the shared constructor and descriptor, whatever the bodies are. -/
theorem regular_array {items : List Value} {descriptor : Option Descriptor} {kind : Kind}
    (plain : kind ≠ .described) (each : ∀ item ∈ items, ∃ body : Value, body.kind = kind ∧
      body.Everywhere Regular ∧ Resolves descriptor body item) :
    (Value.array items).Everywhere Regular := by
  have shapes (item : Value) (member : item ∈ items) : item.Everywhere Regular ∧
      item.label? = descriptor.map Registry.shown ∧ item.bare.kind = kind := by
    obtain ⟨body, same, regular, resolves⟩ := each item member
    cases descriptor with
    | none =>
      obtain rfl : item = body := resolves
      refine ⟨regular, ?_⟩
      cases item with
      | described described => exact absurd same.symm plain
      | _ => exact ⟨rfl, same⟩
    | some descriptor =>
      obtain ⟨described, resolved, rfl⟩ := resolves
      obtain ⟨label, bodyKind⟩ := Registry.shape_of_resolve resolved
      exact ⟨Registry.regular_of_resolve resolved regular, congrArg some label,
        bodyKind.trans same⟩
  exact .of_array ⟨⟨trivial, trivial⟩, _, kind, plain, fun item member =>
    (shapes item member).2⟩ fun item member => (shapes item member).1

/-- A value that is encoded within any levels is regular. The induction is on the payloads of the
grammar, and each case is the lemma of its kind of value, of which the levels are no part. -/
theorem Encoding.regular {text : TextDecoder} {levels : Nat} {bytes : Bytes} {value : Value}
    (encoding : Encoding text levels bytes value) : value.Everywhere Regular := by
  obtain ⟨_, _, _, word⟩ := encoding
  refine @payload_induction text levels (fun _ value => value.Everywhere Regular)
    ?simple ?noList ?list ?map ?noArray ?array ?described _ _ value word
  case simple => exact fun simple => Value.regular_of_isSimple simple
  case noList => exact Value.regular_list nofun
  case list => exact fun each => Value.regular_list each
  case map => exact fun each => Value.regular_map each
  case noArray => exact .of_array ⟨⟨trivial, trivial⟩, none, .boolean, by decide, nofun⟩ nofun
  case array => exact fun plain each => regular_array plain each
  case described => exact fun regular resolved => Registry.regular_of_resolve resolved regular

end Grammar

/-- Every value that is read is regular. -/
theorem Decoder.regular_of_decodeValue {σ : Type} [Source σ] [Source.Lawful σ]
    {settings : DecoderSettings} {source after : σ} {rest : Bytes} {taken : Nat} {value : Value}
    (faces : Source.Lawful.Facing source rest taken)
    (ran : decodeValue settings source = .ok value after) : value.Everywhere Regular := by
  obtain ⟨_, _, _, encoding, _⟩ := (parsesFrom_decodeValue settings).sound faces ran
  exact encoding.regular

end Amqp
