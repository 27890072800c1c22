import Amqp.Proofs.Decoder.Consumption
import Amqp.Proofs.Decoder.Nesting

/-!
# How deep containers lie in each other

Reading goes one level down for a list, an array or a map that holds anything, and for a
described value. An array does not go down again for each of its elements if they are
described, because it names their descriptor once. The depth of a value is the greatest number of
such containers on a path from the value to one of its parts. Within some levels no deeper value
is read, whatever the source and its state.
-/

namespace Amqp

mutual

/-- The depth of a value, which is or is not an element of an array. -/
def Value.depth (element : Bool) : Value → Nat
  | .list items => if items.isEmpty then 0 else depths false items + 1
  | .map entries => entryDepths entries + 1
  | .array items => if items.isEmpty then 0 else depths true items + 1
  | .described contained => if element then contained.depth else contained.depth + 1
  | _ => 0
termination_by structural value => value

/-- The depth of what a described value contains. -/
def Described.depth : Described → Nat
  | .composite _ slots => depths false slots
  | .content _ body => body.depth false
  | .unknown _ body => body.depth false
termination_by structural contained => contained

/-- The depth of the deepest of some values, which are or are not elements of an array. -/
def depths (element : Bool) : List Value → Nat
  | [] => 0
  | item :: rest => max (item.depth element) (depths element rest)
termination_by structural items => items

/-- The depth of the deepest of some keys and values. -/
def entryDepths : Entries → Nat
  | [] => 0
  | (key, value) :: rest => max (max (key.depth false) (value.depth false)) (entryDepths rest)
termination_by structural entries => entries

end

section Types

/-- As an element of an array a value is no deeper. -/
theorem Value.depth_element_le (value : Value) : value.depth true ≤ value.depth false := by
  cases value with
  | described contained => exact Nat.le_succ _
  | _ => exact Nat.le_refl _

/-- Values have the depth of the deepest of them. -/
theorem maxOver_depths (element : Bool) : MaxOver (Value.depth element) (depths element) :=
  ⟨rfl, fun _ _ => rfl⟩

/-- Entries have the depth of the deepest key or value. -/
theorem maxOver_entryDepths :
    MaxOver (fun entry => max (entry.1.depth false) (entry.2.depth false)) entryDepths :=
  ⟨rfl, fun _ _ => rfl⟩

/-- Values are no deeper together than each of them. -/
theorem depths_le {element : Bool} {items : List Value} {levels : Nat}
    (each : ∀ item ∈ items, item.depth element ≤ levels) : depths element items ≤ levels :=
  (maxOver_depths element).le_iff.mpr each

/-- Keys and values are no deeper together than each of them. -/
theorem entryDepths_le {entries : Entries} {levels : Nat}
    (each : ∀ entry ∈ entries, entry.1.depth false ≤ levels ∧ entry.2.depth false ≤ levels) :
    entryDepths entries ≤ levels :=
  maxOver_entryDepths.le_iff.mpr fun entry member => Nat.max_le.mpr (each entry member)

/-- A key and a value are no deeper than the entries that they are among. -/
theorem Value.depth_le_entryDepths {entries : Entries} {entry : Value × Value}
    (member : entry ∈ entries) :
    entry.1.depth false ≤ entryDepths entries ∧ entry.2.depth false ≤ entryDepths entries :=
  Nat.max_le.mp (maxOver_entryDepths.le_of_mem member)

/-- What a flat type makes of a value is no deeper, unless it is a list of one symbol, which was
a symbol before. -/
theorem Value.ReadAs.depth_le {value shown : Value} (made : value.ReadAs shown) :
    shown.depth false ≤ value.depth false ∨
      ∃ name, value = .symbol name ∧ shown = .array [.symbol name] := by
  cases made with
  | same => exact .inl (Nat.le_refl _)
  | single name => exact .inr ⟨name, rfl, rfl⟩
  | typedMap pairs =>
    refine .inl (Nat.succ_le_succ (entryDepths_le fun entry member => ?_))
    obtain ⟨pair, listed, rfl⟩ := List.mem_map.mp member
    exact Value.depth_le_entryDepths (List.mem_map_of_mem (TypedMap.mem_ofPairs listed))

/-- The slots that are made of some values are no deeper than the list of these values. A list of
symbols that is made of a single symbol is deeper than the symbol, but not than the list of
fields that the symbol stood in. -/
theorem Field.depth_le_of_readAll {fields : List Field} {values slots : List Value}
    (flat : ∀ field ∈ fields, field.type.isFlat = true)
    (read : Field.readAll fields values = .ok slots) {slot : Value} (member : slot ∈ slots) :
    slot.depth false ≤ (Value.list values).depth false := by
  induction fields generalizing values slots with
  | nil =>
    cases read
    cases member
  | cons field fields inductionHypothesis =>
    obtain ⟨first, later, rfl, shown, others⟩ := Field.readAll_cons_eq_ok_iff.mp read
    obtain ⟨here, further⟩ := List.forall_mem_cons.mp flat
    rcases List.mem_cons.mp member with rfl | member
    · rcases Field.cases_of_read shown with ⟨_, rfl⟩ | ⟨set, made⟩
      · exact Nat.zero_le _
      · cases values with
        | nil => exact absurd rfl set
        | cons value rest =>
          change slot.depth false ≤ max (value.depth false) (depths false rest) + 1
          rcases (Ty.readAs_of_read here made).depth_le with less | ⟨name, _, rfl⟩
          · change slot.depth false ≤ value.depth false at less
            omega
          · exact Nat.le_add_left 1 _
    · have bound := inductionHypothesis further others member
      cases values with
      | nil => exact bound
      | cons value rest =>
        refine Nat.le_trans bound ?_
        cases rest with
        | nil => exact Nat.zero_le _
        | cons next rest => exact Nat.succ_le_succ (Nat.le_max_right _ _)

/-- A described value that is found in the registry contains nothing deeper than its body. Fields
and contents are of flat types, so what they are read as is no deeper than it was. -/
theorem Registry.depth_of_resolve {descriptor : Descriptor} {body : Value} {described : Described}
    (resolved : Registry.standard.resolve descriptor body = .ok described) :
    described.depth ≤ body.depth false := by
  rcases Registry.resolve_eq_ok_iff.mp resolved with ⟨_, rfl⟩ |
    ⟨form, values, slots, _, rfl, read, rfl⟩ | ⟨portion, content, _, read, rfl⟩
  · exact Nat.le_refl _
  · exact depths_le fun slot => Field.depth_le_of_readAll (fun _ => Composite.isFlat_of_mem) read
  · have flat : portion.type.isFlat = true := by cases portion <;> rfl
    have kept := Section.kind_of_read read
    rcases (Ty.readAs_of_read flat read).depth_le with less | ⟨name, rfl, rfl⟩
    · exact less
    · cases kept

end Types

namespace Grammar

variable {text : TextDecoder} {levels : Nat}

/-- A list is at most one level deeper than its items. -/
theorem depth_list_le {items : List Value} (each : ∀ item ∈ items, item.depth false ≤ levels) :
    (Value.list items).depth false ≤ levels + 1 := by
  have bound := depths_le each
  rw [Value.depth]
  split <;> omega

/-- An array is at most one level deeper than its elements. -/
theorem depth_array_le {items : List Value} (each : ∀ item ∈ items, item.depth true ≤ levels) :
    (Value.array items).depth false ≤ levels + 1 := by
  have bound := depths_le each
  rw [Value.depth]
  split <;> omega

/-- The element that a body makes behind the shared descriptor is no deeper than the body. -/
theorem Resolves.depth_le {descriptor : Option Descriptor} {body value : Value}
    (resolves : Resolves descriptor body value) : value.depth true ≤ body.depth false := by
  cases descriptor with
  | none =>
    obtain rfl : value = body := resolves
    exact value.depth_element_le
  | some descriptor =>
    obtain ⟨described, resolved, rfl⟩ := resolves
    exact Registry.depth_of_resolve resolved

/-- A value that is encoded within some levels is no deeper. Induction is on the payloads of the
grammar. A described value is one level deeper than its body, and what the registry makes of the
body is no deeper than it. -/
theorem Encoding.depth_le {bytes : Bytes} {value : Value}
    (encoding : Encoding text levels bytes value) : value.depth false ≤ levels := by
  obtain ⟨_, _, _, word⟩ := encoding
  refine @payload_induction text levels (fun levels value => value.depth false ≤ levels)
    ?simple ?noList ?list ?map ?noArray ?array ?described _ _ value word
  case simple =>
    intro levels value simple
    cases value <;> first | exact Nat.zero_le _ | cases simple
  case noList => exact Nat.zero_le _
  case list => exact fun each => depth_list_le each
  case map => exact fun each => Nat.succ_le_succ (entryDepths_le each)
  case noArray => exact Nat.zero_le _
  case array =>
    refine fun _ each => depth_array_le fun item member => ?_
    obtain ⟨body, _, shallow, resolves⟩ := each item member
    exact Nat.le_trans resolves.depth_le shallow
  case described =>
    exact fun shallow resolved =>
      Nat.succ_le_succ (Nat.le_trans (Registry.depth_of_resolve resolved) shallow)

end Grammar

end Amqp
