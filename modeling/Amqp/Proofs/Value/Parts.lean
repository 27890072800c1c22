import Amqp.Value.View

/-!
# The parts of a value

A value is a part of itself, and so is whatever is contained in it at any depth: the
items of a list, the keys and values of a map, the elements of an array, the slots of a
composite, the content of a section, and the body of a described value of no known form.
A property of every part is how a value is required to be sound throughout.

Values are proved about by one induction, whose cases are the ways of containing values. The
forms of a described value are one of them, because most proofs treat a slot, a content and a
body alike.
-/

namespace Amqp

/-- A number of some things together, found by recursion on the list of them, that is the greatest
of the numbers of each. Nestings and depths are such. -/
structure MaxOver {α : Type} (each : α → Nat) (together : List α → Nat) : Prop where
  nil : together [] = 0
  cons (item : α) (rest : List α) : together (item :: rest) = max (each item) (together rest)

section MaxOver

variable {α : Type} {each : α → Nat} {together : List α → Nat} (most : MaxOver each together)
  {items : List α}

include most

/-- The greatest of some numbers is within a bound if each of them is. -/
theorem MaxOver.le_iff {bound : Nat} :
    together items ≤ bound ↔ ∀ item ∈ items, each item ≤ bound := by
  induction items with
  | nil => simp [most.nil]
  | cons item rest inductionHypothesis =>
    rw [most.cons, Nat.max_le, inductionHypothesis, List.forall_mem_cons]

/-- None of some numbers is more than the greatest of them. -/
theorem MaxOver.le_of_mem {item : α} (member : item ∈ items) : each item ≤ together items :=
  most.le_iff.mp (Nat.le_refl _) item member

end MaxOver

/-- What a described value contains: its slots, its content or its body. -/
def Described.contents : Described → List Value
  | composite _ slots => slots
  | content _ body => [body]
  | unknown _ body => [body]

namespace Value

/-- The parts of a value, itself included. -/
inductive Part (part : Value) : Value → Prop
  | whole : Part part part
  | item {items : List Value} {item : Value} (member : item ∈ items) (inside : Part part item) :
      Part part (.list items)
  | key {entries : Entries} {entry : Value × Value} (member : entry ∈ entries)
      (inside : Part part entry.1) : Part part (.map entries)
  | mapped {entries : Entries} {entry : Value × Value} (member : entry ∈ entries)
      (inside : Part part entry.2) : Part part (.map entries)
  | element {items : List Value} {item : Value} (member : item ∈ items)
      (inside : Part part item) : Part part (.array items)
  | slot {form : Composite} {slots : List Value} {slot : Value} (member : slot ∈ slots)
      (inside : Part part slot) : Part part (.described (.composite form slots))
  | content {portion : Section} {body : Value} (inside : Part part body) :
      Part part (.described (.content portion body))
  | body {descriptor : Descriptor} {body : Value} (inside : Part part body) :
      Part part (.described (.unknown descriptor body))

/-- A part of a part is a part. The induction is on how the middle lies in the whole. -/
theorem Part.trans {part middle value : Value} (inside : Part part middle)
    (further : Part middle value) : Part part value := by
  induction further with
  | whole => exact inside
  | item member _ inductionHypothesis => exact .item member inductionHypothesis
  | key member _ inductionHypothesis => exact .key member inductionHypothesis
  | mapped member _ inductionHypothesis => exact .mapped member inductionHypothesis
  | element member _ inductionHypothesis => exact .element member inductionHypothesis
  | slot member _ inductionHypothesis => exact .slot member inductionHypothesis
  | content _ inductionHypothesis => exact .content inductionHypothesis
  | body _ inductionHypothesis => exact .body inductionHypothesis

/-- A property of every part of a value. -/
def Everywhere (property : Value → Prop) (value : Value) : Prop :=
  ∀ part, Part part value → property part

section Everywhere

variable {property : Value → Prop}

/-- What holds everywhere in a value holds of the value. -/
theorem Everywhere.here {value : Value} (throughout : value.Everywhere property) :
    property value := throughout value .whole

/-- What holds everywhere in a list holds everywhere in its items. -/
theorem Everywhere.item {items : List Value} (throughout : (list items).Everywhere property)
    {item : Value} (member : item ∈ items) : item.Everywhere property :=
  fun part inside => throughout part (.item member inside)

/-- What holds everywhere in an array holds everywhere in its elements. -/
theorem Everywhere.element {items : List Value} (throughout : (array items).Everywhere property)
    {item : Value} (member : item ∈ items) : item.Everywhere property :=
  fun part inside => throughout part (.element member inside)

/-- What holds everywhere in a map holds everywhere in its keys. -/
theorem Everywhere.key {entries : Entries} (throughout : (map entries).Everywhere property)
    {entry : Value × Value} (member : entry ∈ entries) : entry.1.Everywhere property :=
  fun part inside => throughout part (.key member inside)

/-- What holds everywhere in a map holds everywhere in its values. -/
theorem Everywhere.mapped {entries : Entries} (throughout : (map entries).Everywhere property)
    {entry : Value × Value} (member : entry ∈ entries) : entry.2.Everywhere property :=
  fun part inside => throughout part (.mapped member inside)

/-- What holds everywhere in a described value holds everywhere in what it contains, be it slots,
a content or a body. -/
theorem Everywhere.contents {contained : Described}
    (throughout : (described contained).Everywhere property) {value : Value}
    (member : value ∈ contained.contents) : value.Everywhere property := by
  intro part inside
  cases contained with
  | composite form slots => exact throughout part (.slot member inside)
  | content portion body =>
    obtain rfl := List.mem_singleton.mp member
    exact throughout part (.content inside)
  | unknown descriptor body =>
    obtain rfl := List.mem_singleton.mp member
    exact throughout part (.body inside)

/-- What holds of a list and everywhere in its items holds everywhere in it. -/
theorem Everywhere.of_list {items : List Value} (here : property (list items))
    (each : ∀ item ∈ items, item.Everywhere property) : (list items).Everywhere property := by
  intro part inside
  cases inside with
  | whole => exact here
  | item member inside => exact each _ member part inside

/-- What holds of a map and everywhere in its keys and values holds everywhere in it. -/
theorem Everywhere.of_map {entries : Entries} (here : property (map entries))
    (each : ∀ entry ∈ entries, entry.1.Everywhere property ∧ entry.2.Everywhere property) :
    (map entries).Everywhere property := by
  intro part inside
  cases inside with
  | whole => exact here
  | key member inside => exact (each _ member).1 part inside
  | mapped member inside => exact (each _ member).2 part inside

/-- What holds of an array and everywhere in its elements holds everywhere in it. -/
theorem Everywhere.of_array {items : List Value} (here : property (array items))
    (each : ∀ item ∈ items, item.Everywhere property) : (array items).Everywhere property := by
  intro part inside
  cases inside with
  | whole => exact here
  | element member inside => exact each _ member part inside

/-- What holds of a described value and everywhere in what it contains holds everywhere in
it. -/
theorem Everywhere.of_described {contained : Described} (here : property (described contained))
    (each : ∀ value ∈ contained.contents, value.Everywhere property) :
    (described contained).Everywhere property := by
  intro part inside
  cases inside with
  | whole => exact here
  | slot member inside => exact each _ member part inside
  | content inside => exact each _ List.mem_cons_self part inside
  | body inside => exact each _ List.mem_cons_self part inside

/-- What holds of a section and everywhere in its content holds everywhere in it. -/
theorem Everywhere.of_content {portion : Section} {body : Value}
    (here : property (described (.content portion body))) (throughout : body.Everywhere property) :
    (described (.content portion body)).Everywhere property :=
  .of_described here (List.forall_mem_singleton.mpr throughout)

/-- What holds of a described value of no known form and everywhere in its body holds
everywhere in it. -/
theorem Everywhere.of_unknown {descriptor : Descriptor} {body : Value}
    (here : property (described (.unknown descriptor body)))
    (throughout : body.Everywhere property) :
    (described (.unknown descriptor body)).Everywhere property :=
  .of_described here (List.forall_mem_singleton.mpr throughout)

/-- What holds everywhere in a value holds everywhere in its parts. -/
theorem Everywhere.part {part value : Value} (throughout : value.Everywhere property)
    (inside : Part part value) : part.Everywhere property :=
  fun _ further => throughout _ (further.trans inside)

/-- What follows from something everywhere follows everywhere. -/
theorem Everywhere.imp {other : Value → Prop} {value : Value}
    (throughout : value.Everywhere property) (follows : ∀ part, property part → other part) :
    value.Everywhere other := fun part inside => follows part (throughout part inside)

end Everywhere

/-- Whether a value contains no values. -/
def isSimple : Value → Bool
  | list _ | map _ | array _ | described _ => false
  | _ => true

/-- Only a simple value itself is a part of it. -/
theorem Part.eq_of_isSimple {part value : Value} (simple : value.isSimple = true)
    (inside : Part part value) : part = value := by
  cases inside <;> first | rfl | simp [isSimple] at simple

/-- What holds of a simple value holds everywhere in it. -/
theorem Everywhere.of_simple {property : Value → Prop} {value : Value}
    (simple : value.isSimple = true) (here : property value) : value.Everywhere property := by
  intro part inside
  rw [inside.eq_of_isSimple simple]
  exact here

/-- Induction over values. A value that contains no values is one case, and each way of
containing values is one more. The induction that the definition comes with has a property for
each of the five types that are defined together, and needs a case for every constructor. -/
@[elab_as_elim]
theorem induction {motive : Value → Prop}
    (simple : ∀ value, value.isSimple = true → motive value)
    (list : ∀ items, (∀ item ∈ items, motive item) → motive (list items))
    (map : ∀ entries : Entries, (∀ entry ∈ entries, motive entry.1 ∧ motive entry.2) →
      motive (map entries))
    (array : ∀ items, (∀ item ∈ items, motive item) → motive (array items))
    (described : ∀ contained, (∀ value ∈ contained.contents, motive value) →
      motive (described contained))
    (value : Value) : motive value := by
  have single {body : Value} (holds : motive body) : ∀ value ∈ [body], motive value :=
    List.forall_mem_singleton.mpr holds
  refine @Value.rec motive (fun contained => motive (.described contained))
    (fun items => ∀ item ∈ items, motive item)
    (fun entries => ∀ entry ∈ entries, motive entry.1 ∧ motive entry.2)
    (fun entry => motive entry.1 ∧ motive entry.2) ?_ ?_ ?_ ?_ ?_ ?_ ?_ ?_ ?_ ?_ ?_ ?_ ?_ ?_ ?_
    ?_ ?_ ?_ ?_ ?_ ?_ list map array (fun _ holds => holds)
    (fun form slots each => described (.composite form slots) each)
    (fun portion body holds => described (.content portion body) (single holds))
    (fun descriptor body holds => described (.unknown descriptor body) (single holds))
    ?_ ?_ ?_ ?_ (fun _ _ key mapped => ⟨key, mapped⟩) value
  case refine_22 => exact fun _ member => absurd member List.not_mem_nil
  case refine_24 => exact fun _ member => absurd member List.not_mem_nil
  case refine_23 =>
    intro _ _ first later _ member
    rcases List.mem_cons.mp member with rfl | member
    · exact first
    · exact later _ member
  case refine_25 =>
    intro _ _ first later _ member
    rcases List.mem_cons.mp member with rfl | member
    · exact first
    · exact later _ member
  case refine_1 => exact simple _ rfl
  all_goals exact fun _ => simple _ rfl

end Value

/-- A key shown as a value contains no values. -/
theorem MapKey.isSimple_toValue (key : MapKey) : key.toValue.isSimple = true := by
  cases key <;> rfl

end Amqp
