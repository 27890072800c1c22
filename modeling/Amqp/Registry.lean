import Amqp.Value.View

/-!
# Finding the form of a described value

A registry is the collection of forms that a reader of bytes knows. A descriptor,
numeric or symbolic, finds the form it belongs to, and the body is then read by that
form: the body of a composite must be a list of its fields, the body of a section
must be of the type of its content. A descriptor that finds nothing is kept with its
body as it is.
-/

namespace Amqp

/-- The described types that are known. -/
structure Registry where
  forms : List Form
  deriving Repr, DecidableEq

namespace Form

/-- Whether a descriptor belongs to a form. -/
def answersTo (form : Form) : Descriptor → Bool
  | .code number => form.code = number
  | .symbol name => form.symbol = name

/-- Read a body by its form. -/
def readBody : Form → Value → Except Error Described
  | composite form, .list values => (Field.readAll form.fields values).map (.composite form)
  | composite _, other => .error (other.mismatch "list")
  | content part, body => (part.type.read body).map (.content part)

end Form

namespace Registry

/-- The registry of the forty forms of the standard. -/
def standard : Registry := ⟨Form.all⟩

/-- The registry that knows nothing. -/
def empty : Registry := ⟨[]⟩

/-- The form a descriptor belongs to. -/
def find? (registry : Registry) (descriptor : Descriptor) : Option Form :=
  registry.forms.find? (·.answersTo descriptor)

/-- Whether a descriptor is known. -/
def contains (registry : Registry) (descriptor : Descriptor) : Bool :=
  (registry.find? descriptor).isSome

/-- The described value of a descriptor and a body. -/
def resolve (registry : Registry) (descriptor : Descriptor) (body : Value) :
    Except Error Described :=
  match registry.find? descriptor with
  | some form => form.readBody body
  | none => .ok (.unknown descriptor body)

/-- A registry shows how many descriptors of each sort it knows. -/
def display (registry : Registry) : String :=
  let count := registry.forms.length
  s!"DescribedRegistry \x7b codes: {count}, symbols: {count} \x7d"

/-- Without a known form, descriptor and body are kept. -/
theorem resolve_of_find?_none {registry : Registry} {descriptor : Descriptor}
    (unknown : registry.find? descriptor = none) (body : Value) :
    registry.resolve descriptor body = .ok (.unknown descriptor body) := by
  simp [resolve, unknown]

/-- A descriptor and a body make an unknown described value, or one of the form that the registry
has for the descriptor. In the second case the body must be what the form wants, and a body that
is not is never kept as an unknown one. -/
theorem resolve_eq_ok_iff {registry : Registry} {descriptor : Descriptor} {body : Value}
    {described : Described} : registry.resolve descriptor body = .ok described ↔
    registry.find? descriptor = none ∧ described = .unknown descriptor body ∨
    (∃ form values slots, registry.find? descriptor = some (.composite form) ∧
      body = .list values ∧ Field.readAll form.fields values = .ok slots ∧
      described = .composite form slots) ∨
    ∃ portion content, registry.find? descriptor = some (.content portion) ∧
      portion.type.read body = .ok content ∧ described = .content portion content := by
  unfold resolve
  constructor
  · intro resolved
    cases known : registry.find? descriptor with
    | none =>
      rw [known] at resolved
      cases resolved
      exact .inl ⟨rfl, rfl⟩
    | some form =>
      rw [known] at resolved
      cases form with
      | composite form =>
        cases body <;> try cases resolved
        next values =>
          obtain ⟨slots, read, rfl⟩ := map_eq_ok_iff.mp resolved
          exact .inr (.inl ⟨form, values, slots, rfl, rfl, read, rfl⟩)
      | content portion =>
        obtain ⟨content, read, rfl⟩ := map_eq_ok_iff.mp resolved
        exact .inr (.inr ⟨portion, content, rfl, read, rfl⟩)
  · rintro (⟨unknown, rfl⟩ | ⟨form, values, slots, known, rfl, read, rfl⟩ |
      ⟨portion, content, known, read, rfl⟩)
    · rw [unknown]
    · rw [known]
      exact map_eq_ok_iff.mpr ⟨slots, read, rfl⟩
    · rw [known]
      exact map_eq_ok_iff.mpr ⟨content, read, rfl⟩

/-- In a list where a label tells the members apart, a member is found by its label. The label is
the number or the symbol of a form. -/
theorem find?_label {κ : Type} [DecidableEq κ] {label : Form → κ} {forms : List Form}
    (distinct : (forms.map label).Nodup) {form : Form} (member : form ∈ forms) :
    (forms.find? fun other => label other = label form) = some form := by
  induction forms with
  | nil => cases member
  | cons first rest inductionHypothesis =>
    simp only [List.map_cons, List.nodup_cons] at distinct
    rcases List.mem_cons.1 member with same | later
    · subst same
      simp
    · have apart : label first ≠ label form := fun same =>
        distinct.1 (same ▸ List.mem_map_of_mem later)
      simp [apart, inductionHypothesis distinct.2 later]

/-- Every form is found by its numeric descriptor. -/
theorem find?_code (form : Form) : standard.find? (.code form.code) = some form :=
  find?_label Form.nodup_codes form.mem_all

/-- Every form is found by its symbolic descriptor. -/
theorem find?_symbol (form : Form) : standard.find? (.symbol form.symbol) = some form :=
  find?_label Form.nodup_symbols form.mem_all

/-- A form that is found answers to the descriptor. -/
theorem answersTo_of_find? {registry : Registry} {descriptor : Descriptor} {form : Form}
    (found : registry.find? descriptor = some form) : form.answersTo descriptor = true :=
  List.find?_some (p := fun form : Form => form.answersTo descriptor) found

end Registry

end Amqp
