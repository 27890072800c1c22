import Amqp.Proofs.Decoder.Regularity
import Amqp.Proofs.Encoder.Arrays

/-!
# Arrays of one kind

An array is written behind one constructor for all of its elements, so they have to be of one
kind, and of one form if they are described. There are two ways of saying so. What a reader
makes is said of any two elements: they are of the same kind, and described elements are of
the same form, descriptor and kind of body. What a writer accepts is said of the array: it is
empty, or it has one kind of elements, or one descriptor and one kind of raw bodies. Elements
or raw bodies that are null could be read but are not written, because a null has no payload
of its own.
-/

namespace Amqp.Value

/-- Any two elements of an array are of the same kind and, if they are described, of the same
form, with the same descriptor and with raw bodies of the same kind. -/
def Kindred : Value → Prop
  | array items => ∀ first ∈ items, ∀ second ∈ items, first.kind = second.kind ∧
      ∀ one other, first = described one → second = described other → one.form? = other.form? ∧
        one.descriptor = other.descriptor ∧ one.rawBody.kind = other.rawBody.kind
  | _ => True

/-- An array is empty, or its elements are of one kind, neither null nor described, or they are
described with one descriptor and with raw bodies of one kind, neither null nor described. -/
def Homogeneous : Value → Prop
  | array items => items = [] ∨
      (∃ kind : Kind, kind ≠ .null ∧ kind ≠ .described ∧ ∀ item ∈ items, item.kind = kind) ∨
      ∃ (descriptor : Descriptor) (kind : Kind), kind ≠ .null ∧ kind ≠ .described ∧
        ∀ item ∈ items, ∃ contained, item = described contained ∧
          contained.descriptor = descriptor ∧ contained.rawBody.kind = kind
  | _ => True

/-- Only a described value has a descriptor. -/
theorem exists_of_label {value : Value} {descriptor : Descriptor}
    (labelled : value.label? = some descriptor) :
    ∃ contained, value = described contained ∧ contained.descriptor = descriptor := by
  cases value with
  | described contained => exact ⟨contained, rfl, Option.some.inj labelled⟩
  | _ => cases labelled

/-- The form of a described value is the one that its descriptor finds, if its descriptor is
foreign whenever it has none. -/
theorem form?_eq_find? {contained : Described} (foreign : (described contained).Foreign) :
    contained.form? = Registry.standard.find? contained.descriptor := by
  cases contained with
  | composite form slots => exact (Registry.find?_code _).symm
  | content part body => exact (Registry.find?_code _).symm
  | unknown descriptor body => exact Eq.symm foreign

/-- The elements of an array are of one kind, and none is held as null, exactly if the array is
homogeneous. One side tells it by what the array holds of its elements, as a writer needs it, and
the other by the elements themselves. -/
theorem homogeneous_iff {value : Value} : value.Homogeneous ↔ value.Uniform ∧ value.NoNull := by
  cases value with
  | array items =>
    rw [Encoder.uniform_iff]
    constructor
    · rintro (rfl | ⟨kind, notNull, notDescribed, same⟩ |
        ⟨descriptor, kind, notNull, notDescribed, same⟩)
      · exact ⟨⟨none, nofun⟩, .boolean, by decide, by decide, nofun⟩
      · have alike : Encoder.Alike items := ⟨kind, notNull, notDescribed, same⟩
        refine ⟨⟨none, alike.plain⟩, ?_⟩
        rwa [← Encoder.held_rawBody, Encoder.map_held_of_plain alike.plain]
      · refine ⟨⟨some descriptor, fun item member => ?_⟩, kind, notNull, notDescribed,
          fun body found => ?_⟩
        · obtain ⟨contained, rfl, label, _⟩ := same item member
          exact congrArg some label
        · obtain ⟨item, member, rfl⟩ := List.mem_map.mp found
          obtain ⟨contained, rfl, _, of_kind⟩ := same item member
          exact of_kind
    · rintro ⟨⟨label, labelled⟩, kind, notNull, notDescribed, same⟩
      have of_kind (item : Value) (member : item ∈ items) : item.bare.kind = kind :=
        same _ (List.mem_map_of_mem member)
      cases label with
      | none =>
        refine .inr (.inl ⟨kind, notNull, notDescribed, fun item member => ?_⟩)
        rw [← of_kind item member, ← Encoder.held_rawBody,
          Encoder.held_of_plain (labelled item member)]
      | some descriptor =>
        refine .inr (.inr ⟨descriptor, kind, notNull, notDescribed, fun item member => ?_⟩)
        obtain ⟨contained, rfl, label⟩ := exists_of_label (labelled item member)
        exact ⟨contained, rfl, label, of_kind _ member⟩
  | _ => exact ⟨fun _ => ⟨trivial, trivial⟩, fun _ => trivial⟩

/-- A regular array has kindred elements, if its elements are regular too. Two elements with one
descriptor have one form, since the form of a regular value is the one that its descriptor finds.
-/
theorem kindred_of_regular {value : Value} (regular : value.Everywhere Regular) :
    value.Kindred := by
  cases value with
  | array items =>
    obtain ⟨label, kind, _, same⟩ := regular.here.uniform
    intro first member second member'
    obtain ⟨label_eq, kind_eq⟩ := same first member
    obtain ⟨label_eq', kind_eq'⟩ := same second member'
    have labels := label_eq.trans label_eq'.symm
    have kinds := kind_eq.trans kind_eq'.symm
    refine ⟨?_, ?_⟩
    · cases label with
      | none =>
        rwa [← Encoder.held_rawBody, Encoder.held_of_plain label_eq,
          Encoder.held_of_plain label_eq'] at kinds
      | some descriptor =>
        rw [Encoder.kind_of_label label_eq, Encoder.kind_of_label label_eq']
    · rintro one other rfl rfl
      have descriptors : one.descriptor = other.descriptor := Option.some.inj labels
      refine ⟨?_, descriptors, kinds⟩
      rw [form?_eq_find? (regular.element member).here.foreign,
        form?_eq_find? (regular.element member').here.foreign, descriptors]
  | _ => trivial

end Amqp.Value
