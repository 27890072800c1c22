import Amqp.Proofs.Encoder.Values
import Amqp.Proofs.Resolution

/-!
# What a peer without knowledge of a form sees

A described value of a known form is shown as a descriptor and a body by writing it and reading
it back without the form. The body of a composite is the list of its slots up to the last set
one, with null for every unset slot in between, and the body of a section is its content.
Finding the form of the descriptor again makes the body the described value that it was.

The reader has the usual limit of levels. A value that needs more of them is written, but its
descriptor and its body are then not found. Slots must be of their fields, and no value inside
may hide a known form behind a body that was not read by it.
-/

namespace Amqp

open Canonical (Checked Sound nesting)
open Encoder (State encodeValue)

/-- Values are the slots of some fields up to the last one that is set. A slot that is set is the
value of a datum of the type of its field. -/
structure Trimmed (fields : List Field) (slots values : List Value) : Prop where
  kept {index : Nat} : index < values.length → values[index]? = slots[index]?
  last {index : Nat} : values.length = index + 1 → ∃ slot, slots[index]? = some slot ∧ slot ≠ .null
  rest {index : Nat} {slot : Value} : values.length ≤ index → slots[index]? = some slot →
    slot = .null
  datum {index : Nat} {field : Field} {slot : Value} : fields[index]? = some field →
    slots[index]? = some slot → slot ≠ .null →
      ∃ datum, field.type.ofValue slot = .ok datum ∧ field.type.toValue datum = slot

/-- A body shows a described value to those who do not know its form. -/
def Described.ShownAs : Described → Value → Prop
  | composite form slots, body => ∃ values, body = .list values ∧ Trimmed form.fields slots values
  | content part held, body => body = held ∧
    ∃ datum, part.type.ofValue held = .ok datum ∧ part.type.toValue datum = held
  | unknown _ held, body => body = held

/-- Slots of their fields that are written up to the last set one are trimmed. Behind the last
set slot there are nulls only, and a slot in front of it that is set was read from a datum of its
field. -/
theorem trimmed_take {fields : List Field} {slots : List Value}
    (typed : Field.readAll fields slots = .ok slots) :
    Trimmed fields slots (slots.take (setSlots slots)) := by
  have length : (slots.take (setSlots slots)).length = setSlots slots := by
    rw [List.length_take, Nat.min_eq_left (Canonical.setSlots_le slots)]
  constructor
  · intro index inside
    rw [length] at inside
    exact List.getElem?_take_of_lt inside
  · intro index count
    exact exists_set_of_setSlots (length ▸ count)
  · intro index slot behind there
    exact eq_null_of_setSlots_le (length ▸ behind) there
  · intro index field slot there shown set
    have read := (Field.readAll_eq_ok_iff.mp typed).2 index field slot there shown
    rw [shown, Option.getD_some] at read
    rcases Field.cases_of_read read with ⟨null, _⟩ | ⟨_, same⟩
    · exact absurd null set
    · exact Ty.exists_datum_of_read same

/-- A described value is shown as its raw body. -/
theorem Described.shownAs_rawBody {described : Described}
    (typed : (Value.described described).Typed) : described.ShownAs described.rawBody := by
  cases described with
  | composite form slots => exact ⟨_, rfl, trimmed_take typed⟩
  | content part held => exact ⟨rfl, Ty.exists_datum_of_read typed⟩
  | unknown descriptor held => rfl

/-- The descriptor and the body of a described value are found if it is written and if it nests
no deeper than the usual reader goes. The body shows its slots up to the last set one, or its
content, and is resolved to the same described value. The bound is needed because the body is
found by reading back what was written, which writing itself does not limit.

Proof: What is written is the canonical encoding, and a reader that does not look for the form
takes it for the descriptor and the raw body. Finding the form of that descriptor fills the
missing slots in again with nulls, which is what they were. -/
theorem raw_resolves {described : Described} {state after : State}
    (plain : (Value.described described).Everywhere Value.Plain)
    (written : encodeValue .strict (.described described) state = .ok () after)
    (within : nesting (.described described) ≤ defaultMaxDepth) :
    ∃ body, Encoder.raw described = .ok (described.descriptor, body) ∧ described.ShownAs body ∧
      Registry.standard.resolve described.descriptor body = .ok described := by
  obtain ⟨checked, -, -⟩ := (Encoder.writes_encodeValue Utf8.encode plain).sound written
  have sound : (Value.described described).Everywhere (Sound Utf8.encode) := fun part inside =>
    ⟨plain part inside, checked part inside⟩
  have writes := (Encoder.written_of_plain (Encoder.reaches_bodyWriter (Nat.le_refl _))
    (Nat.le_refl _) (.described described) plain).whole Utf8.encode
  have ready : Encoder.Enough Utf8.encode defaultMaxDepth (.described described) :=
    ⟨checked.imp fun _ given => ⟨given, given⟩, within⟩
  refine ⟨described.rawBody, Encoder.rawParts_of_sound writes ready sound within,
    Described.shownAs_rawBody plain.here.typed, ?_⟩
  exact Registry.resolve_rawBody plain.here.typed plain.here.foreign

/-- Of a modified delivery the first field is unset and shown as null, and the last one is unset
and not shown. Resolving the body makes three slots of the two again. -/
theorem raw_resolves_modified :
    let described : Described := .composite .modified [.null, .boolean true, .null]
    Encoder.raw described = .ok (.code 0x27, .list [.null, .boolean true]) ∧
      described.ShownAs (.list [.null, .boolean true]) ∧
      Registry.standard.resolve (.code 0x27) (.list [.null, .boolean true]) = .ok described := by
  intro described
  have simple : described.contents.all Value.isSimple = true := rfl
  have plain : (Value.described described).Everywhere Value.Plain :=
    .of_described ⟨rfl, trivial⟩ fun slot member =>
      Value.plain_of_isSimple (List.all_eq_true.mp simple slot member)
  obtain ⟨body, found, shown, resolved⟩ :=
    @raw_resolves described (.fresh .shift) _ plain rfl (by decide)
  have known : Encoder.raw described = .ok (.code 0x27, .list [.null, .boolean true]) := rfl
  rw [known] at found
  cases found
  exact ⟨known, shown, resolved⟩

end Amqp
