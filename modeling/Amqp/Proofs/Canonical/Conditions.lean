import Amqp.Proofs.Canonical
import Amqp.Proofs.Value.Parts

/-!
# What a value must be like to be written

Not every value has an encoding. Its lengths and sizes must fit four bytes, and the
elements of an array must share a constructor that is neither null nor described. These
are conditions on every part of a value.

Two more conditions say that a value means what it seems to. The slots and the content of a
described value of a known form are values of their types, and a described value of no
known form has a descriptor that belongs to none.

The nesting of a value is the number of levels that its encoding needs. As an element of an
array a list always needs a level, although on its own an empty one does not.
-/

namespace Amqp

namespace Value

/-- The slots and the content of described values are of their types. -/
def Typed : Value → Prop
  | described (.composite form slots) => Field.readAll form.fields slots = .ok slots
  | described (.content part body) => part.type.read body = .ok body
  | _ => True

/-- A described value of no known form has a descriptor that belongs to none. -/
def Foreign : Value → Prop
  | described (.unknown descriptor _) => Registry.standard.find? descriptor = none
  | _ => True

/-- A value that means what it seems to. -/
structure Plain (value : Value) : Prop where
  typed : value.Typed
  foreign : value.Foreign

/-- Only described values may mean something else than they seem to. -/
theorem plain_of_not_described {value : Value} (other : value.kind ≠ .described) : value.Plain := by
  constructor
  · cases value <;> trivial
  · cases value <;> trivial

/-- A value that contains no values means what it seems to. -/
theorem plain_of_isSimple {value : Value} (simple : value.isSimple = true) :
    value.Everywhere Plain := by
  refine .of_simple simple (plain_of_not_described fun kind => ?_)
  cases value <;> cases kind
  cases simple

/-- The elements of an array are of one kind, or described by one descriptor with raw
bodies of one kind, and are not described twice. -/
def Uniform : Value → Prop
  | array items => ∃ (descriptor : Option Descriptor) (kind : Kind), kind ≠ .described ∧
      ∀ item ∈ items, item.label? = descriptor ∧ item.bare.kind = kind
  | _ => True

/-- No element of an array is null, nor is the raw body of one. -/
def NoNull : Value → Prop
  | array items => ∀ item ∈ items, item.bare ≠ .null
  | _ => True

/-- Only null is of its kind. -/
theorem eq_null_of_kind {value : Value} (kind : value.kind = .null) : value = .null := by
  cases value <;> first | rfl | cases kind

end Value

namespace Canonical

open Encoder (choose payloadFits)

variable (text : String → Bytes)

/-- The lengths and the size in the encoding of a value fit four bytes. -/
def Fits : Value → Prop
  | .binary bytes => bytes.length < 256 ^ 4
  | .string value => (text value).length < 256 ^ 4
  | .symbol name => (Utf8.encode name).length < 256 ^ 4
  | .list items => 4 + (encodings text items).length < 256 ^ 4
  | .map entries => 4 + (entryEncodings text entries).length < 256 ^ 4
  | .array items => 4 + (arrayHead text items ++
      elements text (sharedCode text (items.map Value.bare)) items).length < 256 ^ 4
  | .described (.composite _ slots) =>
    4 + (firstEncodings text (setSlots slots) slots).length < 256 ^ 4
  | .described (.unknown (.symbol name) _) => (Utf8.encode name).length < 256 ^ 4
  | _ => True

/-- A descriptor fits if it is a number or its name fits a length. -/
def LabelFits (descriptor : Descriptor) : Prop :=
  ∀ name, descriptor = .symbol name → (Utf8.encode name).length < 256 ^ 4

/-- A number as a descriptor fits. -/
theorem labelFits_code (number : UInt64) : LabelFits (.code number) := by
  intro name symbolic
  cases symbolic

/-- The descriptor of a described value fits. -/
theorem Fits.descriptor {text : String → Bytes} {described : Described}
    (fits : Fits text (.described described)) : LabelFits described.descriptor := by
  intro name symbolic
  cases described with
  | composite form slots => cases symbolic
  | content part body => cases symbolic
  | unknown descriptor body =>
    obtain rfl : descriptor = .symbol name := symbolic
    exact fits

/-- What writing a value checks of the value itself. -/
structure Checked (value : Value) : Prop where
  fits : Fits text value
  uniform : value.Uniform
  noNull : value.NoNull

/-- A value that can be written and read back, as far as the value itself is concerned. -/
structure Sound (value : Value) : Prop extends value.Plain, Checked text value

/-- The constructors that a value can share as an element of an array. -/
def Behind (text : String → Bytes) (shared : Code) : Value → Prop
  | .null | .described _ => False
  | .binary bytes => shared = .binary8 ∧ bytes.length < 256 ∨ shared = .binary32
  | .string value => shared = .string8 ∧ (text value).length < 256 ∨ shared = .string32
  | .symbol name => shared = .symbol8 ∧ (Utf8.encode name).length < 256 ∨ shared = .symbol32
  | value => shared = fullCode value.kind

/-- A constructor that is shared is not the announcing byte. -/
theorem Behind.ne_described {text : String → Bytes} {shared : Code} {value : Value}
    (behind : Behind text shared value) : shared ≠ .described := by
  rintro rfl
  cases value <;> simp [Behind, fullCode, Value.kind] at behind

/-- A value that shares a constructor is bare. -/
theorem Behind.bare_eq {text : String → Bytes} {shared : Code} {value : Value}
    (behind : Behind text shared value) : value.bare = value := by
  cases value with
  | described contained => cases behind
  | _ => rfl

/-- The constructor that is chosen for some values is the narrow one, which each of them fits, or
the wide one. -/
theorem cases_choose (narrow : Code) (fits : Value → Bool) {items : List Value} {item : Value}
    (member : item ∈ items) : choose narrow (items.all fits) = narrow ∧ fits item = true ∨
      choose narrow (items.all fits) = narrow.widen := by
  unfold choose
  split
  · next all => exact .inl ⟨rfl, List.all_eq_true.mp all item member⟩
  · exact .inr rfl

/-- Values of one kind can share the constructor that is chosen for them. For most kinds there is
only one; of two, the narrow one is chosen exactly if every one of the values fits it. Null and
described values have none. -/
theorem behind_sharedCode {text : String → Bytes} {items : List Value} {kind : Kind}
    (notNull : kind ≠ .null) (notDescribed : kind ≠ .described)
    (same : ∀ item ∈ items, item.kind = kind) {item : Value} (member : item ∈ items) :
    Behind text (sharedCode text items) item := by
  cases items with
  | nil => cases member
  | cons first rest =>
    obtain rfl := same item member
    have firstKind : first.kind = item.kind := same first List.mem_cons_self
    simp only [sharedCode, firstKind]
    cases item with
    | null => exact absurd rfl notNull
    | described => exact absurd rfl notDescribed
    | binary bytes =>
      exact (cases_choose .binary8 payloadFits member).imp_left fun ⟨chosen, fits⟩ =>
        ⟨chosen, Nat.lt_succ_of_le (of_decide_eq_true fits)⟩
    | string value =>
      exact (cases_choose .string8 (stringFits text) member).imp_left fun ⟨chosen, fits⟩ =>
        ⟨chosen, Nat.lt_succ_of_le (of_decide_eq_true fits)⟩
    | symbol name =>
      exact (cases_choose .symbol8 payloadFits member).imp_left fun ⟨chosen, fits⟩ =>
        ⟨chosen, Nat.lt_succ_of_le (of_decide_eq_true fits)⟩
    | _ => rfl

mutual

/-- The levels that the encoding of a value needs. -/
def nesting : Value → Nat
  | .list items => if items.isEmpty then 0 else nestings items + 1
  | .map entries => entryNestings entries + 1
  | .array items => elementNestings items + 1
  | .described described => bodyNesting described + 1
  | _ => 0
termination_by structural value => value

/-- The levels that the encoding of the body of a described value needs. -/
def bodyNesting : Described → Nat
  | .composite form slots => if form.fields.isEmpty then 0 else nestings slots + 1
  | .content _ body => nesting body
  | .unknown _ body => nesting body
termination_by structural described => described

/-- The levels that the encodings of some values need. -/
def nestings : List Value → Nat
  | [] => 0
  | item :: rest => max (nesting item) (nestings rest)
termination_by structural items => items

/-- The levels that the encodings of some keys and values need. -/
def entryNestings : Entries → Nat
  | [] => 0
  | (key, value) :: rest => max (max (nesting key) (nesting value)) (entryNestings rest)
termination_by structural entries => entries

/-- The levels that a value needs as an element of an array. -/
def elementNesting : Value → Nat
  | .list items => nestings items + 1
  | .map entries => entryNestings entries + 1
  | .array items => elementNestings items + 1
  | .described described => rawNesting described
  | _ => 0
termination_by structural value => value

/-- The levels that the raw body of a described value needs as an element of an array. -/
def rawNesting : Described → Nat
  | .composite _ slots => nestings slots + 1
  | .content _ body => elementNesting body
  | .unknown _ body => elementNesting body
termination_by structural described => described

/-- The levels that some elements of an array need. -/
def elementNestings : List Value → Nat
  | [] => 0
  | item :: rest => max (elementNesting item) (elementNestings rest)
termination_by structural items => items

end

section Simple

variable {text} {value : Value} (simple : value.isSimple = true)

include simple

/-- A value that contains no values is bare. -/
theorem bare_of_isSimple : value.bare = value := by
  cases value <;> first | rfl | cases simple

/-- A value that contains no values is encoded as such. -/
theorem encoding_of_isSimple : encoding text value = simpleEncoding text value := by
  cases value <;> first | rfl | cases simple

/-- A value that contains no values is an element as such. -/
theorem element_of_isSimple (shared : Code) :
    element text shared value = simplePayload text shared value := by
  cases value <;> first | rfl | cases simple

/-- Of a value that contains no values nothing is checked but its length. -/
theorem checked_of_isSimple (fits : Fits text value) : value.Everywhere (Checked text) := by
  refine .of_simple simple ⟨fits, ?_, ?_⟩
  · cases value <;> trivial
  · cases value <;> trivial

/-- A value that contains no values needs no levels. -/
theorem nesting_of_isSimple : nesting value = 0 := by
  cases value <;> first | rfl | cases simple

/-- A value that contains no values needs no levels as an element. -/
theorem elementNesting_of_isSimple : elementNesting value = 0 := by
  cases value <;> first | rfl | cases simple

end Simple

/-- Values need the levels of the one among them that needs most. -/
theorem maxOver_nestings : MaxOver nesting nestings := ⟨rfl, fun _ _ => rfl⟩

/-- Entries need the levels of the key or value among them that needs most. -/
theorem maxOver_entryNestings :
    MaxOver (fun entry => max (nesting entry.1) (nesting entry.2)) entryNestings :=
  ⟨rfl, fun _ _ => rfl⟩

/-- Elements need the levels of the one among them that needs most. -/
theorem maxOver_elementNestings : MaxOver elementNesting elementNestings := ⟨rfl, fun _ _ => rfl⟩

/-- A value needs no more levels than a list of values that it is among. -/
theorem nesting_le_nestings {items : List Value} {item : Value} (member : item ∈ items) :
    nesting item ≤ nestings items :=
  maxOver_nestings.le_of_mem member

/-- A key and a value need no more levels than the entries that they are among. -/
theorem nesting_le_entryNestings {entries : Entries} {entry : Value × Value}
    (member : entry ∈ entries) :
    nesting entry.1 ≤ entryNestings entries ∧ nesting entry.2 ≤ entryNestings entries :=
  Nat.max_le.mp (maxOver_entryNestings.le_of_mem member)

/-- A slot needs no more levels than the body of the composite. A slot that is not written is
null, and null needs none. -/
theorem nesting_le_bodyNesting {form : Composite} {slots : List Value}
    (typed : (Value.described (.composite form slots)).Typed) {slot : Value}
    (member : slot ∈ slots) : nesting slot ≤ bodyNesting (.composite form slots) := by
  have bound := nesting_le_nestings member
  rw [bodyNesting]
  split
  · next none =>
    change Field.readAll form.fields slots = .ok slots at typed
    rw [List.isEmpty_iff.mp none] at typed
    cases typed
    cases member
  · omega

/-- An element needs no more levels than the elements that it is among. -/
theorem elementNesting_le_elementNestings {items : List Value} {item : Value}
    (member : item ∈ items) : elementNesting item ≤ elementNestings items :=
  maxOver_elementNestings.le_of_mem member

/-- Values need no more levels than the one among them that needs most. -/
theorem nestings_le {items : List Value} {levels : Nat}
    (each : ∀ item ∈ items, nesting item ≤ levels) : nestings items ≤ levels :=
  maxOver_nestings.le_iff.mpr each

/-- Entries need no more levels than the key or value among them that needs most. -/
theorem entryNestings_le {entries : Entries} {levels : Nat}
    (each : ∀ entry ∈ entries, nesting entry.1 ≤ levels ∧ nesting entry.2 ≤ levels) :
    entryNestings entries ≤ levels :=
  maxOver_entryNestings.le_iff.mpr fun entry member => Nat.max_le.mpr (each entry member)

/-- Elements need no more levels than the one among them that needs most. -/
theorem elementNestings_le {items : List Value} {levels : Nat}
    (each : ∀ item ∈ items, elementNesting item ≤ levels) : elementNestings items ≤ levels :=
  maxOver_elementNestings.le_iff.mpr each

/-- The first of some values need no more levels than all of them. -/
theorem nestings_take_le (count : Nat) (items : List Value) :
    nestings (items.take count) ≤ nestings items :=
  nestings_le fun _ member => nesting_le_nestings (List.mem_of_mem_take member)

/-- The raw body of a described value needs no more levels as an element than the described
value. That of a composite has no more slots than it. -/
theorem elementNesting_rawBody_le (described : Described) :
    elementNesting described.rawBody ≤ elementNesting (.described described) := by
  cases described with
  | composite form slots =>
    have bound := nestings_take_le (setSlots slots) slots
    change nestings _ + 1 ≤ nestings slots + 1
    omega
  | content portion body => exact Nat.le_refl _
  | unknown descriptor body => exact Nat.le_refl _

/-- What holds everywhere in a described value, and of its raw body, holds everywhere in its
raw body. -/
theorem everywhere_rawBody {property : Value → Prop} {described : Described}
    (throughout : (Value.described described).Everywhere property)
    (top : property described.rawBody) : described.rawBody.Everywhere property := by
  cases described with
  | composite form slots =>
    exact .of_list top fun slot member => throughout.contents (List.mem_of_mem_take member)
  | content portion body => exact throughout.contents List.mem_cons_self
  | unknown descriptor body => exact throughout.contents List.mem_cons_self

end Canonical

end Amqp
