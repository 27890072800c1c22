import Amqp.Proofs.Value.Outline

/-!
# Payloads that are legible

A payload is legible as a value if a lossy reader with levels enough makes of it some value of
the same outline. Such a reader takes any bytes for text, so nothing that is behind the length of
a string can be wrong, and only the frames around the strings matter.

Legible payloads are closed under the rules of the grammar. The parts of a container are legible
within levels of their own, and within the most that any of them needs they are so together.
-/

namespace Amqp.Grammar

variable {code shared : Code} {content bytes : Bytes} {value : Value}

/-- A payload that a lossy reader with levels enough takes for a value of the same outline. -/
def Legible (code : Code) (content : Bytes) (value : Value) : Prop :=
  ∃ levels other, other.outline = value.outline ∧
    payload TextDecoder.lossy levels code content other

/-- Bytes behind a length that is one of strings are legible as every string. -/
theorem legible_string {width : Nat} (category : code.category = .variable width)
    (kind : code.kind = .string) (fits : content.length < 256 ^ width) (text : String) :
    Legible code (counted width content) (.string text) :=
  ⟨0, .string (Utf8.decodeLossy content), rfl, .string category kind fits rfl⟩

/-- An encoding is legible behind its constructor. -/
theorem legible_of_encoding {levels : Nat} (encoding : Encoding .lossy levels bytes value) :
    Coded Legible bytes value := by
  obtain ⟨code, content, rfl, within⟩ := encoding
  exact ⟨code, content, rfl, levels, value, rfl, within⟩

/-- What is legible behind its constructor is an encoding of some value of the same outline. -/
theorem Coded.exists_encoding (legible : Coded Legible bytes value) :
    ∃ levels other, other.outline = value.outline ∧ Encoding .lossy levels bytes other := by
  obtain ⟨code, content, rfl, levels, other, same, within⟩ := legible
  exact ⟨levels, other, same, code, content, rfl, within⟩

/-- A key and a value within some levels are so within more. -/
theorem Paired.mono {text : TextDecoder} {levels more : Nat} (le : levels ≤ more)
    {entry : Value × Value} (paired : Paired (Encoding text levels) bytes entry) :
    Paired (Encoding text more) bytes entry := by
  obtain ⟨front, back, rfl, key, mapped⟩ := paired
  exact ⟨front, back, rfl, key.mono le, mapped.mono le⟩

/-- An element within some levels is one within more. -/
theorem Element.mono {text : TextDecoder} {levels more : Nat} (le : levels ≤ more)
    {label : Option Descriptor}
    (element : Element (payload text levels) label shared content value) :
    Element (payload text more) label shared content value := by
  obtain ⟨body, within, resolves⟩ := element
  exact ⟨body, payload_mono le within, resolves⟩

/-- A key and a value that are legible are encodings of some that have the same outlines. -/
theorem Paired.exists_encodings {entry : Value × Value}
    (legible : Paired (Coded Legible) bytes entry) :
    ∃ levels other, Value.outlinePair other = Value.outlinePair entry ∧
      Paired (Encoding .lossy levels) bytes other := by
  obtain ⟨front, back, rfl, key, mapped⟩ := legible
  obtain ⟨levels, shownKey, sameKey, encodedKey⟩ := key.exists_encoding
  obtain ⟨more, shown, same, encoded⟩ := mapped.exists_encoding
  exact ⟨max levels more, (shownKey, shown), Prod.ext sameKey same, front, back, rfl,
    encodedKey.mono (Nat.le_max_left ..), encoded.mono (Nat.le_max_right ..)⟩

/-- An element that is legible is one of some value of the same outline. The outline of a body
decides what a descriptor makes of it, up to the text in it, so the body that is read instead
resolves too. -/
theorem Element.exists_payload {label : Option Descriptor}
    (legible : Element Legible label shared content value) :
    ∃ levels other, other.outline = value.outline ∧
      Element (payload .lossy levels) label shared content other := by
  obtain ⟨body, ⟨levels, shown, same, within⟩, resolves⟩ := legible
  cases label with
  | none =>
    obtain rfl : value = body := resolves
    exact ⟨levels, shown, same, shown, within, rfl⟩
  | some descriptor =>
    obtain ⟨described, resolved, rfl⟩ := resolves
    obtain ⟨contained, found, alike⟩ := Registry.resolve_of_outline same resolved
    exact ⟨levels, .described contained, alike, shown, within, contained, found, rfl⟩

/-- Items that are each read within some levels are all read within the most of them. The
induction takes the greater of two numbers at each item, which is why more levels must not lose
an item. -/
theorem Sequence.exists_levels {α β : Type} {one : Bytes → α → Prop}
    {within : Nat → Bytes → α → Prop} {view : α → β} {items : List α}
    (sequence : Sequence one bytes items)
    (each : ∀ bytes item, one bytes item →
      ∃ levels other, view other = view item ∧ within levels bytes other)
    (mono : ∀ levels more bytes item, levels ≤ more → within levels bytes item →
      within more bytes item) :
    ∃ levels others, others.map view = items.map view ∧ Sequence (within levels) bytes others := by
  induction sequence with
  | nil => exact ⟨0, [], rfl, .nil⟩
  | cons first _ inductionHypothesis =>
    obtain ⟨levels, other, same, here⟩ := each _ _ first
    obtain ⟨more, others, alike, later⟩ := inductionHypothesis
    refine ⟨max levels more, other :: others, by rw [List.map_cons, same, alike, List.map_cons], ?_⟩
    exact .cons (mono _ _ _ _ (Nat.le_max_left ..) here)
      (later.imp fun _ _ => mono _ _ _ _ (Nat.le_max_right ..))

/-- Payloads with legible parts are legible. The parts are exchanged for values of the same
outlines that are read within common levels, and then the same rule of the grammar is applied to
these: all it needs of the parts is their number and their bytes, and these are the same. -/
theorem Legible.of_payload (payload : Payload .lossy (some Legible) code content value) :
    Legible code content value := by
  cases payload with
  | scalar scalar => exact ⟨0, value, rfl, .scalar scalar⟩
  | binary category kind fits => exact ⟨0, _, rfl, .binary category kind fits⟩
  | string category kind fits read => exact ⟨0, _, rfl, .string category kind fits read⟩
  | symbol category kind fits read => exact ⟨0, _, rfl, .symbol category kind fits read⟩
  | noArray category kind => exact ⟨0, _, rfl, .noArray category kind⟩
  | list category kind level sequence fits =>
    cases level
    obtain ⟨levels, others, same, encodings⟩ := sequence.exists_levels
      (fun _ _ => Coded.exists_encoding) fun _ _ _ _ le => Encoding.mono le
    refine ⟨levels + 1, .list others, by rw [Value.outline_list, same, ← Value.outline_list], ?_⟩
    rw [← List.length_map Value.outline, ← same, List.length_map]
    exact .list category kind rfl encodings fits
  | map category kind level sequence fits =>
    cases level
    obtain ⟨levels, others, same, encodings⟩ := sequence.exists_levels
      (fun _ _ => Paired.exists_encodings) fun _ _ _ _ le => Paired.mono le
    refine ⟨levels + 1, .map others, by rw [Value.outline_map, same, ← Value.outline_map], ?_⟩
    rw [← List.length_map Value.outlinePair, ← same, List.length_map]
    exact .map category kind rfl encodings fits
  | array category kind level constructor sequence fits paid =>
    cases level
    obtain ⟨levels, others, same, elements⟩ := sequence.exists_levels
      (fun _ _ => Element.exists_payload) fun _ _ _ _ le => Element.mono le
    refine ⟨levels + 1, .array others, by rw [Value.outline_array, same, ← Value.outline_array], ?_⟩
    rw [← List.length_map Value.outline, ← same, List.length_map] at paid ⊢
    exact .array category kind rfl constructor elements fits paid
  | described level label encoded resolved =>
    cases level
    obtain ⟨levels, shown, same, encoding⟩ := encoded.exists_encoding
    obtain ⟨contained, found, alike⟩ := Registry.resolve_of_outline same resolved
    exact ⟨levels + 1, .described contained, alike, .described rfl label encoding found⟩

/-- What has a constructor and a payload with legible parts is legible. -/
theorem legible_of_coded (coded : Coded (Payload .lossy (some Legible)) bytes value) :
    Coded Legible bytes value := by
  obtain ⟨code, content, rfl, payload⟩ := coded
  exact ⟨code, content, rfl, .of_payload payload⟩

/-- What an array holds if its elements are legible behind the constructor that they share. The
elements are no more than the bytes, as a reader demands. -/
def LegibleElements (content : Bytes) (items : List Value) : Prop :=
  ∃ front back label shared, content = front ++ back ∧
    Constructor TextDecoder.lossy front label shared ∧
    Sequence (Element Legible label shared) back items ∧ items.length ≤ content.length

end Amqp.Grammar
