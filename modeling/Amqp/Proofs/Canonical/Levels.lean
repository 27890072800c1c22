import Amqp.Proofs.Canonical.Encoding
import Amqp.Proofs.Decoder.Unambiguity

/-!
# The levels that the canonical encoding needs

The nesting of a value is enough for its canonical encoding, and it is also needed. The
grammar is unambiguous, so every reading of the encoding cuts it where it was put together,
and a container takes a level more than what it holds.
-/

namespace Amqp

namespace Grammar

/-- What is behind a constructor is read behind no other one. -/
theorem Coded.behind {α : Type} {behind : Code → Bytes → α → Prop} {code : Code}
    {content : Bytes} {item : α} (coded : Coded behind (code.toByte :: content) item) :
    behind code content item := by
  obtain ⟨code', content', same, word⟩ := coded
  obtain ⟨sameByte, rfl⟩ := List.cons.inj same
  have sameCode := Code.ofByte?_toByte code
  rw [sameByte, Code.ofByte?_toByte] at sameCode
  cases sameCode
  exact word

/-- Frames of one width that are the same bytes hold the same. -/
theorem eq_of_frame {width count count' : Nat} {content content' : Bytes}
    (same : frame width count content = frame width count' content') : content = content' := by
  refine List.append_inj_right same ?_
  rw [List.length_append, List.length_append]
  simp only [Bytes.length_be]

end Grammar

namespace Canonical

open Grammar

variable {read : TextDecoder} {levels : Nat}

section Inversion

variable {code : Code} {width count : Nat} {content : Bytes}

/-- A container is read in one of its two widths. -/
theorem payload_of_container {narrow : Code} {wide : Bool} {value : Value}
    (encoding : Encoding read levels (container narrow wide count content) value) :
    payload read levels narrow (frame 1 count content) value ∨
      payload read levels narrow.widen (frame 4 count content) value := by
  unfold container at encoding
  split at encoding
  · exact .inl encoding.behind
  · exact .inr encoding.behind

/-- A list in a frame is read one level further down. -/
theorem sequence_of_list {items : List Value} (category : code.category = .compound width)
    (kind : code.kind = .list)
    (word : payload read levels code (frame width count content) (.list items)) :
    ∃ further, levels = further + 1 ∧ Sequence (Encoding read further) content items := by
  rw [payload_eq, payload_iff_list category kind] at word
  obtain ⟨inside, content', items', level, sequence, _, same, sameItems⟩ := word
  obtain ⟨further, rfl, rfl⟩ := payloadBelow_eq_some.mp level
  obtain rfl := eq_of_frame same
  cases sameItems
  exact ⟨further, rfl, sequence⟩

/-- A list in a container is read one level further down. -/
theorem sequence_of_listContainer {wide : Bool} {items : List Value}
    (encoding : Encoding read levels (container .list8 wide count content) (.list items)) :
    ∃ further, levels = further + 1 ∧ Sequence (Encoding read further) content items := by
  rcases payload_of_container encoding with word | word
  · exact sequence_of_list rfl rfl word
  · exact sequence_of_list rfl rfl word

/-- A map in a frame is read one level further down. -/
theorem sequence_of_map {entries : Entries} (category : code.category = .compound width)
    (kind : code.kind = .map)
    (word : payload read levels code (frame width count content) (.map entries)) :
    ∃ further, levels = further + 1 ∧
      Sequence (Paired (Encoding read further)) content entries := by
  rw [payload_eq, payload_iff_map category kind] at word
  obtain ⟨inside, content', entries', level, sequence, _, same, sameEntries⟩ := word
  obtain ⟨further, rfl, rfl⟩ := payloadBelow_eq_some.mp level
  obtain rfl := eq_of_frame same
  cases sameEntries
  exact ⟨further, rfl, sequence⟩

/-- An array with a shared constructor is read one level further down. The bytes were put
together from a constructor and elements, and since the constructors are unambiguous, the reading
cuts them at the same place. -/
theorem sequence_of_array {front : Bytes} {descriptor : Option Descriptor} {shared : Code}
    {items : List Value} (category : code.category = .compound width)
    (kind : code.kind = .array) (constructor' : Constructor read front descriptor shared)
    (word : payload read levels code (frame width count (front ++ content)) (.array items)) :
    ∃ further, levels = further + 1 ∧
      Sequence (Element (payload read further) descriptor shared) content items := by
  rw [payload_eq, payload_iff_array category kind] at word
  rcases word with ⟨same, _⟩ | ⟨inside, front', content', descriptor', shared', items', level,
    constructor'', sequence, _, _, same, sameItems⟩
  · have positive := constructor'.length_pos
    have nothing := congrArg List.length (eq_of_frame same)
    rw [List.length_append, List.length_nil] at nothing
    omega
  · obtain ⟨further, rfl, rfl⟩ := payloadBelow_eq_some.mp level
    have split := eq_of_frame same
    have found : Constructor read front (descriptor, shared).1 (descriptor, shared).2 :=
      constructor'
    have found' : Constructor read front' (descriptor', shared').1 (descriptor', shared').2 :=
      constructor''
    obtain ⟨rfl, sameFound⟩ := unambiguous_constructor read found found' split
    obtain rfl := List.append_cancel_left split
    cases sameFound
    cases sameItems
    exact ⟨further, rfl, sequence⟩

/-- An array in a container is read one level further down. -/
theorem sequence_of_arrayContainer {wide : Bool} {front : Bytes}
    {descriptor : Option Descriptor} {shared : Code} {items : List Value}
    (constructor' : Constructor read front descriptor shared)
    (encoding : Encoding read levels (container .array8 wide count (front ++ content))
      (.array items)) :
    ∃ further, levels = further + 1 ∧
      Sequence (Element (payload read further) descriptor shared) content items := by
  rcases payload_of_container encoding with word | word
  · exact sequence_of_array rfl rfl constructor' word
  · exact sequence_of_array rfl rfl constructor' word

/-- A described value behind its descriptor is read one level further down. Labels are
unambiguous, so the reading has the same body, and so are encodings, so it is the same value. -/
theorem encoding_of_described {front back : Bytes} {described : Described} {body : Value}
    (labelled : Coded (Label read) front described.descriptor)
    (canonical : ∃ levels, Encoding read levels back body)
    (encoding : Encoding read levels (Code.described.toByte :: (front ++ back))
      (.described described)) :
    ∃ further, levels = further + 1 ∧ Encoding read further back body := by
  have word := encoding.behind
  rw [payload_eq, payload_iff_described] at word
  obtain ⟨_, ⟨inside, level, front', back', descriptor, body', same, labelled', encoding', _⟩, _⟩ :=
    word
  obtain ⟨further, rfl, rfl⟩ := payloadBelow_eq_some.mp level
  obtain ⟨rfl, _⟩ := unambiguous_label read labelled labelled' same
  obtain rfl := List.append_cancel_left same
  obtain rfl := (unambiguous_encoding read).eq canonical ⟨further, encoding'⟩
  exact ⟨further, rfl, encoding'⟩

end Inversion

/-- The canonical encoding of a value, and the value as an element, need as many levels as
the value nests. -/
structure Needs (read : TextDecoder) (value : Value) : Prop where
  whole {levels : Nat} :
    Encoding read levels (encoding Utf8.encode value) value → nesting value ≤ levels
  element {shared : Code} {levels : Nat} : Behind Utf8.encode shared value.bare →
    payload read levels shared (element Utf8.encode shared value) value.bare →
      elementNesting value ≤ levels

/-- A value that is itself the payload behind a constructor needs the levels of an element. -/
theorem Needs.payload {value : Value} (needs : Needs read value) {shared : Code}
    (behind : Behind Utf8.encode shared value)
    (word : payload read levels shared (Canonical.element Utf8.encode shared value) value) :
    elementNesting value ≤ levels := by
  have bare := behind.bare_eq
  apply needs.element
  · rwa [bare]
  · rwa [bare]

section Sequences

/-- Encodings one after the other need the levels of the values. A sequence within some levels of
these bytes is cut at the same places as the canonical one, so each value has its canonical
encoding within these levels. -/
theorem nestings_le_of_sequence {items : List Value}
    (each : ∀ item ∈ items, Encodes read item ∧ Needs read item)
    (sequence : Sequence (Encoding read levels) (encodings Utf8.encode items) items) :
    nestings items ≤ levels := by
  have canonical : Sequence (fun part item => part = encoding Utf8.encode item ∧ item ∈ items)
      (encodings Utf8.encode items) items := by
    rw [encodings_eq]
    exact .flatMap fun item member => ⟨rfl, member⟩
  apply nestings_le
  intro item member
  have encodes (part : Bytes) (item : Value)
      (given : part = encoding Utf8.encode item ∧ item ∈ items) :
      ∃ levels, Encoding read levels part item := by
    obtain ⟨rfl, member⟩ := given
    exact ⟨_, (each item member).1.whole⟩
  obtain ⟨_, word, rfl, _⟩ := Sequence.exists_both (unambiguous_encoding read)
    (fun _ _ word => ⟨_, word⟩) encodes sequence canonical member
  exact (each item member).2.whole word

/-- Pairs one after the other need the levels of the keys and the values. Pairs of encodings are
unambiguous like encodings, and so is the cut between the key and its value. -/
theorem entryNestings_le_of_sequence {entries : Entries}
    (each : ∀ entry ∈ entries, (Encodes read entry.1 ∧ Needs read entry.1) ∧
      Encodes read entry.2 ∧ Needs read entry.2)
    (sequence : Sequence (Paired (Encoding read levels)) (entryEncodings Utf8.encode entries)
      entries) :
    entryNestings entries ≤ levels := by
  have canonical : Sequence (fun part entry =>
      part = encoding Utf8.encode entry.1 ++ encoding Utf8.encode entry.2 ∧ entry ∈ entries)
      (entryEncodings Utf8.encode entries) entries := by
    rw [entryEncodings_eq]
    exact .flatMap fun entry member => ⟨rfl, member⟩
  apply entryNestings_le
  intro entry member
  have unambiguous := unambiguous_encoding read
  have encodes (part : Bytes) (entry : Value × Value)
      (given : part = encoding Utf8.encode entry.1 ++ encoding Utf8.encode entry.2 ∧
        entry ∈ entries) :
      Paired (fun part item => ∃ levels, Encoding read levels part item) part entry := by
    obtain ⟨rfl, member⟩ := given
    obtain ⟨key, mapped⟩ := each entry member
    exact ⟨_, _, rfl, ⟨_, key.1.whole⟩, ⟨_, mapped.1.whole⟩⟩
  have wider (part : Bytes) (entry : Value × Value)
      (given : Paired (Encoding read levels) part entry) :
      Paired (fun part item => ∃ levels, Encoding read levels part item) part entry := by
    obtain ⟨front, back, rfl, first, second⟩ := given
    exact ⟨front, back, rfl, ⟨_, first⟩, ⟨_, second⟩⟩
  obtain ⟨_, ⟨front, back, split, first, second⟩, same, _⟩ :=
    Sequence.exists_both unambiguous.paired wider encodes sequence canonical member
  obtain ⟨key, mapped⟩ := each entry member
  rw [split] at same
  obtain ⟨rfl, _⟩ := unambiguous ⟨_, first⟩ ⟨_, key.1.whole⟩ same
  obtain rfl := List.append_cancel_left same
  exact ⟨key.2.whole first, mapped.2.whole second⟩

/-- The elements of an array need the levels of the values as elements. They are payloads behind
one constructor, which is what makes them unambiguous without constructors of their own. -/
theorem elementNestings_le_of_sequence {descriptor : Option Descriptor} {shared : Code}
    {items : List Value} (each : ∀ item ∈ items, Encodes read item ∧ Needs read item)
    (behind : ∀ item ∈ items, Behind Utf8.encode shared item.bare)
    (coded : ∀ item ∈ items, Element (payload read (elementNesting item)) descriptor shared
      (element Utf8.encode shared item) item)
    (sequence : Sequence (Element (payload read levels) descriptor shared)
      (elements Utf8.encode shared items) items) :
    elementNestings items ≤ levels := by
  have canonical : Sequence (fun part item =>
      part = element Utf8.encode shared item ∧ item ∈ items)
      (elements Utf8.encode shared items) items := by
    rw [elements_eq]
    exact .flatMap fun item member => ⟨rfl, member⟩
  apply elementNestings_le
  intro item member
  have unambiguous := unambiguous_payload read shared
  have encodes (part : Bytes) (item : Value)
      (given : part = element Utf8.encode shared item ∧ item ∈ items) :
      Element (fun code part body => ∃ levels, payload read levels code part body) descriptor
        shared part item := by
    obtain ⟨rfl, member⟩ := given
    obtain ⟨body, word, resolves⟩ := coded item member
    exact ⟨body, ⟨_, word⟩, resolves⟩
  have wider (part : Bytes) (item : Value)
      (given : Element (payload read levels) descriptor shared part item) :
      Element (fun code part body => ∃ levels, payload read levels code part body) descriptor
        shared part item := by
    obtain ⟨body, word, resolves⟩ := given
    exact ⟨body, ⟨_, word⟩, resolves⟩
  obtain ⟨_, ⟨body, word, _⟩, rfl, _⟩ := Sequence.exists_both (unambiguous.element descriptor)
    wider encodes sequence canonical member
  have own := (each item member).1.element (behind item member)
  obtain rfl := unambiguous.eq ⟨_, own⟩ ⟨_, word⟩
  exact (each item member).2.element (behind item member) word

/-- The slots of a composite need the levels of the values. A slot is written as its canonical
encoding or as an array of no symbols, and null slots behind the last set one need nothing. -/
theorem nestings_le_of_slots {fields : List Field} {slots : List Value}
    (typed : Field.readAll fields slots = .ok slots)
    (each : ∀ slot ∈ slots, Encodes read slot ∧ Needs read slot)
    (sequence : Sequence (Encoding read levels)
      (slotEncodings Utf8.encode fields (setSlots slots) slots) (slots.take (setSlots slots))) :
    nestings slots ≤ levels := by
  have canonical := @sequence_slotEncodings (fun part slot => slot ∈ slots ∧
      (part = encoding Utf8.encode slot ∨ slot = .array [] ∧ part = symbolArray [])) _ _ typed
    (fun slot member => ⟨member, .inl rfl⟩) (fun member => ⟨member, .inr ⟨rfl, rfl⟩⟩)
    (setSlots slots)
  have encodes (part : Bytes) (slot : Value) (given : slot ∈ slots ∧
      (part = encoding Utf8.encode slot ∨ slot = .array [] ∧ part = symbolArray [])) :
      ∃ levels, Encoding read levels part slot := by
    obtain ⟨member, rfl | ⟨rfl, rfl⟩⟩ := given
    · exact ⟨_, (each slot member).1.whole⟩
    · exact ⟨_, coded_noSymbols (Nat.le_refl _)⟩
  apply nestings_le
  intro slot member
  rcases mem_take_or_eq_null member with set | rfl
  · obtain ⟨part, word, _, rfl | ⟨rfl, rfl⟩⟩ := Sequence.exists_both (unambiguous_encoding read)
      (fun _ _ word => ⟨_, word⟩) encodes sequence canonical set
    · exact (each slot member).2.whole word
    · have plain : Constructor read [Code.symbol8.toByte] none .symbol8 := .plain (by decide)
      obtain ⟨further, rfl, _⟩ := sequence_of_arrayContainer plain word
      exact Nat.le_add_left 1 further
  · exact Nat.zero_le _

end Sequences

section Described

variable {described : Described}
  (sound : (Value.described described).Everywhere (Sound Utf8.encode))
  (each : ∀ value ∈ described.contents, Encodes read value ∧ Needs read value)

include each

/-- As an element a described value needs the levels of its raw body. The slots that are cut off
are null, so those that are written need as many levels as all of them. -/
theorem rawNesting_le {shared : Code} (behind : Behind Utf8.encode shared described.rawBody)
    (word : payload read levels shared (rawElement Utf8.encode shared described)
      described.rawBody) :
    rawNesting described ≤ levels := by
  cases described with
  | content portion body => exact (each body List.mem_cons_self).2.payload behind word
  | unknown descriptor body => exact (each body List.mem_cons_self).2.payload behind word
  | composite form slots =>
    obtain rfl : shared = .list32 := behind
    rw [← element_rawBody] at word
    obtain ⟨further, rfl, sequence⟩ := sequence_of_list rfl rfl word
    have among (slot : Value) (member : slot ∈ slots.take (setSlots slots)) :
        Encodes read slot ∧ Needs read slot := each slot (List.mem_of_mem_take member)
    have bound := nestings_le_of_sequence among sequence
    apply Nat.succ_le_succ
    apply nestings_le
    intro slot member
    rcases mem_take_or_eq_null member with set | rfl
    · exact Nat.le_trans (nesting_le_nestings set) bound
    · exact Nat.zero_le _

include sound

/-- The body of a described value needs the levels of what it contains. A composite without
fields is written as a constructor alone and needs none. -/
theorem bodyNesting_le
    (word : Encoding read levels (bodyEncoding Utf8.encode described) described.rawBody) :
    bodyNesting described ≤ levels := by
  cases described with
  | content portion body => exact (each body List.mem_cons_self).2.whole word
  | unknown descriptor body => exact (each body List.mem_cons_self).2.whole word
  | composite form slots =>
    have typed : Field.readAll form.fields slots = .ok slots := sound.here.typed
    rw [bodyEncoding] at word
    rw [bodyNesting]
    by_cases none : form.fields.isEmpty = true
    · rw [if_pos none]
      exact Nat.zero_le _
    · rw [if_neg none] at word ⊢
      obtain ⟨further, rfl, sequence⟩ := sequence_of_listContainer word
      exact Nat.succ_le_succ (nestings_le_of_slots typed each sequence)

/-- A described value needs the levels of its body and one more. -/
theorem nesting_le_of_described (reads : ∀ name, read (Utf8.encode name) = .ok name)
    (word : Encoding read levels (encoding Utf8.encode (.described described))
      (.described described)) :
    nesting (.described described) ≤ levels := by
  obtain ⟨labelled, canonical⟩ := coded_parts reads sound
  obtain ⟨further, rfl, inside⟩ := encoding_of_described labelled ⟨_, canonical⟩ word
  exact Nat.succ_le_succ (bodyNesting_le sound each inside)

end Described

/-- A sound value needs the levels that it nests. This is the lower bound to its canonical
encoding: a reader with fewer levels does not read it. The induction follows the one for the
encoding, and at each container the reading is cut where it was put together. -/
theorem needs_of_sound (reads : ∀ name, read (Utf8.encode name) = .ok name) (value : Value)
    (sound : value.Everywhere (Sound Utf8.encode)) : Needs read value := by
  have encodes {part : Value} (inside : part.Everywhere (Sound Utf8.encode)) :
      Encodes read part := encodes_of_sound reads part inside
  induction value using Value.induction with
  | simple value simple =>
    constructor
    · intro levels _
      rw [nesting_of_isSimple simple]
      exact Nat.zero_le _
    · intro shared levels _ _
      rw [elementNesting_of_isSimple simple]
      exact Nat.zero_le _
  | list items inductionHypothesis =>
    have each (item : Value) (member : item ∈ items) : Encodes read item ∧ Needs read item :=
      ⟨encodes (sound.item member), inductionHypothesis item member (sound.item member)⟩
    constructor
    · intro levels word
      rw [nesting]
      by_cases none : items.isEmpty = true
      · rw [if_pos none]
        exact Nat.zero_le _
      · rw [encoding, if_neg none] at word
        rw [if_neg none]
        obtain ⟨further, rfl, sequence⟩ := sequence_of_listContainer word
        exact Nat.succ_le_succ (nestings_le_of_sequence each sequence)
    · intro shared levels behind word
      obtain rfl : shared = .list32 := behind
      obtain ⟨further, rfl, sequence⟩ := sequence_of_list rfl rfl word
      exact Nat.succ_le_succ (nestings_le_of_sequence each sequence)
  | map entries inductionHypothesis =>
    have each (entry : Value × Value) (member : entry ∈ entries) :
        (Encodes read entry.1 ∧ Needs read entry.1) ∧
          Encodes read entry.2 ∧ Needs read entry.2 := by
      have key := sound.key member
      have mapped := sound.mapped member
      have needs := inductionHypothesis entry member
      exact ⟨⟨encodes key, needs.1 key⟩, ⟨encodes mapped, needs.2 mapped⟩⟩
    constructor
    · intro levels word
      rcases payload_of_container word with word | word
      · obtain ⟨further, rfl, sequence⟩ := sequence_of_map rfl rfl word
        exact Nat.succ_le_succ (entryNestings_le_of_sequence each sequence)
      · obtain ⟨further, rfl, sequence⟩ := sequence_of_map rfl rfl word
        exact Nat.succ_le_succ (entryNestings_le_of_sequence each sequence)
    · intro shared levels behind word
      obtain rfl : shared = .map32 := behind
      obtain ⟨further, rfl, sequence⟩ := sequence_of_map rfl rfl word
      exact Nat.succ_le_succ (entryNestings_le_of_sequence each sequence)
  | array items inductionHypothesis =>
    have each (item : Value) (member : item ∈ items) : Encodes read item ∧ Needs read item :=
      ⟨encodes (sound.element member), inductionHypothesis item member (sound.element member)⟩
    obtain ⟨descriptor, constructor', shares⟩ :=
      array_elements reads sound fun item member => (each item member).1
    have bound {further : Nat} (sequence : Sequence (Element (payload read further) descriptor
        (sharedCode Utf8.encode (items.map Value.bare)))
        (elements Utf8.encode (sharedCode Utf8.encode (items.map Value.bare)) items) items) :
        elementNestings items ≤ further :=
      elementNestings_le_of_sequence each (fun item member => (shares item member).1)
        (fun item member => (shares item member).2) sequence
    constructor
    · intro levels word
      obtain ⟨further, rfl, sequence⟩ := sequence_of_arrayContainer constructor' word
      exact Nat.succ_le_succ (bound sequence)
    · intro shared levels behind word
      obtain rfl : shared = .array32 := behind
      obtain ⟨further, rfl, sequence⟩ := sequence_of_array rfl rfl constructor' word
      exact Nat.succ_le_succ (bound sequence)
  | described contained inductionHypothesis =>
    have each (value : Value) (member : value ∈ contained.contents) :
        Encodes read value ∧ Needs read value :=
      ⟨encodes (sound.contents member),
        inductionHypothesis value member (sound.contents member)⟩
    constructor
    · intro levels word
      exact nesting_le_of_described sound each reads word
    · intro shared levels behind word
      exact rawNesting_le each behind word

/-- The canonical encoding of a sound value is one within some levels exactly if the value nests
no deeper. -/
theorem encoding_iff_nesting_le (reads : ∀ name, read (Utf8.encode name) = .ok name)
    {value : Value} (sound : value.Everywhere (Sound Utf8.encode)) :
    Encoding read levels (encoding Utf8.encode value) value ↔ nesting value ≤ levels := by
  constructor
  · exact (needs_of_sound reads value sound).whole
  · exact (encodes_of_sound reads value sound).whole.mono

end Canonical

end Amqp
