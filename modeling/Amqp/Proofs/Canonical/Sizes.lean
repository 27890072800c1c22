import Amqp.Proofs.Canonical.Conditions

/-!
# Counts are paid for

Every value takes at least one byte, and so does every element of an array behind a
constructor that it can share. The number of values that a container announces is therefore
never larger than the number of bytes of its content.
-/

namespace Amqp.Canonical

open Grammar (counted frame)

variable {text : String → Bytes}

/-- Things that all take bytes are no more than the bytes that they take. -/
theorem length_le_flatMap {α : Type} {write : α → Bytes} {items : List α}
    (each : ∀ item ∈ items, 0 < (write item).length) :
    items.length ≤ (items.flatMap write).length := by
  induction items with
  | nil => exact Nat.le_refl 0
  | cons item items inductionHypothesis =>
    have first := each item List.mem_cons_self
    have later := inductionHypothesis fun other member => each other (List.mem_cons_of_mem _ member)
    rw [List.flatMap_cons, List.length_append, List.length_cons]
    omega

/-- A length and a payload are not empty. -/
theorem length_measuredAs_pos (shared : Code) (bytes : Bytes) :
    0 < (measuredAs shared bytes).length := by
  rw [measuredAs, counted, List.length_append, Bytes.length_be, lengthWidth]
  split <;> omega

/-- A size and a count are not empty. -/
theorem length_frame_pos (count : Nat) (content : Bytes) : 0 < (frame 4 count content).length := by
  rw [frame, List.length_append, List.length_append, Bytes.length_be]
  omega

/-- The payload of an element that contains no values is not empty. -/
theorem length_simplePayload_pos {shared : Code} {value : Value} (simple : value.isSimple = true)
    (notNull : value ≠ .null) : 0 < (simplePayload text shared value).length := by
  cases value with
  | null => exact absurd rfl notNull
  | binary bytes => exact length_measuredAs_pos shared bytes
  | string value => exact length_measuredAs_pos shared (text value)
  | symbol name => exact length_measuredAs_pos shared (Utf8.encode name)
  | list | map | array | described => cases simple
  | _ => simp [simplePayload, fixedPayload, Bytes.length_be]

/-- The payload of an element is not empty. This is where null must not be shared: it has a
constructor without a payload, and arrays of it could announce any number of elements. -/
theorem length_element_pos {shared : Code} {value : Value}
    (behind : Behind text shared value.bare) : 0 < (element text shared value).length := by
  have direct (value : Value) (behind : Behind text shared value) :
      0 < (element text shared value).length := by
    cases simple : value.isSimple with
    | true =>
      rw [element_of_isSimple simple]
      refine length_simplePayload_pos simple ?_
      rintro rfl
      exact behind
    | false =>
      cases value with
      | list | map | array => exact length_frame_pos _ _
      | described contained => cases behind
      | _ => cases simple
  cases value with
  | described contained =>
    cases contained with
    | composite form slots => exact length_frame_pos _ _
    | content portion body => exact direct body behind
    | unknown descriptor body => exact direct body behind
  | _ => exact direct _ behind

/-- No more elements are announced than there are bytes of them. -/
theorem length_le_elements {shared : Code} {items : List Value}
    (behind : ∀ item ∈ items, Behind text shared item.bare) :
    items.length ≤ (elements text shared items).length := by
  rw [elements_eq]
  exact length_le_flatMap fun item member => length_element_pos (behind item member)

/-- No more symbols are announced than there are bytes of them. -/
theorem length_le_symbolContent (names : List String) :
    names.length ≤ (symbolContent names).length := by
  refine Nat.le_succ_of_le (length_le_flatMap fun name _ => ?_)
  exact length_measuredAs_pos (symbolCode names) (Utf8.encode name)

/-- The encoding of a value that contains no values is not empty. -/
theorem length_simpleEncoding_pos (value : Value) : 0 < (simpleEncoding text value).length := by
  unfold simpleEncoding
  cases value <;>
    simp only [shortUint, shortUlong, shortInt, shortLong, unsigned, signed, measured, numbered] <;>
    first | simp | (split <;> first | simp | (split <;> simp))

/-- A container is not empty. -/
theorem length_container_pos (narrow : Code) (wide : Bool) (count : Nat) (content : Bytes) :
    0 < (container narrow wide count content).length := by
  unfold container
  split <;> simp

/-- The encoding of a value is not empty. It begins with a constructor in every case. -/
theorem length_encoding_pos (value : Value) : 0 < (encoding text value).length := by
  cases simple : value.isSimple with
  | true =>
    rw [encoding_of_isSimple simple]
    exact length_simpleEncoding_pos value
  | false =>
    cases value with
    | list items =>
      rw [encoding]
      split
      · simp
      · exact length_container_pos _ _ _ _
    | map entries => exact length_container_pos _ _ _ _
    | array items => exact length_container_pos _ _ _ _
    | described described => simp [encoding]
    | _ => cases simple

/-- No more values are announced than there are bytes of them. -/
theorem length_le_encodings (items : List Value) :
    items.length ≤ (encodings text items).length := by
  rw [encodings_eq]
  exact length_le_flatMap fun item _ => length_encoding_pos item

/-- No more keys and values are announced than there are bytes of them. A pair has two bytes at
least. -/
theorem length_le_entryEncodings (entries : Entries) :
    entries.length * 2 ≤ (entryEncodings text entries).length := by
  induction entries with
  | nil => exact Nat.zero_le _
  | cons entry entries inductionHypothesis =>
    obtain ⟨key, value⟩ := entry
    have first := @length_encoding_pos text key
    have second := @length_encoding_pos text value
    rw [entryEncodings, List.length_append, List.length_append, List.length_cons]
    omega

/-- No more slots are announced than there are bytes of them. Slots that are shown as lists of
symbols are containers, and take bytes also if they are empty. -/
theorem le_length_slotEncodings (fields : List Field) {count : Nat} {slots : List Value}
    (within : count ≤ slots.length) : count ≤ (slotEncodings text fields count slots).length := by
  induction slots generalizing fields count with
  | nil => exact Nat.le_trans within (Nat.zero_le _)
  | cons slot slots inductionHypothesis =>
    cases count with
    | zero => exact Nat.zero_le _
    | succ count =>
      have later := inductionHypothesis fields.tail (Nat.le_of_succ_le_succ within)
      rw [slotEncodings, List.length_append, Nat.add_comm count]
      refine Nat.add_le_add ?_ later
      split
      · exact length_container_pos _ _ _ _
      · exact length_encoding_pos slot

end Amqp.Canonical
