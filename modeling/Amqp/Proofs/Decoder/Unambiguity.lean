import Amqp.Proofs.Decoder.Acceptance

/-!
# The grammar is unambiguous

An encoding tells where it ends and what it stands for. Two encodings at the front of the
same bytes are the same bytes and stand for the same value, because a reader that accepts
both stops at one place with one result. So bytes that are a sequence of encodings in two
ways are cut at the same places.
-/

namespace Amqp

namespace Grammar

/-- No word begins another word, and each word stands for one item. -/
def Unambiguous {α : Type} (language : Bytes → α → Prop) : Prop :=
  ∀ ⦃front back front' back' : Bytes⦄ ⦃item item' : α⦄, language front item →
    language front' item' → front ++ back = front' ++ back' → front = front' ∧ item = item'

/-- A word stands for one item. -/
theorem Unambiguous.eq {α : Type} {language : Bytes → α → Prop}
    (unambiguous : Unambiguous language) {bytes : Bytes} {item item' : α}
    (word : language bytes item) (word' : language bytes item') : item = item' :=
  (unambiguous word word' (Eq.refl (bytes ++ []))).2

end Grammar

open Grammar

namespace Decoder

open Source (Lawful)
open Source.Lawful (Settled)

/-- What a computation accepts is unambiguous. A buffer of the bytes is read once, and has one
result and one position; both words are what it accepted, so they have the same length and stand
for the same item. -/
theorem unambiguous_of_parses {α : Type} {compute : Fetch Buffer α}
    {language : Bytes → α → Prop} (parses : Parses compute language) :
    Unambiguous language := by
  intro front back front' back' item item' word word' same
  have begun : Settled (Buffer.ofBytes (front ++ back)) (front ++ back) 0 :=
    Buffer.holds_ofBytes _
  obtain ⟨after, ran, settled⟩ := parses.complete begun word
  rw [same] at begun
  obtain ⟨after', ran', settled'⟩ := parses.complete begun word'
  rw [← same, ran] at ran'
  cases ran'
  have taken := Lawful.position_eq (Lawful.facing settled)
  have taken' := Lawful.position_eq (Lawful.facing settled')
  exact ⟨List.append_inj_left same (by omega), rfl⟩

end Decoder

namespace Grammar

open Decoder (parses_coded parses_payload parses_readArrayConstructor parses_readDescriptor
  unambiguous_of_parses)

variable (text : TextDecoder)

/-- The payloads of a constructor are unambiguous, whatever levels they are within. -/
theorem unambiguous_payload (code : Code) :
    Unambiguous fun bytes value => ∃ levels, payload text levels code bytes value := by
  rintro front back front' back' value value' ⟨levels, word⟩ ⟨levels', word'⟩ same
  have within := payload_mono (Nat.le_max_left levels levels') word
  have within' := payload_mono (Nat.le_max_right levels levels') word'
  exact unambiguous_of_parses (parses_payload ⟨text, 0⟩ _ code) within within' same

/-- Encodings are unambiguous, whatever levels they are within. -/
theorem unambiguous_encoding :
    Unambiguous fun bytes value => ∃ levels, Encoding text levels bytes value := by
  rintro front back front' back' value value' ⟨levels, word⟩ ⟨levels', word'⟩ same
  have within := word.mono (Nat.le_max_left levels levels')
  have within' := word'.mono (Nat.le_max_right levels levels')
  exact unambiguous_of_parses (parses_coded (parses_payload ⟨text, 0⟩ _)) within within' same

/-- Descriptors are unambiguous. -/
theorem unambiguous_label : Unambiguous (Coded (Label text)) :=
  unambiguous_of_parses (parses_readDescriptor ⟨text, 0⟩)

/-- The shared constructors of arrays are unambiguous. -/
theorem unambiguous_constructor : Unambiguous fun bytes (found : Option Descriptor × Code) =>
    Constructor text bytes found.1 found.2 :=
  unambiguous_of_parses (parses_readArrayConstructor ⟨text, 0⟩)

variable {text}

/-- A body makes one element behind a descriptor. Finding its form is a computation, and so has
one result. -/
theorem Resolves.unique {descriptor : Option Descriptor} {body value value' : Value}
    (resolves : Resolves descriptor body value) (resolves' : Resolves descriptor body value') :
    value = value' := by
  cases descriptor with
  | none => exact resolves.trans resolves'.symm
  | some descriptor =>
    obtain ⟨described, found, rfl⟩ := resolves
    obtain ⟨described', found', rfl⟩ := resolves'
    rw [found] at found'
    cases found'
    rfl

/-- The elements of an array are unambiguous behind their constructor. -/
theorem Unambiguous.element {inside : Code → Bytes → Value → Prop} {shared : Code}
    (unambiguous : Unambiguous (inside shared)) (descriptor : Option Descriptor) :
    Unambiguous (Element inside descriptor shared) := by
  rintro front back front' back' item item' ⟨body, word, resolves⟩ ⟨body', word', resolves'⟩ same
  obtain ⟨rfl, rfl⟩ := unambiguous word word' same
  exact ⟨rfl, resolves.unique resolves'⟩

/-- Pairs of unambiguous words are unambiguous. -/
theorem Unambiguous.paired {one : Bytes → Value → Prop} (unambiguous : Unambiguous one) :
    Unambiguous (Paired one) := by
  rintro _ back _ back' entry entry' ⟨key, value, rfl, first, second⟩
    ⟨key', value', rfl, first', second'⟩ same
  rw [List.append_assoc, List.append_assoc] at same
  obtain ⟨rfl, sameKey⟩ := unambiguous first first' same
  obtain ⟨rfl, sameValue⟩ := unambiguous second second' (List.append_cancel_left same)
  exact ⟨rfl, Prod.ext sameKey sameValue⟩

/-- Items that follow one another in two ways have the same bytes each, if both ways are of an
unambiguous language. The first word of the one way begins the bytes of the other, so it is the
first word there as well, and the rest is a matter of the later items. -/
theorem Sequence.exists_both {α : Type} {one other language : Bytes → α → Prop}
    (unambiguous : Unambiguous language)
    (one_le : ∀ bytes item, one bytes item → language bytes item)
    (other_le : ∀ bytes item, other bytes item → language bytes item) {bytes : Bytes}
    {items : List α} (sequence : Sequence one bytes items)
    (sequence' : Sequence other bytes items) {item : α} (member : item ∈ items) :
    ∃ part, one part item ∧ other part item := by
  induction sequence with
  | nil => cases member
  | @cons front back first rest word later inductionHypothesis =>
    generalize whole : front ++ back = bytes at sequence'
    cases sequence' with
    | cons word' later' =>
      obtain ⟨rfl, _⟩ := unambiguous (one_le _ _ word) (other_le _ _ word') whole
      obtain rfl := List.append_cancel_left whole
      rcases List.mem_cons.mp member with rfl | member
      · exact ⟨_, word, word'⟩
      · exact inductionHypothesis later' member

end Grammar

end Amqp
