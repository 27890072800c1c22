import Amqp.Proofs.Canonical.Encoding
import Amqp.Proofs.Decoder.Unambiguity
import Amqp.Proofs.Encoder.Writing

/-!
# Raw bodies that are read back

The raw body of a described element of a known form is found by writing the element and
reading it back. What is written is the canonical encoding, so nothing but the descriptor and
the raw body of the element can be read. The reader has its own limit of levels. If the
element needs more of them, then nothing is read at all.
-/

namespace Amqp

open Source.Lawful (Facing)
open Canonical (Sound bodyNesting)
open Grammar (Coded Encoding Label unambiguous_encoding unambiguous_label)

/-- The usual reading of text reads UTF-8 back. -/
theorem TextDecoder.strict_encode (name : String) : strict (Utf8.encode name) = .ok name := by
  rw [strict, Utf8.decode_encode]
  rfl

/-- So does the lossy one. -/
theorem TextDecoder.lossy_encode (name : String) : lossy (Utf8.encode name) = .ok name :=
  lossy_of_strict (strict_encode name)

namespace Decoder

variable {settings : DecoderSettings} {front back : Bytes} {descriptor : Descriptor}
  {body : Value} {levels : Nat}

/-- A described value is read as its descriptor and its body, if its levels are at hand. The body
is one level below the value, which is why it needs fewer levels than the limit. -/
theorem exists_decodeDescribedParts (label : Coded (Label settings.text) front descriptor)
    (encoding : Encoding settings.text levels back body) (enough : levels < settings.maxDepth) :
    ∃ after : Buffer, decodeDescribedParts settings
      (Buffer.ofBytes (Code.described.toByte :: (front ++ back))) =
        .ok (descriptor, body) after := by
  obtain ⟨below, depth⟩ := Nat.exists_eq_add_of_lt enough
  have begun : Facing (Buffer.ofBytes (Code.described.toByte :: (front ++ back)))
      (Code.described.toByte :: (front ++ back) ++ []) 0 := by
    rw [List.append_nil]
    exact Buffer.holds_ofBytes _
  have word : PartsEncoding settings (Code.described.toByte :: (front ++ back))
      (descriptor, body) :=
    ⟨levels + below, front, back, depth, rfl, label, encoding.mono (Nat.le_add_right ..)⟩
  obtain ⟨after, ran, _⟩ := (parsesFrom_decodeDescribedParts settings).complete begun word
  exact ⟨after, ran⟩

/-- Whatever is read of a described value is its descriptor and its body. No word of the grammar
can be continued to another one, so the reader finds no other descriptor, and no other body
behind it. -/
theorem eq_of_decodeDescribedParts (label : Coded (Label settings.text) front descriptor)
    (encoding : Encoding settings.text levels back body) {parts : Descriptor × Value}
    {after : Buffer}
    (ran : decodeDescribedParts settings
      (Buffer.ofBytes (Code.described.toByte :: (front ++ back))) = .ok parts after) :
    parts = (descriptor, body) := by
  have begun : Facing (Buffer.ofBytes (Code.described.toByte :: (front ++ back)))
      (Code.described.toByte :: (front ++ back)) 0 := Buffer.holds_ofBytes _
  obtain ⟨word, rest, split, ⟨levels', front', back', _, rfl, label', encoding'⟩, _⟩ :=
    (parsesFrom_decodeDescribedParts settings).sound begun ran
  have behind : front ++ back = front' ++ (back' ++ rest) := by
    rw [← List.append_assoc]
    exact List.tail_eq_of_cons_eq split
  obtain ⟨rfl, sameLabel⟩ := unambiguous_label settings.text label label' behind
  have rest' : back ++ [] = back' ++ rest := by
    rw [List.append_nil]
    exact List.append_cancel_left behind
  obtain ⟨_, sameBody⟩ :=
    unambiguous_encoding settings.text ⟨levels, encoding⟩ ⟨levels', encoding'⟩ rest'
  exact Prod.ext sameLabel.symm sameBody.symm

end Decoder

namespace Encoder

variable {described : Described} {write : Emit Unit} {enough so : Prop}

/-- What is written into a fresh sink is all that it holds. -/
theorem toBytes_of_fresh {state : State} {bytes : Bytes}
    (appended : state.sink = (State.fresh .shift).sink.put bytes) : state.sink.toBytes = bytes := by
  rw [appended, Sink.toBytes_put]
  rfl

/-- If the parts of a sound described value are found, then they are its descriptor and its raw
body. One of no known form has its parts at hand and nothing is written. -/
theorem eq_of_rawParts
    (writes : Writes write enough so () (Canonical.encoding Utf8.encode (.described described)))
    (sound : so → (Value.described described).Everywhere (Sound Utf8.encode))
    {parts : Descriptor × Value} (found : rawParts described write = .ok parts) :
    parts = (described.descriptor, described.rawBody) := by
  unfold rawParts at found
  split at found
  · cases found
    rfl
  · split at found
    · cases found
    · next state ran =>
      obtain ⟨held, _, appended⟩ := writes.atomic.sound ran
      obtain ⟨label, encoding⟩ := Canonical.coded_parts TextDecoder.strict_encode (sound held)
      rw [toBytes_of_fresh appended] at found
      split at found
      · next parts' after read =>
        cases found
        exact Decoder.eq_of_decodeDescribedParts label encoding read
      · cases found

/-- The parts of a sound described value are found if the usual reader has the levels that its
body needs. The limit is that of the reader with the usual settings, whatever the limit of a
reader that the value came from. -/
theorem rawParts_of_sound
    (writes : Writes write enough so () (Canonical.encoding Utf8.encode (.described described)))
    (given : enough) (sound : (Value.described described).Everywhere (Sound Utf8.encode))
    (within : bodyNesting described < defaultMaxDepth) :
    rawParts described write = .ok (described.descriptor, described.rawBody) := by
  unfold rawParts
  split
  · rfl
  · obtain ⟨state, ran, appended⟩ := writes.atomic.complete given (.fresh .shift)
    obtain ⟨label, encoding⟩ := Canonical.coded_parts TextDecoder.strict_encode sound
    obtain ⟨after, read⟩ :=
      @Decoder.exists_decodeDescribedParts .standard _ _ _ _ _ label encoding within
    rw [ran]
    simp only [toBytes_of_fresh appended]
    rw [Canonical.encoding, List.cons_append, read]

end Encoder

end Amqp
