import Amqp.Proofs.Encoder.Values

/-!
# What is written is read back

A value that was written is read back from what was appended, whatever bytes come behind it,
and these are left. This holds for every source that follows the laws of sources, hence for
buffers, and for streams whose readers deliver the bytes in any pieces. A list of values that
were written one after the other is read back by reading up to the end.

A value must be one that the types of its slots and contents admit, and a described value of no
known form must not have the descriptor of a known one, because reading would then find the
form. The reader needs the levels that the encoding needs, which the writer did not count.
-/

namespace Amqp

open Source (Lawful)
open Source.Lawful (Facing Settled)
open Canonical (Checked Sound encoding nesting)
open Decoder (decodeAll decodeUntilEnd decodeValue)
open Encoder (State encodeValue putEach)
open Grammar (Encoding Sequence)

namespace Decoder

variable {σ : Type} [Source σ] [Lawful σ]

/-- Whether there is a next byte, which stays in place. -/
theorem hasRemaining_of_facing {source : σ} {rest : Bytes} {taken : Nat}
    (faces : Facing source rest taken) :
    ∃ after, Source.hasRemaining source = .ok (!rest.isEmpty) after ∧
      Facing after rest taken := by
  obtain ⟨after, shown, kept⟩ := Lawful.peek_facing faces
  refine ⟨after, (bind_of_ok shown).trans ?_, kept⟩
  cases rest <;> rfl

/-- Reading up to the end gives a sequence of values whose encodings are all that comes. The
bound on the number of steps is above that of the values, since one step more is made to see the
end. -/
theorem decodeUntilEnd_of_sequence {settings : DecoderSettings} {bytes : Bytes}
    {values : List Value}
    (sequence : Sequence (Encoding settings.text settings.maxDepth) bytes values)
    {bound : Nat} (enough : values.length < bound) (front : List Value) {source : σ} {taken : Nat}
    (faces : Facing source bytes taken) :
    ∃ after, decodeUntilEnd settings bound front source = .ok (front.reverse ++ values) after ∧
      Facing after [] (taken + bytes.length) := by
  induction sequence generalizing bound front source taken with
  | nil =>
    cases bound with
    | zero => cases enough
    | succ bound =>
      obtain ⟨after, shown, kept⟩ := hasRemaining_of_facing faces
      refine ⟨after, ?_, kept⟩
      rw [List.append_nil, decodeUntilEnd]
      exact bind_of_ok shown
  | @cons bytes back item items first _ inductionHypothesis =>
    cases bound with
    | zero => cases enough
    | succ bound =>
      obtain ⟨middle, shown, kept⟩ := hasRemaining_of_facing faces
      obtain ⟨next, ran, settled⟩ := (parsesFrom_decodeValue settings).complete kept first
      obtain ⟨after, others, final⟩ := inductionHypothesis (Nat.lt_of_succ_lt_succ enough)
        (item :: front) (Lawful.facing settled)
      have some : (!(bytes ++ back).isEmpty) = true := by
        obtain ⟨code, content, rfl, _⟩ := first
        rfl
      refine ⟨after, ?_, by rwa [List.length_append, ← Nat.add_assoc]⟩
      rw [some] at shown
      rw [decodeUntilEnd]
      refine (bind_of_ok shown).trans ((bind_of_ok ran).trans ?_)
      rw [others, List.reverse_cons, List.append_assoc]
      rfl

/-- Reading everything gives a sequence of values whose encodings are all that comes. Each of
them takes a byte at least, so there are no more of them than bytes. -/
theorem decodeAll_of_sequence {settings : DecoderSettings} {bytes : Bytes} {values : List Value}
    (sequence : Sequence (Encoding settings.text settings.maxDepth) bytes values) {source : σ}
    (faces : Facing source bytes 0) :
    ∃ after, decodeAll settings source = .ok values after ∧ Facing after [] bytes.length := by
  have few := sequence.length_le fun _ _ coded => coded.ne_nil
  have pending : Source.pending source = bytes.length := Lawful.pending_eq faces
  have enough : values.length < Source.pending source + 1 := by omega
  obtain ⟨after, ran, final⟩ := decodeUntilEnd_of_sequence sequence enough [] faces
  rw [Nat.zero_add] at final
  exact ⟨after, ran, final⟩

end Decoder

/-- A value is read from the front of some bytes, on a buffer over them and on a stream over
every reader that delivers them, and what is behind is left. -/
structure ReadsBack (settings : DecoderSettings) (bytes suffix : Bytes) (value : Value) : Prop where
  fromBuffer : ∃ after : Buffer,
    decodeValue settings (Buffer.ofBytes (bytes ++ suffix)) = .ok value after ∧
      after.rest = suffix ∧ after.position = bytes.length
  fromStream {reader : Reader} : reader.Delivers (bytes ++ suffix) → ∃ after : Stream,
    decodeValue settings (Stream.ofReader reader) = .ok value after ∧ after.peeked = none ∧
      after.reader.Delivers suffix ∧ after.position = bytes.length

/-- Values are what is read from some bytes up to their end, on a buffer over them and on a
stream over every reader that delivers them. -/
structure AllReadBack (settings : DecoderSettings) (bytes : Bytes) (values : List Value) :
    Prop where
  fromBuffer : ∃ after : Buffer,
    decodeAll settings (Buffer.ofBytes bytes) = .ok values after ∧ after.rest = []
  fromStream {reader : Reader} : reader.Delivers bytes → ∃ after : Stream,
    decodeAll settings (Stream.ofReader reader) = .ok values after ∧ after.reader.undelivered = []

/-- The bytes that a value is read back from are its encodings within the levels of the reader.
So what comes behind them makes no difference, and neither does the source: both are quantified
on the left, and the right side does not mention them. -/
theorem readsBack_iff_encoding {settings : DecoderSettings} {bytes suffix : Bytes}
    {value : Value} : ReadsBack settings bytes suffix value ↔
      Encoding settings.text settings.maxDepth bytes value := by
  have begun : Facing (Buffer.ofBytes (bytes ++ suffix)) (bytes ++ suffix) 0 :=
    Buffer.holds_ofBytes _
  constructor
  · intro reads
    obtain ⟨after, ran, left, _⟩ := reads.fromBuffer
    obtain ⟨front, back, split, encoding, settled⟩ :=
      (Decoder.parsesFrom_decodeValue settings).sound begun ran
    obtain ⟨behind, _⟩ : after.Holds back (0 + front.length) := settled
    rw [← behind, left] at split
    obtain rfl := List.append_cancel_right split
    exact encoding
  · intro encoding
    constructor
    · obtain ⟨after, ran, rest, position⟩ :=
        (Decoder.parsesFrom_decodeValue settings).complete begun encoding
      exact ⟨after, ran, rest, by rw [position, Nat.zero_add]⟩
    · intro reader delivers
      have begun : Facing (Stream.ofReader reader) (bytes ++ suffix) 0 :=
        Stream.faces_of_holds (Stream.holds_ofReader delivers)
      obtain ⟨after, ran, nothing, left, position⟩ :=
        (Decoder.parsesFrom_decodeValue settings).complete begun encoding
      exact ⟨after, ran, nothing, left, by rw [position, Nat.zero_add]⟩

/-- Encodings one after the other are read back up to the end, with nothing left on either kind
of source. -/
theorem allReadBack_of_sequence {settings : DecoderSettings} {bytes : Bytes}
    {values : List Value}
    (sequence : Sequence (Encoding settings.text settings.maxDepth) bytes values) :
    AllReadBack settings bytes values := by
  constructor
  · have begun : Facing (Buffer.ofBytes bytes) bytes 0 := Buffer.holds_ofBytes bytes
    obtain ⟨after, ran, rest, _⟩ := Decoder.decodeAll_of_sequence sequence begun
    exact ⟨after, ran, rest⟩
  · intro reader delivers
    have begun : Facing (Stream.ofReader reader) bytes 0 :=
      Stream.faces_of_holds (Stream.holds_ofReader delivers)
    obtain ⟨after, ran, behind, left, split, _⟩ := Decoder.decodeAll_of_sequence sequence begun
    obtain ⟨_, rfl⟩ := List.append_eq_nil_iff.mp split
    exact ⟨after, ran, left.2⟩

/-- What was written of a plain value is an encoding of it. -/
theorem encoding_of_checked {settings : DecoderSettings} (strict : settings.text = .strict)
    {value : Value} (plain : value.Everywhere Value.Plain)
    (checked : value.Everywhere (Checked Utf8.encode))
    (within : nesting value ≤ settings.maxDepth) :
    Encoding settings.text settings.maxDepth (encoding Utf8.encode value) value := by
  have sound : value.Everywhere (Sound Utf8.encode) := fun part inside =>
    ⟨plain part inside, checked part inside⟩
  rw [strict]
  exact (Canonical.encodes_of_sound TextDecoder.strict_encode value sound).whole.mono within

/-- Reading undoes writing. Every value that is accepted is read back with whatever comes behind
it left, and every list of values that were written into one sink is read back by reading up to
the end. The reader needs the levels that the encoding needs and strict text; a value that does
not mean what it seems to would be read as something else.

Proof: What is written is the canonical encoding, a function of the value alone. It is an
encoding in the grammar, by induction on the value, within the levels that the value nests. A
reader gives for every encoding the value that it stands for, whatever comes behind it and in
whatever pieces. -/
theorem decodeValue_encodeValue {settings : DecoderSettings} (strict : settings.text = .strict) :
    (∀ (value : Value) (state after : State), value.Everywhere Value.Plain →
      nesting value ≤ settings.maxDepth → encodeValue .strict value state = .ok () after →
        ∃ bytes, after.sink.toBytes = state.sink.toBytes ++ bytes ∧
          ∀ suffix, ReadsBack settings bytes suffix value) ∧
    ∀ (values : List Value) (state after : State),
      (∀ value ∈ values, value.Everywhere Value.Plain ∧ nesting value ≤ settings.maxDepth) →
        putEach (encodeValue .strict) values state = .ok () after →
          ∃ bytes, after.sink.toBytes = state.sink.toBytes ++ bytes ∧
            AllReadBack settings bytes values := by
  constructor
  · intro value state after plain within written
    obtain ⟨checked, _, appended⟩ := (Encoder.writes_encodeValue Utf8.encode plain).sound written
    refine ⟨encoding Utf8.encode value, by rw [appended, Sink.toBytes_put], fun suffix => ?_⟩
    exact readsBack_iff_encoding.mpr (encoding_of_checked strict plain checked within)
  · intro values state after sound written
    obtain ⟨checked, _, appended⟩ := (Encoder.writes_putEach fun value member =>
      Encoder.writes_encodeValue Utf8.encode (sound value member).1).sound written
    refine ⟨values.flatMap (encoding Utf8.encode), by rw [appended, Sink.toBytes_put], ?_⟩
    refine allReadBack_of_sequence (.flatMap fun value member => ?_)
    exact encoding_of_checked strict (sound value member).1 (checked value member)
      (sound value member).2

/-- An array of described elements, of which the last slots are unset, is read back although only
its raw bodies were written. The descriptor that they share finds the form of each of them again.
-/
theorem decodeValue_encodeValue_received :
    let value : Value := .array [.described (.composite .received [.uint 1, .null]),
      .described (.composite .received [.null, .ulong 2])]
    ∃ after : State, encodeValue .strict value (.fresh .splice) = .ok () after ∧
      ReadsBack .standard after.sink.toBytes [0x40] value := by
  intro value
  have composite (slots : List Value)
      (typed : Field.readAll Composite.received.fields slots = .ok slots)
      (simple : slots.all Value.isSimple = true) :
      (Value.described (.composite .received slots)).Everywhere Value.Plain :=
    .of_described ⟨typed, trivial⟩ fun slot member =>
      Value.plain_of_isSimple (List.all_eq_true.mp simple slot member)
  have plain : value.Everywhere Value.Plain := by
    refine .of_array ⟨trivial, trivial⟩ (List.forall_mem_cons.mpr ⟨composite _ rfl rfl, ?_⟩)
    exact List.forall_mem_singleton.mpr (composite _ rfl rfl)
  refine ⟨_, rfl, ?_⟩
  obtain ⟨bytes, appended, reads⟩ := (@decodeValue_encodeValue .standard rfl).1 value
    (.fresh .splice) _ plain (by decide) rfl
  rw [appended]
  exact reads [0x40]

end Amqp
