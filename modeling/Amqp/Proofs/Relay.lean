import Amqp.Proofs.Canonical.Levels
import Amqp.Proofs.Decoder.Nesting
import Amqp.Proofs.RoundTrip

/-!
# What is read can be passed on

A value that was read is written in its canonical form, which is another byte string, and is
read again from that. The canonical form can need one level more than the bytes that were
read, because an array without bytes needs no level and its canonical form names a
constructor. It can also be longer, because numbers of one byte get their full width in
arrays. So the law holds exactly for the values whose canonical form keeps to the limits,
and at either limit it fails.

Null elements have no canonical form at all.
-/

namespace Amqp

open Canonical (Fits Sound encoding nesting)
open Decoder (decodeValue)
open Encoder (Ready State encodeValue)
open Grammar (Encoding Sequence)
open Source.Lawful (Facing)

/-- The canonical form of a value that was read needs one level more at most than the reader had.
It is written and read again exactly if its lengths and sizes fit and it needs no more than the
usual levels, as long as no element is null. The two conditions are about the canonical form and
not about the bytes that were read, and neither follows from these.

Proof: A value that is read is regular, so it is sound once its sizes fit. A sound value is
written if it nests within the usual levels, which are those that raw bodies are read back with
on the way, and its canonical encoding is an encoding within some levels exactly if it nests no
deeper. -/
theorem relay {settings : DecoderSettings} {bytes : Bytes} {value : Value} {read : Buffer}
    (accepted : decodeValue settings (Buffer.ofBytes bytes) = .ok value read)
    (noNull : value.Everywhere Value.NoNull) (state : State) :
    nesting value ≤ settings.maxDepth + 1 ∧
      ((∃ after encoded, encodeValue .strict value state = .ok () after ∧
        after.sink.toBytes = state.sink.toBytes ++ encoded ∧
          ReadsBack .standard encoded [] value) ↔
        value.Everywhere (Fits Utf8.encode) ∧ nesting value ≤ defaultMaxDepth) := by
  have begun : Facing (Buffer.ofBytes bytes) bytes 0 := Buffer.holds_ofBytes bytes
  have regular := Decoder.regular_of_decodeValue begun accepted
  have plain : value.Everywhere Value.Plain := regular.imp fun _ regular => regular.toPlain
  have writes := Encoder.writes_encodeValue Utf8.encode plain
  have sound (fits : value.Everywhere (Fits Utf8.encode)) :
      value.Everywhere (Sound Utf8.encode) := fun part inside =>
    ⟨plain part inside, fits part inside, (regular part inside).uniform, noNull part inside⟩
  have levels (fits : value.Everywhere (Fits Utf8.encode)) :
      Encoding .strict defaultMaxDepth (encoding Utf8.encode value) value ↔
        nesting value ≤ defaultMaxDepth :=
    Canonical.encoding_iff_nesting_le TextDecoder.strict_encode (sound fits)
  constructor
  · obtain ⟨_, _, _, encoding, _⟩ :=
      (Decoder.parsesFrom_decodeValue settings).sound begun accepted
    exact encoding.nesting_le
  constructor
  · rintro ⟨after, encoded, written, appended, reads⟩
    obtain ⟨checked, _, canonical⟩ := writes.sound written
    have fits : value.Everywhere (Fits Utf8.encode) := checked.imp fun _ checked => checked.fits
    rw [canonical, Sink.toBytes_put] at appended
    obtain rfl := List.append_cancel_left appended
    exact ⟨fits, (levels fits).mp (readsBack_iff_encoding.mp reads)⟩
  · rintro ⟨fits, within⟩
    have ready : value.Everywhere (Ready Utf8.encode) := (sound fits).imp fun _ sound =>
      ⟨sound.toChecked, sound.toChecked⟩
    obtain ⟨after, written, _⟩ := writes.complete ⟨ready, within⟩ state
    obtain ⟨_, _, canonical⟩ := writes.sound written
    refine ⟨after, encoding Utf8.encode value, written, by rw [canonical, Sink.toBytes_put], ?_⟩
    exact readsBack_iff_encoding.mpr ((levels fits).mpr within)

/-- A list that was read from its long form with a padded number is written in its short form
with the shortest number, and read again. Three bytes are saved in the size, three in the count
and one in the number. -/
theorem relay_padded :
    (∃ read, decodeValue .standard
        (Buffer.ofBytes [0xd0, 0, 0, 0, 6, 0, 0, 0, 1, 0x52, 0]) = .ok (.list [.uint 0]) read) ∧
      ∃ after, encodeValue .strict (.list [.uint 0]) (.fresh .splice) = .ok () after ∧
        after.sink.toBytes = [0xc0, 2, 1, 0x43] ∧
        ReadsBack .standard after.sink.toBytes [] (.list [.uint 0]) := by
  have accepted : decodeValue .standard
      (Buffer.ofBytes [0xd0, 0, 0, 0, 6, 0, 0, 0, 1, 0x52, 0]) =
        .ok (.list [.uint 0]) ⟨[], 11, 0, rfl⟩ := rfl
  have simple : (Value.uint 0).isSimple = true := rfl
  have noNull : (Value.list [.uint 0]).Everywhere Value.NoNull :=
    .of_list trivial (List.forall_mem_singleton.mpr (.of_simple simple trivial))
  have small : Fits Utf8.encode (.list [.uint 0]) := by
    change 4 + 1 < 256 ^ 4
    decide
  have fits : (Value.list [.uint 0]).Everywhere (Fits Utf8.encode) :=
    .of_list small (List.forall_mem_singleton.mpr (.of_simple simple trivial))
  obtain ⟨_, relayed⟩ := relay accepted noNull (.fresh .splice)
  obtain ⟨after, encoded, written, appended, back⟩ := relayed.mpr ⟨fits, by decide⟩
  refine ⟨⟨_, accepted⟩, after, written, ?_, by rwa [appended]⟩
  cases written
  rfl

section Limit

/-- Lists of one item around the bytes of a value. -/
def nestedBytes : (times : Nat) → Bytes → Bytes
  | 0, bytes => bytes
  | times + 1, bytes => Code.list8.toByte :: Grammar.frame 1 1 (nestedBytes times bytes)

/-- Lists of one item around a value. -/
def nestedLists : (times : Nat) → Value → Value
  | 0, value => value
  | times + 1, value => .list [nestedLists times value]

/-- Each list adds a constructor, a size and a count. -/
theorem length_nestedBytes (times : Nat) (bytes : Bytes) :
    (nestedBytes times bytes).length = bytes.length + 3 * times := by
  induction times with
  | zero => rfl
  | succ times inductionHypothesis =>
    simp only [nestedBytes, Grammar.frame, List.length_cons, List.length_append, Bytes.length_be,
      inductionHypothesis]
    omega

/-- A list of one item around an encoding is a payload one level further up. -/
theorem payload_around {text : TextDecoder} {levels : Nat} {bytes : Bytes} {value : Value}
    (encoding : Encoding text levels bytes value) (fits : bytes.length < 255) :
    Grammar.payload text (levels + 1) .list8 (Grammar.frame 1 1 bytes) (.list [value]) := by
  have one : Sequence (Encoding text levels) bytes [value] := by
    have sequence := Sequence.cons encoding .nil
    rwa [List.append_nil] at sequence
  exact .list rfl rfl rfl one (by omega)

/-- Lists around an encoding are an encoding of lists, each a level further up. -/
theorem encoding_nestedBytes {text : TextDecoder} {levels times : Nat} {bytes : Bytes}
    {value : Value} (encoding : Encoding text levels bytes value)
    (fits : bytes.length + 3 * times < 258) :
    Encoding text (levels + times) (nestedBytes times bytes) (nestedLists times value) := by
  induction times with
  | zero => exact encoding
  | succ times inductionHypothesis =>
    refine ⟨.list8, _, rfl, payload_around (inductionHypothesis (by omega)) ?_⟩
    rw [length_nestedBytes]
    omega

/-- Lists around a value have no null element where the value has none. -/
theorem noNull_nestedLists {value : Value} (noNull : value.Everywhere Value.NoNull) (times : Nat) :
    (nestedLists times value).Everywhere Value.NoNull := by
  induction times with
  | zero => exact noNull
  | succ times inductionHypothesis =>
    exact .of_list trivial (List.forall_mem_singleton.mpr inductionHypothesis)

/-- An array with one element, which is a section around lists, and at the bottom of the lists
an array without bytes. The last list is at the last of the usual levels. -/
def bottomless : Bytes :=
  Code.array8.toByte :: Grammar.frame 1 1
    (Code.described.toByte :: Canonical.label (.code 0x77) ++ [Code.list8.toByte] ++
      Grammar.frame 1 1 (nestedBytes 62 (Code.array8.toByte :: Grammar.frame 1 0 [])))

/-- What the bytes of that array stand for. -/
def bottomlessArray : Value :=
  .array [.described (.content .amqpValue (nestedLists 63 (.array [])))]

/-- Those bytes are an encoding within the usual levels: the array, its section and the lists in
it use up all of them, and the array without bytes at the bottom needs none. -/
theorem encoding_bottomless : Encoding .strict defaultMaxDepth bottomless bottomlessArray := by
  have bottom : Encoding .strict 0 (Code.array8.toByte :: Grammar.frame 1 0 []) (.array []) :=
    ⟨.array8, _, rfl, .noArray rfl rfl⟩
  have lists : Encoding .strict 62 _ (nestedLists 62 (.array [])) :=
    @encoding_nestedBytes .strict 0 62 _ _ bottom (by decide)
  have body := payload_around lists (by rw [length_nestedBytes]; decide)
  have label : Canonical.LabelFits (.code 0x77) := Canonical.labelFits_code 0x77
  have constructor' : Grammar.Constructor .strict _ (some (.code 0x77)) .list8 :=
    .described (Canonical.coded_label TextDecoder.strict_encode label) (by decide)
  have elements : Sequence (Grammar.Element (Grammar.payload .strict 63) (some (.code 0x77)) .list8)
      _ [.described (.content .amqpValue (nestedLists 63 (.array [])))] :=
    .cons ⟨_, body, _, rfl, rfl⟩ .nil
  rw [List.append_nil] at elements
  refine ⟨.array8, _, rfl, .array rfl rfl rfl constructor' elements ?_ ?_⟩
  · decide +kernel
  · decide +kernel

/-- Whether a value is refused because its canonical form needs too many levels. -/
def refused (value : Value) : Bool :=
  match encodeValue .strict value (.fresh .shift) with
  | .error (.refused (.nestingTooDeep 64)) _ => true
  | _ => false

/-- At the limit the law fails: a value without null elements is read whole and then refused,
because its canonical form needs a level more. Of the array at the bottom the canonical form
names a constructor, and the raw body around it is read back by a reader with the usual levels.
-/
theorem relay_at_limit :
    ∃ read : Buffer, decodeValue .standard (Buffer.ofBytes bottomless) = .ok bottomlessArray read ∧
      read.rest = [] ∧ bottomlessArray.Everywhere Value.NoNull ∧
        ∃ after, encodeValue .strict bottomlessArray (.fresh .shift) =
          .error (.refused (.nestingTooDeep 64)) after := by
  obtain ⟨read, accepted, rest, _⟩ :=
    ((@readsBack_iff_encoding .standard _ [] _).mpr encoding_bottomless).fromBuffer
  rw [List.append_nil] at accepted
  have bottom : (Value.array []).Everywhere Value.NoNull := .of_array nofun nofun
  refine ⟨read, accepted, rest, ?_, ?_⟩
  · refine .of_array (List.forall_mem_singleton.mpr nofun) (List.forall_mem_singleton.mpr ?_)
    exact .of_content trivial (noNull_nestedLists bottom 63)
  · have refuses : refused bottomlessArray = true := by decide +kernel
    unfold refused at refuses
    split at refuses
    · next after ran => exact ⟨after, ran⟩
    · cases refuses

/-- An array of numbers of one byte each, all of them one. -/
def ones (count : Nat) : Bytes :=
  Code.array32.toByte :: Grammar.frame 4 count
    ([Code.smallUlong.toByte] ++ (List.replicate count (Value.ulong 1)).flatMap fun _ => [1])

/-- The array that these bytes stand for. -/
def onesArray (count : Nat) : Value := .array (List.replicate count (.ulong 1))

/-- Numbers of one byte each are an encoding of the array as long as the size fits, which counts
the constructor, the count and the numbers. -/
theorem encoding_ones {text : TextDecoder} {count : Nat} (fits : count + 5 < 256 ^ 4) :
    Encoding text 1 (ones count) (onesArray count) := by
  have plain : Grammar.Constructor text [Code.smallUlong.toByte] none .smallUlong :=
    .plain (by decide)
  have each : ∀ item ∈ List.replicate count (Value.ulong 1),
      Grammar.Element (Grammar.payload text 0) none .smallUlong [1] item := by
    intro item member
    obtain rfl := List.eq_of_mem_replicate member
    exact ⟨_, .scalar (.smallUlong 1), rfl⟩
  have sequence := Sequence.flatMap each
  have length : ((List.replicate count (Value.ulong 1)).flatMap fun _ => [(1 : UInt8)]).length =
      count := by simp
  have word := @Grammar.Payload.array text _ .array32 .smallUlong 4 _ _ _ none _ rfl rfl rfl plain
    sequence (by rw [List.length_append, length, List.length_singleton]; omega)
    (by rw [List.length_append, length, List.length_replicate]; omega)
  rw [List.length_replicate] at word
  exact ⟨.array32, _, rfl, word⟩

/-- In the canonical form each of the numbers takes eight bytes, which is more than their size
has room for. Where they were read they took one. -/
theorem not_fits_ones {count : Nat} (many : 256 ^ 4 ≤ 8 * count) :
    ¬ Fits Utf8.encode (onesArray count) := by
  have eight (shared : Code) :
      (Canonical.element Utf8.encode shared (.ulong 1)).length = 8 := rfl
  have length (shared : Code) : (Canonical.elements Utf8.encode shared
      (List.replicate count (.ulong 1))).length = 8 * count := by
    rw [Canonical.elements_eq, List.length_flatMap, List.map_replicate, eight]
    simp [Nat.mul_comm]
  intro fits
  rw [onesArray, Fits, List.length_append, length] at fits
  omega

/-- Sizes that fit need not fit again. An array of so many numbers, half a gigabyte or more, is
read whole, and no state of the encoder can write it, because every number takes eight bytes
among the elements of an array. -/
theorem not_relayed_ones {count : Nat} (fits : count + 5 < 256 ^ 4) (many : 256 ^ 4 ≤ 8 * count) :
    ∃ read : Buffer, decodeValue .standard (Buffer.ofBytes (ones count)) =
        .ok (onesArray count) read ∧
      read.rest = [] ∧ (onesArray count).Everywhere Value.NoNull ∧
        ∀ state after, encodeValue .strict (onesArray count) state ≠ .ok () after := by
  have encoding : Encoding .strict defaultMaxDepth (ones count) (onesArray count) :=
    (encoding_ones fits).mono (by decide)
  obtain ⟨read, accepted, rest, _⟩ :=
    ((@readsBack_iff_encoding .standard _ [] _).mpr encoding).fromBuffer
  rw [List.append_nil] at accepted
  have begun : Facing (Buffer.ofBytes (ones count)) (ones count) 0 := Buffer.holds_ofBytes _
  have regular := Decoder.regular_of_decodeValue begun accepted
  have noNull : (onesArray count).Everywhere Value.NoNull := by
    apply Value.Everywhere.of_array
    · intro item member
      obtain rfl := List.eq_of_mem_replicate member
      intro null
      cases null
    · intro item member
      obtain rfl := List.eq_of_mem_replicate member
      exact .of_simple rfl trivial
  refine ⟨read, accepted, rest, noNull, ?_⟩
  intro state after written
  have writes := Encoder.writes_encodeValue Utf8.encode
    (regular.imp fun _ regular => regular.toPlain)
  exact not_fits_ones many (writes.sound written).1.here.fits

end Limit

end Amqp
