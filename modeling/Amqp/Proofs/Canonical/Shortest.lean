import Amqp.Proofs.Decoder.Regularity
import Amqp.Proofs.RoundTrip
import Amqp.Text.Utf8.Exactness

/-!
# No encoding is shorter

Among all byte strings that are read as a value, what is written of it is of the least length, as
long as the value has no arrays and no described values of known forms. The elements of an array are
written in their full width, and some known forms behind a long prefix whatever their length; for
these the law fails.

The induction is on the value. What a container holds is no longer than it is in any other
encoding, and so is the container, because its short prefix is chosen whenever any encoding of
the same items has it. The same comparison shows that a value which can be read from some bytes
at all has lengths and sizes that fit, so it is written however deep it nests.
-/

namespace Amqp

open Canonical (Checked Fits encoding encodings entryEncodings nesting)
open Decoder (decodeValue)
open Encoder (Ready State Written encodeValue)
open Grammar (Coded Encoding Label Paired Payload Scalar Sequence counted frame)

/-- A value that is no array and is not described by a known form. -/
def Value.Schemaless : Value → Prop
  | array _ => False
  | described (.unknown descriptor _) => Registry.standard.find? descriptor = none
  | described _ => False
  | _ => True

/-- Induction over the values without arrays and known forms, which leaves out what has one. The
encodings of other values are not always shortest: elements of an array may be shorter one by
one. -/
theorem Value.induction_schemaless {motive : Value → Prop}
    (simple : ∀ {value : Value}, value.isSimple = true → motive value)
    (list : ∀ {items : List Value}, (∀ item ∈ items, motive item) → motive (.list items))
    (map : ∀ {entries : Entries}, (∀ entry ∈ entries, motive entry.1 ∧ motive entry.2) →
      motive (.map entries))
    (unknown : ∀ {descriptor : Descriptor} {body : Value}, motive body →
      motive (.described (.unknown descriptor body)))
    (value : Value) (schemaless : value.Everywhere Schemaless) : motive value := by
  induction value using Value.induction with
  | simple value isSimple => exact simple isSimple
  | list items inductionHypothesis =>
    exact list fun item member => inductionHypothesis item member (schemaless.item member)
  | map entries inductionHypothesis =>
    refine map fun entry member => ?_
    obtain ⟨key, mapped⟩ := inductionHypothesis entry member
    exact ⟨key (schemaless.key member), mapped (schemaless.mapped member)⟩
  | array items => exact schemaless.here.elim
  | described contained inductionHypothesis =>
    cases contained with
    | unknown descriptor body =>
      refine unknown (inductionHypothesis body List.mem_cons_self ?_)
      exact schemaless.contents List.mem_cons_self
    | composite | content => exact schemaless.here.elim

namespace Canonical

section Scalars

variable {code : Code} {content : Bytes}

/-- An unsigned number takes no more than any of its forms that it fits: nothing for zero, one
byte below 256, and full width always. -/
theorem length_unsigned_le {zero small full : Code} {width number length : Nat} (some : 0 < width)
    (form : number = 0 ∨ number < 256 ∧ length = 1 ∨ length = width) :
    (unsigned zero small full width number).length ≤ length + 1 := by
  unfold unsigned numbered
  split
  · simp
  · split
    · rw [List.length_cons, Bytes.length_be]
      omega
    · rw [List.length_cons, Bytes.length_be]
      omega

/-- A signed number takes no more than either of its forms that it fits: one byte between -128
and 127, and full width always. -/
theorem length_signed_le {small full : Code} {width pattern length : Nat} {number : Int}
    {byte : Int8} (some : 0 < width)
    (form : (-128 ≤ number ∧ number < 128) ∧ length = 1 ∨ length = width) :
    (signed small full width number byte pattern).length ≤ length + 1 := by
  unfold signed numbered
  split
  · rw [List.length_cons, Bytes.length_be]
    omega
  · rw [List.length_cons, Bytes.length_be]
    omega

/-- A byte that is widened fits a byte. -/
theorem fits_of_byte {number : Int} {byte : Int8} (same : number = byte.toInt) :
    -128 ≤ number ∧ number < 128 := by
  have low := byte.le_toInt
  have high := byte.toInt_lt
  omega

/-- No unsigned number of 64 bits is shorter than in its shortest form. -/
theorem length_shortUlong_le {value : UInt64} (scalar : Scalar code content (.ulong value)) :
    (shortUlong value).length ≤ content.length + 1 := by
  apply length_unsigned_le (by decide)
  cases scalar with
  | ulong0 => exact .inl rfl
  | smallUlong byte => exact .inr (.inl ⟨byte.toNat_toUInt64 ▸ byte.toNat_lt, Bytes.length_be _ _⟩)
  | ulong => exact .inr (.inr (Bytes.length_be _ _))

/-- A value of fixed width is no shorter than as it is written. Only the numbers of 32 and 64
bits have more than one form, and a form of one byte can only be read as a number that the short
form fits. -/
theorem length_simpleEncoding_le_of_scalar {text : String → Bytes} {value : Value}
    (scalar : Scalar code content value) (simple : value.isSimple = true) :
    (simpleEncoding text value).length ≤ content.length + 1 := by
  cases value with
  | uint value =>
    apply length_unsigned_le (by decide)
    cases scalar with
    | uint0 => exact .inl rfl
    | smallUint byte =>
      exact .inr (.inl ⟨byte.toNat_toUInt32 ▸ byte.toNat_lt, Bytes.length_be _ _⟩)
    | uint => exact .inr (.inr (Bytes.length_be _ _))
  | ulong value => exact length_shortUlong_le scalar
  | int value =>
    apply length_signed_le (by decide)
    cases scalar with
    | smallInt byte => exact .inl ⟨fits_of_byte byte.toInt_toInt32, Bytes.length_be _ _⟩
    | int => exact .inr (Bytes.length_be _ _)
  | long value =>
    apply length_signed_le (by decide)
    cases scalar with
    | smallLong byte => exact .inl ⟨fits_of_byte byte.toInt_toInt64, Bytes.length_be _ _⟩
    | long => exact .inr (Bytes.length_be _ _)
  | boolean value => simp [simpleEncoding]
  | list | map | array | described => cases simple
  | _ => cases scalar <;> simp [simpleEncoding, fixedPayload]

end Scalars

section Prefixes

variable {code : Code} {width : Nat}

/-- The prefix of a length or a size has one byte or four. -/
theorem width_eq (category : code.category = .variable width ∨ code.category = .compound width) :
    width = 1 ∨ width = 4 := by
  cases code <;> rcases category with category | category <;> cases category <;> simp

/-- Bytes behind their length are no shorter than behind the shorter prefix. -/
theorem length_measured_le (narrow : Code) {bytes : Bytes}
    (category : code.category = .variable width) (fits : bytes.length < 256 ^ width) :
    (measured narrow bytes).length ≤ (counted width bytes).length + 1 := by
  unfold measured counted
  rcases width_eq (.inl category) with rfl | rfl
  · rw [if_pos fits]
    simp
  · split <;> simp

/-- A container is no shorter than in the shorter frame, even if what it holds is longer. Longer
content can only need the longer frame. -/
theorem length_container_le (narrow : Code) {content other : Bytes} {count count' : Nat}
    (category : code.category = .compound width) (paid : count ≤ content.length)
    (shorter : content.length ≤ other.length) (fits : width + other.length < 256 ^ width) :
    (container narrow false count content).length ≤ (frame width count' other).length + 1 := by
  unfold container frame
  rcases width_eq (.inr category) with rfl | rfl
  · rw [if_pos ⟨rfl, by omega, by omega⟩]
    simp only [List.length_cons, List.length_append, Bytes.length_be]
    omega
  · split <;> simp only [List.length_cons, List.length_append, Bytes.length_be] <;> omega

/-- A length that fits any width fits four bytes. -/
theorem fits_of_length {length : Nat} (category : code.category = .variable width)
    (fits : length < 256 ^ width) : length < 256 ^ 4 := by
  rcases width_eq (.inl category) with rfl | rfl <;> omega

/-- The size of what is shorter than a content whose size fits any width fits four bytes. -/
theorem fits_of_size {size size' : Nat} (category : code.category = .compound width)
    (shorter : size ≤ size') (fits : width + size' < 256 ^ width) : 4 + size < 256 ^ 4 := by
  rcases width_eq (.inr category) with rfl | rfl <;> omega

end Prefixes

end Canonical

/-- Bytes that are read strictly are the bytes of the text. -/
theorem TextDecoder.encode_of_strict {bytes : Bytes} {text : String}
    (read : strict bytes = .ok text) : Utf8.encode text = bytes := by
  rw [strict] at read
  cases decoded : Utf8.decode bytes with
  | error fault =>
    rw [decoded] at read
    cases read
  | ok result =>
    rw [decoded] at read
    cases read
    exact Utf8.encode_of_decode decoded

namespace Canonical

/-- What is said of a value for all its encodings: they are no shorter than what is written of
it, whose lengths and sizes fit. -/
def Least (value : Value) : Prop :=
  ∀ ⦃levels bytes⦄, Encoding .strict levels bytes value →
    (encoding Utf8.encode value).length ≤ bytes.length ∧ value.Everywhere (Fits Utf8.encode)

section Parts

/-- No descriptor is shorter than as it is written, and it fits. Numbers and symbols have several
forms each, of which the shortest that fits is written. -/
theorem least_label {bytes : Bytes} {descriptor : Descriptor}
    (labelled : Coded (Label .strict) bytes descriptor) :
    (label descriptor).length ≤ bytes.length ∧ LabelFits descriptor := by
  obtain ⟨code, content, rfl, word⟩ := labelled
  cases word with
  | code scalar => exact ⟨length_shortUlong_le scalar, labelFits_code _⟩
  | symbol category kind fits read =>
    obtain rfl := TextDecoder.encode_of_strict read
    refine ⟨length_measured_le .symbol8 category fits, ?_⟩
    rintro _ ⟨⟩
    exact fits_of_length category fits

/-- A value that contains no values is least. A length that fits its own prefix fits four bytes,
so what can be read can be written. -/
theorem least_simple {value : Value} (simple : value.isSimple = true) : Least value := by
  rintro levels _ ⟨code, content, rfl, word⟩
  rw [encoding_of_isSimple simple]
  rw [Grammar.payload_eq] at word
  have here (fits : Fits Utf8.encode value) : value.Everywhere (Fits Utf8.encode) :=
    .of_simple simple fits
  cases word with
  | scalar scalar =>
    refine ⟨length_simpleEncoding_le_of_scalar scalar simple, here ?_⟩
    cases scalar <;> trivial
  | binary category kind fits =>
    exact ⟨length_measured_le .binary8 category fits, here (fits_of_length category fits)⟩
  | string category kind fits read =>
    obtain rfl := TextDecoder.encode_of_strict read
    exact ⟨length_measured_le .string8 category fits, here (fits_of_length category fits)⟩
  | symbol category kind fits read =>
    obtain rfl := TextDecoder.encode_of_strict read
    exact ⟨length_measured_le .symbol8 category fits, here (fits_of_length category fits)⟩
  | list | map | noArray | array | described => cases simple

/-- Values one after the other are no shorter than as they are written. Other encodings may be
cut elsewhere, so the comparison is along the sequence that is given. -/
theorem least_sequence {levels : Nat} {bytes : Bytes} {items : List Value}
    (each : ∀ item ∈ items, Least item)
    (sequence : Sequence (Encoding .strict levels) bytes items) :
    (encodings Utf8.encode items).length ≤ bytes.length ∧
      ∀ item ∈ items, item.Everywhere (Fits Utf8.encode) := by
  induction sequence with
  | nil => exact ⟨Nat.le_refl 0, nofun⟩
  | cons first _ inductionHypothesis =>
    obtain ⟨here, later⟩ := List.forall_mem_cons.mp each
    obtain ⟨short, fits⟩ := here first
    obtain ⟨shorts, others⟩ := inductionHypothesis later
    rw [Canonical.encodings, List.length_append, List.length_append]
    exact ⟨Nat.add_le_add short shorts, List.forall_mem_cons.mpr ⟨fits, others⟩⟩

/-- Keys and values one after the other are no shorter than as they are written, each key and
each value by itself. -/
theorem least_entries {levels : Nat} {bytes : Bytes} {entries : Entries}
    (each : ∀ entry ∈ entries, Least entry.1 ∧ Least entry.2)
    (sequence : Sequence (Paired (Encoding .strict levels)) bytes entries) :
    (entryEncodings Utf8.encode entries).length ≤ bytes.length ∧ ∀ entry ∈ entries,
      entry.1.Everywhere (Fits Utf8.encode) ∧ entry.2.Everywhere (Fits Utf8.encode) := by
  induction sequence with
  | nil => exact ⟨Nat.le_refl 0, nofun⟩
  | @cons _ _ entry _ first _ inductionHypothesis =>
    obtain ⟨here, later⟩ := List.forall_mem_cons.mp each
    obtain ⟨front, back, rfl, key, mapped⟩ := first
    obtain ⟨shortKey, fitsKey⟩ := here.1 key
    obtain ⟨shortMapped, fitsMapped⟩ := here.2 mapped
    obtain ⟨shorts, others⟩ := inductionHypothesis later
    rw [Canonical.entryEncodings]
    simp only [List.length_append]
    exact ⟨by omega, List.forall_mem_cons.mpr ⟨⟨fitsKey, fitsMapped⟩, others⟩⟩

end Parts

/-- A list is least if its items are. Its content is no longer than in any other encoding, so if
the short frame was possible there, it is chosen here. -/
theorem least_list {items : List Value} (each : ∀ item ∈ items, Least item) :
    Least (.list items) := by
  rintro levels _ ⟨code, content, rfl, word⟩
  rw [Grammar.payload_eq] at word
  cases word with
  | scalar scalar =>
    cases scalar
    have small : (4 : Nat) < 256 ^ 4 := by decide
    exact ⟨Nat.le_refl 1, .of_list small nofun⟩
  | list category kind level sequence fits =>
    obtain ⟨further, rfl, rfl⟩ := Grammar.payloadBelow_eq_some.mp level
    obtain ⟨shorter, inside⟩ := least_sequence each sequence
    constructor
    · rw [encoding]
      split
      · simp
      · exact length_container_le .list8 category (length_le_encodings items) shorter fits
    · exact .of_list (fits_of_size category shorter fits) inside

/-- A map is least if its keys and values are. The order of its pairs is part of the value, so
there is no other way of writing it but by other frames. -/
theorem least_map {entries : Entries} (each : ∀ entry ∈ entries, Least entry.1 ∧ Least entry.2) :
    Least (.map entries) := by
  rintro levels _ ⟨code, content, rfl, word⟩
  rw [Grammar.payload_eq] at word
  cases word with
  | scalar scalar => cases scalar
  | map category kind level sequence fits =>
    obtain ⟨further, rfl, rfl⟩ := Grammar.payloadBelow_eq_some.mp level
    obtain ⟨shorter, inside⟩ := least_entries each sequence
    constructor
    · exact length_container_le .map8 category (length_le_entryEncodings entries) shorter fits
    · exact .of_map (fits_of_size category shorter fits) inside

/-- A described value of no known form is least if its body is: only its own descriptor and body
are read as it. The bytes of a known form would be read as that form. -/
theorem least_unknown {descriptor : Descriptor} {body : Value} (least : Least body) :
    Least (.described (.unknown descriptor body)) := by
  rintro levels _ ⟨code, content, rfl, word⟩
  rw [Grammar.payload_eq] at word
  cases word with
  | scalar scalar => cases scalar
  | described level labelled encoded resolved =>
    obtain ⟨further, rfl, rfl⟩ := Grammar.payloadBelow_eq_some.mp level
    rcases Registry.resolve_eq_ok_iff.mp resolved with ⟨_, same⟩ | ⟨_, _, _, _, _, _, same⟩ |
      ⟨_, _, _, _, same⟩ <;> cases same
    obtain ⟨shortLabel, fitsLabel⟩ := least_label labelled
    obtain ⟨shortBody, fitsBody⟩ := least encoded
    constructor
    · change (Code.described.toByte :: label descriptor ++ encoding Utf8.encode body).length ≤ _
      simp only [List.length_cons, List.length_append]
      omega
    · refine .of_unknown ?_ fitsBody
      cases descriptor with
      | code number => trivial
      | symbol name => exact fitsLabel name rfl

/-- A value without arrays and known forms is least. -/
theorem least_of_schemaless (value : Value) (schemaless : value.Everywhere Value.Schemaless) :
    Least value :=
  Value.induction_schemaless least_simple least_list least_map least_unknown value schemaless

end Canonical

/-- A value without arrays and known forms is written however deep it nests, because nothing of
it is read back. -/
theorem Encoder.written_of_schemaless {below : BodyWriter} {levels : Nat} (value : Value)
    (schemaless : value.Everywhere Value.Schemaless) : Written below levels value :=
  Value.induction_schemaless written_simple written_list written_map written_unknown value
    schemaless

/-- All of some bytes are read as a value, on a buffer over them or on a stream over a reader
that delivers them. -/
inductive ReadWhole (settings : DecoderSettings) (bytes : Bytes) (value : Value) : Prop
  | fromBuffer {after : Buffer}
      (read : decodeValue settings (Buffer.ofBytes bytes) = .ok value after)
      (position : after.position = bytes.length) : ReadWhole settings bytes value
  | fromStream {reader : Reader} {after : Stream} (delivers : reader.Delivers bytes)
      (read : decodeValue settings (Stream.ofReader reader) = .ok value after)
      (position : after.position = bytes.length) : ReadWhole settings bytes value

/-- Bytes that are read whole are an encoding. That the position is that of the end leaves
nothing behind the word that was read. -/
theorem ReadWhole.encoding {settings : DecoderSettings} {bytes : Bytes} {value : Value}
    (whole : ReadWhole settings bytes value) :
    Encoding settings.text settings.maxDepth bytes value := by
  have all {σ : Type} [Source σ] [Source.Lawful σ] {source after : σ}
      (begun : Source.Lawful.Facing source bytes 0)
      (read : decodeValue settings source = .ok value after)
      (position : Source.position after = bytes.length) :
      Encoding settings.text settings.maxDepth bytes value := by
    obtain ⟨front, back, rfl, encoding, settled⟩ :=
      (Decoder.parsesFrom_decodeValue settings).sound begun read
    have taken := Source.Lawful.position_eq (Source.Lawful.facing settled)
    rw [position, List.length_append, Nat.zero_add] at taken
    obtain rfl : back = [] := List.eq_nil_of_length_eq_zero (by omega)
    rwa [List.append_nil]
  cases whole with
  | fromBuffer read position => exact all (Buffer.holds_ofBytes bytes) read position
  | fromStream delivers read position =>
    exact all (Stream.faces_of_holds (Stream.holds_ofReader delivers)) read position

/-- Writing is optimal in size. A value without arrays and known forms that is read from all of
some bytes, from a buffer or a stream and within any levels, is written, and as no more bytes
than those. That it is written is part of what is shown: its lengths fit because they fit there.
Text is read strictly, since a repaired text may be longer than the bytes it came from.

Proof: Induction on the value compares every encoding in the grammar with the canonical one, part
by part. Prefixes grow with what they count, so shorter parts have no longer prefix. -/
theorem length_encodeValue_le {settings : DecoderSettings} (strict : settings.text = .strict)
    {value : Value} (schemaless : value.Everywhere Value.Schemaless) {bytes : Bytes}
    (read : ReadWhole settings bytes value) (state : State) :
    ∃ after written, encodeValue .strict value state = .ok () after ∧
      after.sink.toBytes = state.sink.toBytes ++ written ∧ written.length ≤ bytes.length := by
  have encoded := read.encoding
  rw [strict] at encoded
  obtain ⟨shorter, fits⟩ := Canonical.least_of_schemaless value schemaless encoded
  have writes := ((@Encoder.written_of_schemaless Encoder.standardBodies (nesting value) value
    schemaless).whole Utf8.encode).atomic
  have ready : value.Everywhere (Ready Utf8.encode) := fun part inside => by
    have checked : Checked Utf8.encode part := by
      refine ⟨fits part inside, ?_, ?_⟩
      · cases part <;> first | trivial | exact (schemaless _ inside).elim
      · cases part <;> first | trivial | exact (schemaless _ inside).elim
    exact ⟨checked, checked⟩
  obtain ⟨after, ran, appended⟩ := writes.complete ⟨ready, Nat.le_refl _⟩ state
  exact ⟨after, _, ran, by rw [appended, Sink.toBytes_put], shorter⟩

/-- An encoding in which all numbers and prefixes are padded. -/
def padded : Bytes :=
  Code.map32.toByte :: frame 4 2 ([0x52, 0x00] ++
    [0x00, 0x80, 0, 0, 0, 0, 0, 0, 0, 0x99] ++ Code.list32.toByte ::
      frame 4 1 [0x71, 0xff, 0xff, 0xff, 0xff])

/-- The map that these bytes stand for. -/
def paddedMap : Value :=
  .map [(.uint 0, .described (.unknown (.code 0x99) (.list [.int (-1)])))]

/-- The padded encoding takes 35 bytes, and its map is written as 12. It holds a described value
of no known form, so the case of descriptors is met as well. -/
theorem length_encodeValue_le_padded :
    ReadWhole .standard padded paddedMap ∧ padded.length = 35 ∧
      ∃ after, encodeValue .strict paddedMap (.fresh .splice) = .ok () after ∧
        after.sink.toBytes = [0xc1, 10, 2, 0x43, 0x00, 0x53, 0x99, 0xc0, 3, 1, 0x54, 0xff] ∧
        after.sink.toBytes.length ≤ padded.length := by
  have ran : decodeValue .standard (Buffer.ofBytes padded) =
    .ok paddedMap ⟨[], 35, 0, rfl⟩ := rfl
  have read : ReadWhole .standard padded paddedMap := .fromBuffer ran rfl
  have schemaless : paddedMap.Everywhere Value.Schemaless := by
    refine .of_map trivial (List.forall_mem_singleton.mpr ⟨.of_simple rfl trivial, ?_⟩)
    refine .of_unknown rfl (.of_list trivial (List.forall_mem_singleton.mpr ?_))
    exact .of_simple rfl trivial
  obtain ⟨after, written, ran, appended, shorter⟩ :=
    length_encodeValue_le rfl schemaless read (.fresh .splice)
  refine ⟨read, rfl, after, ran, ?_, ?_⟩
  · cases ran
    rfl
  · rw [appended]
    exact shorter

end Amqp
