import Amqp.Proofs.Decoder.Containers

/-!
# Decoding accepts exactly the grammar

A value is read from a source exactly if the bytes to come begin with an encoding of it
within the levels of the session. The proof follows the reader: behind each constructor it
accepts the payloads of that constructor, given that the reader one level further down
does.
-/

namespace Amqp.Decoder

open Source (Lawful)
open Source.Lawful (Settled Facing)
open Grammar

variable {σ : Type} [Source σ] [Lawful σ] {α β : Type}

section Inside

variable {settings : DecoderSettings} {inner : Inner σ Value}
  {below : Option (Code → Bytes → Value → Prop)}

/-- A scalar is read from what it is written as, if everything written is a scalar and every
scalar is written. The two premises are the two directions of the grammar, so a constructor whose
reader knew fewer values, or more, than the grammar would meet only one of them. -/
theorem parses_fixed {code : Code} {width : Nat} {compute : Fetch σ β} {write : β → Bytes}
    {finish : β → Value} (parses : Parses compute fun bytes result => bytes = write result)
    (fixed : code.category = .fixed width)
    (only : ∀ result, Scalar code (write result) (finish result))
    (every : ∀ bytes value, Scalar code bytes value →
      ∃ result, bytes = write result ∧ value = finish result) :
    Parses (compute >>= fun result => pure (finish result)) (Payload settings.text below code) := by
  apply (parses.map finish).congr
  intro bytes value
  rw [payload_iff_scalar fixed]
  constructor
  · rintro ⟨result, rfl, rfl⟩
    exact only result
  · exact every bytes value

/-- A scalar without a payload is read from nothing. That the grammar has no other payload for
such a constructor follows from its width. -/
theorem parses_empty {code : Code} {value : Value} (fixed : code.category = .fixed 0)
    (only : Scalar code [] value) (every : ∀ other, Scalar code [] other → other = value) :
    Parses (pure value : Fetch σ Value) (Payload settings.text below code) := by
  apply (parses_pure value).congr
  intro bytes other
  rw [payload_iff_scalar fixed]
  constructor
  · rintro ⟨rfl, rfl⟩
    exact only
  · intro scalar
    obtain rfl : bytes = [] := by
      have width := scalar.category
      rw [fixed] at width
      exact List.length_eq_zero_iff.mp (Category.fixed.inj width).symm
    exact ⟨rfl, every _ scalar⟩

/-- Reading a boolean from a byte of its own. All but two bytes are refused, and the grammar has
no other payload for this constructor; the two constructors that are a boolean by themselves do
not come here. -/
theorem parses_boolean :
    Parses (do
        match ← Source.readUInt8 with
        | 0 => pure (.boolean false)
        | 1 => pure (.boolean true)
        | _ => throw (.malformed "boolean payload must be 0x00 or 0x01") : Fetch σ Value)
      (Payload settings.text below .boolean) := by
  have each (byte : UInt8) : Parses (match byte with
      | 0 => pure (.boolean false)
      | 1 => pure (.boolean true)
      | _ => throw (.malformed "boolean payload must be 0x00 or 0x01") : Fetch σ Value)
      fun bytes value => bytes = [] ∧ ∃ truth : Bool, byte = (if truth then 1 else 0) ∧
        value = .boolean truth := by
    split
    · exact (parses_pure _).congr fun bytes value => by simp
    · exact (parses_pure _).congr fun bytes value => by simp
    · next notFalse notTrue =>
      refine (parses_throw _).congr fun bytes value => ⟨False.elim, ?_⟩
      rintro ⟨_, truth, rfl, _⟩
      cases truth
      · exact notFalse rfl
      · exact notTrue rfl
  apply (Source.parses_readUInt8.bind each).congr
  intro bytes value
  rw [payload_iff_scalar rfl]
  constructor
  · rintro ⟨_, _, byte, rfl, rfl, rfl, truth, rfl, rfl⟩
    cases truth
    · exact .boolean false
    · exact .boolean true
  · intro scalar
    cases scalar with
    | boolean truth =>
      exact ⟨_, [], if truth then 1 else 0, (List.append_nil _).symm, by cases truth <;> rfl, rfl,
        truth, rfl, rfl⟩

/-- Reading a character from its number, which must be a scalar value of Unicode. The grammar
says so by giving the payload of every character, and that no other number is one is what the
bounds of the reader say. -/
theorem parses_char :
    Parses (do
        let number ← Source.readNat 4
        if number < 0xd800 ∨ 0xdfff < number ∧ number < 0x110000 then
          pure (.char (Char.ofNat number))
        else throw (.malformed "char is not a unicode scalar value") : Fetch σ Value)
      (Payload settings.text below .char) := by
  have each (number : Nat) : Parses (
      if number < 0xd800 ∨ 0xdfff < number ∧ number < 0x110000 then
        pure (.char (Char.ofNat number))
      else throw (.malformed "char is not a unicode scalar value") : Fetch σ Value)
      fun bytes value => bytes = [] ∧ number.isValidChar ∧ value = .char (Char.ofNat number) := by
    split
    · next valid => exact (parses_pure _).congr fun bytes value => by simp [Nat.isValidChar, valid]
    · next surrogate =>
      exact (parses_throw _).congr fun bytes value => by simp [Nat.isValidChar, surrogate]
  apply ((parses_readNat 4).bind each).congr
  intro bytes value
  rw [payload_iff_scalar rfl]
  constructor
  · rintro ⟨_, _, number, rfl, ⟨_, rfl⟩, rfl, valid, rfl⟩
    have scalar := Scalar.char (Char.ofNat number)
    have number_eq : (Char.ofNat number).toNat = number := by
      rw [Char.ofNat, dif_pos valid]
      rfl
    rwa [number_eq] at scalar
  · intro scalar
    cases scalar with
    | char value =>
      have small : value.toNat < 256 ^ 4 := by
        have valid : value.toNat.isValidChar := value.valid
        unfold Nat.isValidChar at valid
        omega
      exact ⟨_, [], value.toNat, (List.append_nil _).symm, ⟨small, rfl⟩, rfl, value.valid,
        by rw [Char.ofNat_toNat]⟩

/-- Reading binary values. -/
theorem parses_binary {code : Code} {width : Nat} (category : code.category = .variable width)
    (kind : code.kind = .binary) :
    Parses (readPayload width >>= fun bytes => pure (.binary bytes) : Fetch σ Value)
      (Payload settings.text below code) := by
  apply ((parses_readPayload width).map Value.binary).congr
  intro bytes value
  rw [payload_iff_binary category kind]
  simp only [and_assoc]

/-- Reading strings and symbols: text behind its length, and the value that is made of it. -/
theorem parses_worded {code : Code} {width : Nat} {make : String → Value}
    (behind : ∀ bytes value, Payload settings.text below code bytes value ↔
      ∃ content, content.length < 256 ^ width ∧ bytes = counted width content ∧
        ∃ read, settings.text content = .ok read ∧ value = make read) :
    Parses (readText settings width >>= fun text => pure (make text) : Fetch σ Value)
      (Payload settings.text below code) := by
  apply ((parses_readText settings width).map make).congr
  intro bytes value
  rw [behind]
  constructor
  · rintro ⟨read, ⟨content, fits, rfl, text⟩, rfl⟩
    exact ⟨content, fits, rfl, read, text, rfl⟩
  · rintro ⟨content, fits, rfl, read, text, rfl⟩
    exact ⟨read, ⟨content, fits, rfl, text⟩, rfl⟩

/-- Reading what is behind a constructor accepts the payloads of that constructor. Here the
reader and the grammar meet, constructor by constructor: those of fixed width by what their
values are written as, those with a length by the law of prefixes, and containers by the reader
one level further down, of which only the premise is known. -/
theorem parses_readWith (deeper : InnerParses inner below) (code : Code) :
    Parses (readWith settings inner code) (Payload settings.text below code) := by
  cases code with
  | described =>
    exact ((parses_readDescribed deeper).map Value.described).congr fun bytes value =>
      payload_iff_described.symm
  | null => exact parses_empty rfl .null fun _ scalar => by cases scalar; rfl
  | booleanTrue => exact parses_empty rfl .booleanTrue fun _ scalar => by cases scalar; rfl
  | booleanFalse => exact parses_empty rfl .booleanFalse fun _ scalar => by cases scalar; rfl
  | uint0 => exact parses_empty rfl .uint0 fun _ scalar => by cases scalar; rfl
  | ulong0 => exact parses_empty rfl .ulong0 fun _ scalar => by cases scalar; rfl
  | list0 => exact parses_empty rfl .list0 fun _ scalar => by cases scalar; rfl
  | boolean => exact parses_boolean
  | char => exact parses_char
  | ubyte =>
    apply parses_fixed Source.parses_readUInt8 rfl .ubyte
    intro _ _ scalar
    cases scalar
    exact ⟨_, rfl, rfl⟩
  | byte =>
    apply parses_fixed Source.parses_readUInt8 rfl (fun value => .byte value.toInt8)
    intro _ _ scalar
    cases scalar
    exact ⟨_, rfl, rfl⟩
  | smallUint =>
    apply parses_fixed Source.parses_readUInt8 rfl .smallUint
    intro _ _ scalar
    cases scalar
    exact ⟨_, rfl, rfl⟩
  | smallUlong =>
    apply parses_fixed Source.parses_readUInt8 rfl .smallUlong
    intro _ _ scalar
    cases scalar
    exact ⟨_, rfl, rfl⟩
  | smallInt =>
    apply parses_fixed Source.parses_readUInt8 rfl (fun value => .smallInt value.toInt8)
    intro _ _ scalar
    cases scalar
    exact ⟨_, rfl, rfl⟩
  | smallLong =>
    apply parses_fixed Source.parses_readUInt8 rfl (fun value => .smallLong value.toInt8)
    intro _ _ scalar
    cases scalar
    exact ⟨_, rfl, rfl⟩
  | ushort =>
    apply parses_fixed Source.parses_readUInt16 rfl .ushort
    intro _ _ scalar
    cases scalar
    exact ⟨_, rfl, rfl⟩
  | short =>
    apply parses_fixed Source.parses_readUInt16 rfl (fun value => .short value.toInt16)
    intro _ _ scalar
    cases scalar
    exact ⟨_, rfl, rfl⟩
  | uint =>
    apply parses_fixed Source.parses_readUInt32 rfl .uint
    intro _ _ scalar
    cases scalar
    exact ⟨_, rfl, rfl⟩
  | int =>
    apply parses_fixed Source.parses_readUInt32 rfl (fun value => .int value.toInt32)
    intro _ _ scalar
    cases scalar
    exact ⟨_, rfl, rfl⟩
  | float =>
    apply parses_fixed Source.parses_readUInt32 rfl .float
    intro _ _ scalar
    cases scalar
    exact ⟨_, rfl, rfl⟩
  | ulong =>
    apply parses_fixed Source.parses_readUInt64 rfl .ulong
    intro _ _ scalar
    cases scalar
    exact ⟨_, rfl, rfl⟩
  | long =>
    apply parses_fixed Source.parses_readUInt64 rfl (fun value => .long value.toInt64)
    intro _ _ scalar
    cases scalar
    exact ⟨_, rfl, rfl⟩
  | double =>
    apply parses_fixed Source.parses_readUInt64 rfl .double
    intro _ _ scalar
    cases scalar
    exact ⟨_, rfl, rfl⟩
  | timestamp =>
    apply parses_fixed Source.parses_readUInt64 rfl (fun value => .timestamp value.toInt64)
    intro _ _ scalar
    cases scalar
    exact ⟨_, rfl, rfl⟩
  | decimal32 =>
    apply parses_fixed (parses_read 4) rfl .decimal32
    intro _ _ scalar
    cases scalar
    exact ⟨_, rfl, rfl⟩
  | decimal64 =>
    apply parses_fixed (parses_read 8) rfl .decimal64
    intro _ _ scalar
    cases scalar
    exact ⟨_, rfl, rfl⟩
  | decimal128 =>
    apply parses_fixed (parses_read 16) rfl .decimal128
    intro _ _ scalar
    cases scalar
    exact ⟨_, rfl, rfl⟩
  | uuid =>
    apply parses_fixed (parses_read 16) rfl .uuid
    intro _ _ scalar
    cases scalar
    exact ⟨_, rfl, rfl⟩
  | binary8 => exact parses_binary rfl rfl
  | binary32 => exact parses_binary rfl rfl
  | string8 => exact parses_worded fun _ _ => payload_iff_string rfl rfl
  | string32 => exact parses_worded fun _ _ => payload_iff_string rfl rfl
  | symbol8 => exact parses_worded fun _ _ => payload_iff_symbol rfl rfl
  | symbol32 => exact parses_worded fun _ _ => payload_iff_symbol rfl rfl
  | list8 => exact (parses_readList deeper 1).congr fun _ _ => (payload_iff_list rfl rfl).symm
  | list32 => exact (parses_readList deeper 4).congr fun _ _ => (payload_iff_list rfl rfl).symm
  | map8 => exact (parses_readMap deeper 1).congr fun _ _ => (payload_iff_map rfl rfl).symm
  | map32 => exact (parses_readMap deeper 4).congr fun _ _ => (payload_iff_map rfl rfl).symm
  | array8 => exact (parses_readArray deeper 1).congr fun _ _ => (payload_iff_array rfl rfl).symm
  | array32 => exact (parses_readArray deeper 4).congr fun _ _ => (payload_iff_array rfl rfl).symm

end Inside

/-- The reader one level further down accepts the payloads of that level. Where no level is left
it accepts none, and neither does the grammar. -/
theorem innerParses (settings : DecoderSettings) (levels : Nat) :
    InnerParses (inner settings levels : Inner σ Value) (payloadBelow settings.text levels) := by
  induction levels with
  | zero => exact .exhausted
  | succ levels deeper =>
    apply InnerParses.deeper
    · intro code
      rw [payload_eq]
      exact parses_readWith deeper code
    · intro code content value width behind fixed
      rw [payload_eq] at behind
      exact behind.length_of_fixed fixed

/-- Reading behind a constructor within so many levels. -/
theorem parses_payload (settings : DecoderSettings) (levels : Nat) (code : Code) :
    Parses (readWith settings (inner settings levels) code : Fetch σ Value)
      (payload settings.text levels code) := by
  rw [payload_eq]
  exact parses_readWith (innerParses settings levels) code

/-- Reading a value, whether its first byte is held already or not, accepts exactly the
encodings within the levels of the session. -/
theorem parsesFrom_decodeValue (settings : DecoderSettings) :
    ParsesFrom Facing (decodeValue settings : Fetch σ Value)
      (Encoding settings.text settings.maxDepth) :=
  parsesFrom_readCode.coded fun code => parses_payload settings settings.maxDepth code

/-- Reading a value as a type accepts the encodings of the values that the type reads. What it
gives is the value as the type shows it. -/
theorem parsesFrom_decodeAs (settings : DecoderSettings) (type : Ty) :
    ParsesFrom Facing (decodeAs settings type : Fetch σ Value) fun bytes shown =>
      ∃ value, Encoding settings.text settings.maxDepth bytes value ∧
        type.read value = .ok shown := by
  refine ((parsesFrom_decodeValue settings).bind fun value =>
    parses_lift (type.read value)).congr fun bytes shown => ?_
  constructor
  · rintro ⟨front, _, value, rfl, encoding, rfl, read⟩
    exact ⟨value, by rwa [List.append_nil], read⟩
  · rintro ⟨value, encoding, read⟩
    exact ⟨bytes, [], value, (List.append_nil _).symm, encoding, rfl, read⟩

/-- Reading a value that must be described accepts the encodings of described values. The
constructor is looked at before it is taken, so another one is refused in place, and the grammar
has no described value behind another constructor. -/
theorem parsesFrom_decodeDescribed (settings : DecoderSettings) :
    ParsesFrom Facing (decodeDescribed settings : Fetch σ Described) fun bytes described =>
      Encoding settings.text settings.maxDepth bytes (.described described) := by
  have deeper := @innerParses σ _ _ settings settings.maxDepth
  have each (code : Code) : ParsesFrom (fun source rest taken =>
      rest.head? = some code.toByte ∧ Facing source rest taken)
      (if code ≠ .described then
          throw (.unexpectedType "described" code.kind.name) >>= fun _ : Unit =>
          Source.skip 1 >>= fun _ => readDescribed settings (inner settings settings.maxDepth)
        else Source.skip 1 >>= fun _ => readDescribed settings (inner settings settings.maxDepth) :
        Fetch σ Described)
      fun bytes described => code = .described ∧ ∃ content,
        bytes = Code.described.toByte :: content ∧
          Payload settings.text (payloadBelow settings.text settings.maxDepth) .described content
            (.described described) := by
    by_cases announced : code = .described
    · subst announced
      rw [if_neg fun differs => differs rfl]
      refine ((parsesFrom_skip_one .described).bind fun _ => parses_readDescribed deeper).congr
        fun bytes described => ?_
      simp only [payload_iff_described]
      constructor
      · rintro ⟨_, content, _, rfl, rfl, word⟩
        exact ⟨trivial, content, rfl, described, word, rfl⟩
      · rintro ⟨_, content, rfl, _, word, same⟩
        cases same
        exact ⟨[_], content, (), rfl, rfl, word⟩
    · rw [if_pos announced]
      exact (parses_throw _).congr fun bytes described => by simp [announced]
  refine (parsesFrom_peekCode each ?_).congr fun bytes described => ?_
  · rintro _ _ _ ⟨rfl, content, rfl, _⟩
    rfl
  · unfold Encoding
    rw [payload_eq]
    constructor
    · rintro ⟨_, rfl, content, rfl, behind⟩
      exact ⟨.described, content, rfl, behind⟩
    · rintro ⟨code, content, rfl, behind⟩
      obtain rfl := behind.eq_described
      exact ⟨.described, rfl, content, rfl, behind⟩

/-- The encodings of a descriptor and of a body one level further down. -/
def PartsEncoding (settings : DecoderSettings) (bytes : Bytes) (parts : Descriptor × Value) :
    Prop :=
  ∃ levels front back, settings.maxDepth = levels + 1 ∧
    bytes = Code.described.toByte :: (front ++ back) ∧
    Coded (Label settings.text) front parts.1 ∧ Encoding settings.text levels back parts.2

/-- Reading a value that must be described, without finding its form, accepts the encodings of
its parts. Here the constructor is taken before it is judged, and the body may be any value, also
one that its descriptor would not accept. -/
theorem parsesFrom_decodeDescribedParts (settings : DecoderSettings) :
    ParsesFrom Facing (decodeDescribedParts settings : Fetch σ (Descriptor × Value))
      (PartsEncoding settings) := by
  have deeper := @innerParses σ _ _ settings settings.maxDepth
  have each (code : Code) : Parses
      (if code ≠ .described then throw (.unexpectedType "described" code.kind.name) >>=
          fun _ : Unit => readDescribedParts settings (inner settings settings.maxDepth)
        else readDescribedParts settings (inner settings settings.maxDepth) :
        Fetch σ (Descriptor × Value))
      fun bytes parts => code = .described ∧ ∃ levels front back,
        settings.maxDepth = levels + 1 ∧ bytes = front ++ back ∧
        Coded (Label settings.text) front parts.1 ∧
        Encoding settings.text levels back parts.2 := by
    by_cases announced : code = .described
    · rw [if_neg fun differs => differs announced]
      apply (parses_readDescribedParts deeper).congr
      intro bytes parts
      constructor
      · rintro ⟨_, level, front, back, rfl, label, encoding⟩
        obtain ⟨levels, depth, rfl⟩ := payloadBelow_eq_some.mp level
        exact ⟨announced, levels, front, back, depth, rfl, label, encoding⟩
      · rintro ⟨_, levels, front, back, depth, rfl, label, encoding⟩
        have level : payloadBelow settings.text settings.maxDepth = some _ :=
          payloadBelow_eq_some.mpr ⟨levels, depth, rfl⟩
        exact ⟨_, level, front, back, rfl, label, encoding⟩
    · rw [if_pos announced]
      exact (parses_throw _).congr fun bytes parts => by simp [announced]
  apply (parsesFrom_readCode.bind each).congr
  intro bytes parts
  constructor
  · rintro ⟨_, _, _, rfl, rfl, rfl, levels, front, back, depth, rfl, label, encoding⟩
    exact ⟨levels, front, back, depth, rfl, label, encoding⟩
  · rintro ⟨levels, front, back, depth, rfl, label, encoding⟩
    exact ⟨[_], front ++ back, .described, rfl, rfl, rfl, levels, front, back, depth, rfl, label,
      encoding⟩

/-- From a buffer, a value is read and so many bytes are consumed exactly if these bytes are an
encoding of the value within the levels of the session. The encodings are those of a grammar that
mentions no reader, so this says of every byte string if it is accepted, as which value and up to
where.

Proof: A reader parses a language if it accepts exactly the inputs that begin with one of its
words, and is then settled behind it. This is closed under computations in a row, so the readers
are taken one by one against the rules of the grammar, by induction on the levels that are left.
For a buffer the bytes behind the word are what is left of it, and its position counts the word.
-/
theorem decodeValue_buffer_iff (settings : DecoderSettings) (bytes : Bytes) (value : Value)
    (consumed : Nat) :
    (∃ after : Buffer, decodeValue settings (Buffer.ofBytes bytes) = .ok value after ∧
        after.position = consumed) ↔
      consumed ≤ bytes.length ∧
        Encoding settings.text settings.maxDepth (bytes.take consumed) value := by
  have begun : Facing (Buffer.ofBytes bytes) bytes 0 := Buffer.holds_ofBytes bytes
  constructor
  · rintro ⟨after, ran, rfl⟩
    obtain ⟨front, back, rfl, encoding, settled⟩ :=
      (parsesFrom_decodeValue settings).sound begun ran
    have position : after.position = front.length := by
      have taken := Lawful.position_eq (Lawful.facing settled)
      rwa [Nat.zero_add] at taken
    rw [position]
    refine ⟨by simp, ?_⟩
    rwa [List.take_left]
  · rintro ⟨within, encoding⟩
    rw [← List.take_append_drop consumed bytes] at begun
    obtain ⟨after, ran, settled⟩ := (parsesFrom_decodeValue settings).complete begun encoding
    refine ⟨after, by rwa [List.take_append_drop] at ran, ?_⟩
    have taken := Lawful.position_eq (Lawful.facing settled)
    rw [List.length_take, Nat.min_eq_left within, Nat.zero_add] at taken
    exact taken

end Amqp.Decoder
