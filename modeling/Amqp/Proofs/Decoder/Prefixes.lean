import Amqp.Proofs.Decoder.Parsing
import Amqp.Proofs.Grammar

/-!
# Reading numbers, payloads and prefixes

The languages of the smallest readers: numbers of a width, payloads behind their length,
texts, descriptors, and the prefix of a container together with what it announces.

A container is the one place where a check looks ahead. Its declared size is compared
with what is left before its elements are read, and with what they took afterwards. The
second check makes the first one redundant for acceptance, because elements that take the
declared size were there to be taken.
-/

namespace Amqp

namespace Source

open Decoder

variable {σ : Type} [Source σ] [Lawful σ]

/-- Words of some bytes are read as numbers of that width. All that matters of the words is that
they are the numbers below the bound of the width: each word is the word of its number, and each
number that fits is the number of its word. -/
theorem parses_readWord {word : Type} {width : Nat} {ofNat : Nat → word} {toNat : word → Nat}
    (fits : ∀ value, toNat value < 256 ^ width) (ofNat_toNat : ∀ value, ofNat (toNat value) = value)
    (toNat_ofNat : ∀ {number}, number < 256 ^ width → toNat (ofNat number) = number) :
    Parses (return ofNat (← readNat width) : Fetch σ word) fun bytes value =>
      bytes = .be width (toNat value) := by
  apply ((parses_readNat width).map ofNat).congr
  intro bytes value
  constructor
  · rintro ⟨number, ⟨small, rfl⟩, rfl⟩
    rw [toNat_ofNat small]
  · rintro rfl
    exact ⟨toNat value, ⟨fits value, rfl⟩, (ofNat_toNat value).symm⟩

/-- Reading a byte as a number. -/
theorem parses_readUInt8 :
    Parses (readUInt8 : Fetch σ _) fun bytes value => bytes = .be 1 value.toNat :=
  parses_readWord UInt8.toNat_lt (fun _ => UInt8.ofNat_toNat) UInt8.toNat_ofNat_of_lt'

/-- Reading two bytes as a number. -/
theorem parses_readUInt16 :
    Parses (readUInt16 : Fetch σ _) fun bytes value => bytes = .be 2 value.toNat :=
  parses_readWord UInt16.toNat_lt (fun _ => UInt16.ofNat_toNat) UInt16.toNat_ofNat_of_lt'

/-- Reading four bytes as a number. -/
theorem parses_readUInt32 :
    Parses (readUInt32 : Fetch σ _) fun bytes value => bytes = .be 4 value.toNat :=
  parses_readWord UInt32.toNat_lt (fun _ => UInt32.ofNat_toNat) UInt32.toNat_ofNat_of_lt'

/-- Reading eight bytes as a number. -/
theorem parses_readUInt64 :
    Parses (readUInt64 : Fetch σ _) fun bytes value => bytes = .be 8 value.toNat :=
  parses_readWord UInt64.toNat_lt (fun _ => UInt64.ofNat_toNat) UInt64.toNat_ofNat_of_lt'

end Source

namespace Decoder

open Source (Lawful)
open Source.Lawful (Settled Facing)
open Grammar

variable {σ : Type} [Source σ] [Lawful σ] {α β : Type}

omit [Lawful σ] in
/-- A declared length is held against the bytes that are left, if their number is known. On a
source that does not know it, the check does nothing, and the request that follows finds out. -/
theorem ensureAvailable_eq (declared : Nat) (source : σ) :
    ensureAvailable declared source = match Source.remaining source with
      | some left =>
        if left < declared then .error (.lengthExceedsRemaining declared left) source
        else .ok () source
      | none => .ok () source := by
  unfold ensureAvailable
  rw [bind_of_ok (rfl : (get : Fetch σ σ) source = .ok source source)]
  cases Source.remaining source with
  | none => rfl
  | some left =>
    simp only
    split <;> rfl

/-- A declared length that is there is not refused. -/
theorem ensureAvailable_of_le {source : σ} {rest : Bytes} {taken declared : Nat}
    (settled : Settled source rest taken) (enough : declared ≤ rest.length) :
    ensureAvailable declared source = .ok () source := by
  rw [ensureAvailable_eq]
  cases known : Source.remaining source with
  | none => rfl
  | some left =>
    have counted := Lawful.remaining_eq settled known
    exact if_neg (by omega)

omit [Lawful σ] in
/-- A check of a declared length leaves the source alone. It only asks for a number. -/
theorem eq_of_ensureAvailable {source after : σ} {declared : Nat} {result : Unit}
    (ran : ensureAvailable declared source = .ok result after) : after = source := by
  rw [ensureAvailable_eq] at ran
  cases known : Source.remaining source with
  | none =>
    simp only [known] at ran
    cases ran
    rfl
  | some left =>
    simp only [known] at ran
    split at ran
    · cases ran
    · cases ran
      rfl

/-- A declared length is no condition of its own on words that are at least as long. Whoever
accepts such a word finds its bytes there, so the check, which may only be made on some sources,
cannot have refused it. -/
theorem parses_ensured {declared : Nat} {compute : Fetch σ α} {language : Bytes → α → Prop}
    (parses : Parses compute language)
    (covers : ∀ bytes result, language bytes result → declared ≤ bytes.length) :
    Parses (ensureAvailable declared >>= fun _ => compute) language where
  sound begun ran := by
    obtain ⟨_, middle, checked, computed⟩ := ok_of_bind ran
    rw [eq_of_ensureAvailable checked] at computed
    exact parses.sound begun computed
  complete {source front back taken result} begun word := by
    have enough : declared ≤ (front ++ back).length := by
      have bound := covers front result word
      rw [List.length_append]
      omega
    rw [bind_of_ok (ensureAvailable_of_le begun enough)]
    exact parses.complete begun word

/-- Reading a payload behind its length. -/
theorem parses_readPayload (width : Nat) :
    Parses (readPayload width : Fetch σ _) fun bytes content =>
      content.length < 256 ^ width ∧ bytes = counted width content := by
  refine ((parses_readNat width).bind fun length => parses_ensured (parses_take length)
    fun bytes content word => Nat.le_of_eq word.1.symm).congr fun bytes content => ?_
  constructor
  · rintro ⟨front, back, length, rfl, ⟨fits, rfl⟩, rfl, rfl⟩
    exact ⟨fits, rfl⟩
  · rintro ⟨fits, rfl⟩
    exact ⟨_, content, content.length, rfl, ⟨fits, rfl⟩, rfl, rfl⟩

/-- Reading the text of a payload. -/
theorem parses_readText (settings : DecoderSettings) (width : Nat) :
    Parses (readText settings width : Fetch σ _) fun bytes value =>
      ∃ content, content.length < 256 ^ width ∧ bytes = counted width content ∧
        settings.text content = .ok value := by
  refine ((parses_readPayload width).bind fun content =>
    parses_lift (settings.text content)).congr fun bytes value => ?_
  constructor
  · rintro ⟨front, back, content, rfl, ⟨fits, rfl⟩, rfl, read⟩
    exact ⟨content, fits, List.append_nil _, read⟩
  · rintro ⟨content, fits, rfl, read⟩
    exact ⟨_, [], content, (List.append_nil _).symm, ⟨fits, rfl⟩, rfl, read⟩

omit [Lawful σ] in
/-- The prefix of a container is read in a row, with a refusal behind each number. In this form
the two refusals are computations of their own, of which it is known what they accept. -/
theorem readHeader_eq (width : Nat) :
    (readHeader width : Fetch σ Header) = (do
      let declared ← Source.readNat width
      (if declared < width then throw (.malformed "compound size is smaller than its count")
        else pure () : Fetch σ Unit)
      ensureAvailable declared
      let count ← Source.readNat width
      (if declared - width < count then throw (.malformed "compound count exceeds its size")
        else pure () : Fetch σ Unit)
      pure ⟨declared - width, count⟩) := by
  unfold readHeader
  refine bind_congr fun declared => (bind_unless _ _ _).trans ?_
  refine bind_congr fun _ => bind_congr fun _ => bind_congr fun count => ?_
  exact bind_unless _ _ _

/-- Reading the prefix of a container and then what it announces. The check of the size against
what is left holds for every content of that size, which is the premise on what follows. The two
numbers are then those of the frame, and the conditions on them are that they fit their width and
that there are no more elements than bytes. -/
theorem parses_readHeader {width : Nat} {next : Header → Fetch σ β}
    {language : Header → Bytes → β → Prop} (each : ∀ header, Parses (next header) (language header))
    (sized : ∀ header content result, language header content result →
      content.length = header.size) :
    Parses (readHeader width >>= next) fun bytes result =>
      ∃ count content, bytes = frame width count content ∧ count < 256 ^ width ∧
        width + content.length < 256 ^ width ∧ count ≤ content.length ∧
        language ⟨content.length, count⟩ content result := by
  rw [readHeader_eq]
  simp only [bind_assoc, pure_bind]
  refine ((parses_readNat width).bind fun declared => (parses_unless (declared < width) _).bind
    fun _ => parses_ensured ((parses_readNat width).bind fun count =>
      (parses_unless (declared - width < count) _).bind fun _ => each ⟨declared - width, count⟩)
      ?_).congr fun bytes result => ?_
  · rintro bytes result ⟨_, _, count, rfl, ⟨_, rfl⟩, _, content, _, rfl, ⟨rfl, _⟩, word⟩
    have length := sized _ _ _ word
    simp only [List.length_append, Bytes.length_be, List.length_nil, length]
    omega
  · constructor
    · rintro ⟨_, _, declared, rfl, ⟨fits, rfl⟩, _, _, _, rfl, ⟨rfl, large⟩, _, _, count, rfl,
        ⟨small, rfl⟩, _, content, _, rfl, ⟨rfl, bounded⟩, word⟩
      have length : content.length = declared - width := sized _ _ _ word
      have whole : declared = width + content.length := by omega
      subst whole
      refine ⟨count, content, ?_, small, fits, by omega, ?_⟩
      · simp [frame]
      · rwa [length]
    · rintro ⟨count, content, rfl, small, fits, bounded, word⟩
      refine ⟨_, .be width count ++ content, width + content.length, List.append_assoc ..,
        ⟨fits, rfl⟩, [], _, (), rfl, ⟨rfl, by omega⟩, _, content, count, rfl, ⟨small, rfl⟩,
        [], content, (), rfl, ⟨rfl, by omega⟩, ?_⟩
      rwa [Nat.add_sub_cancel_left]

/-- The position of a settled source is the number of bytes taken. -/
theorem getPosition_of_settled {source : σ} {rest : Bytes} {taken : Nat}
    (settled : Settled source rest taken) : Source.getPosition source = .ok taken source := by
  rw [← Lawful.position_eq (Lawful.facing settled)]
  rfl

/-- A container is not refused whose elements took the bytes it announced. -/
theorem checkConsumed_of_eq {source : σ} {rest : Bytes} {taken start : Nat} {header : Header}
    (container : Kind) (settled : Settled source rest taken)
    (exact : taken - start = header.size) :
    checkConsumed container header start source = .ok () source := by
  unfold checkConsumed
  rw [bind_of_ok (getPosition_of_settled settled)]
  exact congrFun (if_neg fun differs => differs exact) source

/-- A container that is not refused has elements that took the bytes it announced. Its check
reads nothing, so it leaves the source alone. -/
theorem eq_of_checkConsumed {source after : σ} {rest : Bytes} {taken start : Nat}
    {header : Header} {container : Kind} {result : Unit} (settled : Settled source rest taken)
    (ran : checkConsumed container header start source = .ok result after) :
    after = source ∧ taken - start = header.size := by
  unfold checkConsumed at ran
  rw [bind_of_ok (getPosition_of_settled settled)] at ran
  by_cases exact : taken - start = header.size
  · rw [if_neg fun differs => differs exact] at ran
    cases ran
    exact ⟨rfl, exact⟩
  · rw [if_pos exact] at ran
    cases ran

/-- A computation that is told where it starts and fills so many bytes: it accepts the
words of a language that have this length, and no others but words of other lengths. -/
structure Fills (size : Nat) (compute : Nat → Fetch σ α) (language : Bytes → α → Prop) : Prop where
  sound {source after : σ} {rest : Bytes} {taken : Nat} {result : α} :
    Settled source rest taken → compute taken source = .ok result after →
      ∃ front back, rest = front ++ back ∧ language front result ∧
        Settled after back (taken + front.length)
  complete {source : σ} {front back : Bytes} {taken : Nat} {result : α} :
    Settled source (front ++ back) taken → language front result → front.length = size →
      ∃ after, compute taken source = .ok result after ∧ Settled after back (taken + front.length)

/-- A computation that accepts a language fills any number of bytes. -/
theorem Parses.fills {compute : Fetch σ α} {language : Bytes → α → Prop}
    (parses : Parses compute language) (size : Nat) : Fills size (fun _ => compute) language where
  sound := parses.sound
  complete begun word _ := parses.complete begun word

/-- The elements of a container, checked against its announced size, are the words of that size.
Words of other sizes may be read or refused by the elements themselves; the check behind them
refuses what was read, so it does not matter which. -/
theorem Fills.checked (header : Header) {compute : Nat → Fetch σ α}
    {language : Bytes → α → Prop} (fills : Fills header.size compute language)
    (container : Kind) (finish : α → β) :
    Parses (Source.getPosition >>= fun start => compute start >>= fun items =>
        checkConsumed container header start >>= fun _ => pure (finish items))
      fun bytes result => bytes.length = header.size ∧
        ∃ items, language bytes items ∧ result = finish items where
  sound {source after rest taken result} begun ran := by
    rw [bind_of_ok (getPosition_of_settled begun)] at ran
    obtain ⟨items, middle, computed, checked⟩ := ok_of_bind ran
    obtain ⟨front, back, rfl, word, settled⟩ := fills.sound begun computed
    obtain ⟨_, last, exact, finished⟩ := ok_of_bind checked
    obtain ⟨rfl, size⟩ := eq_of_checkConsumed settled exact
    cases finished
    refine ⟨front, back, rfl, ⟨?_, items, word, rfl⟩, settled⟩
    omega
  complete {source front back taken result} begun := by
    rintro ⟨size, items, word, rfl⟩
    obtain ⟨after, computed, settled⟩ := fills.complete begun word size
    have exact : taken + front.length - taken = header.size := by omega
    refine ⟨after, ?_, settled⟩
    rw [bind_of_ok (getPosition_of_settled begun), bind_of_ok computed,
      bind_of_ok (checkConsumed_of_eq container settled exact)]
    rfl

/-- Repeating a computation that accepts words accepts sequences of them. The results are
collected in reverse behind earlier ones, and the induction is over all of these. -/
theorem parses_collect {compute : Fetch σ α} {language : Bytes → α → Prop}
    (parses : Parses compute language) (times : Nat) (earlier : List α) :
    Parses (collect compute times earlier) fun bytes results =>
      ∃ items, results = earlier.reverse ++ items ∧ items.length = times ∧
        Sequence language bytes items := by
  induction times generalizing earlier with
  | zero =>
    apply (parses_pure earlier.reverse).congr
    intro bytes results
    constructor
    · rintro ⟨rfl, rfl⟩
      exact ⟨[], by simp, rfl, .nil⟩
    · rintro ⟨items, rfl, none, sequence⟩
      obtain rfl := List.length_eq_zero_iff.mp none
      cases sequence
      exact ⟨rfl, by simp⟩
  | succ times inductionHypothesis =>
    refine (parses.bind fun result => inductionHypothesis (result :: earlier)).congr
      fun bytes results => ?_
    constructor
    · rintro ⟨front, back, first, rfl, word, items, rfl, rfl, sequence⟩
      exact ⟨first :: items, by simp, rfl, .cons word sequence⟩
    · rintro ⟨items, rfl, counted, sequence⟩
      cases sequence with
      | nil => cases counted
      | cons word sequence =>
        exact ⟨_, _, _, rfl, word, _, by simp, Nat.succ.inj counted, sequence⟩

/-- Repeating a computation from nothing. -/
theorem parses_collect_nil {compute : Fetch σ α} {language : Bytes → α → Prop}
    (parses : Parses compute language) (times : Nat) :
    Parses (collect compute times []) fun bytes items =>
      items.length = times ∧ Sequence language bytes items := by
  apply (parses_collect parses times []).congr
  intro bytes results
  simp

/-- Reading a constructor and what is behind it. A word begins with the byte of some constructor,
and goes on with a word behind that. -/
theorem ParsesFrom.coded {start : σ → Bytes → Nat → Prop}
    (first : ParsesFrom start (readCode : Fetch σ Code) fun bytes code => bytes = [code.toByte])
    {decode : Code → Fetch σ α} {behind : Code → Bytes → α → Prop}
    (each : ∀ code, Parses (decode code) (behind code)) :
    ParsesFrom start (readCode >>= decode) (Coded behind) := by
  apply (first.bind each).congr
  intro bytes result
  constructor
  · rintro ⟨_, content, code, rfl, rfl, word⟩
    exact ⟨code, content, rfl, word⟩
  · rintro ⟨code, content, rfl, word⟩
    exact ⟨[code.toByte], content, code, rfl, rfl, word⟩

/-- Reading a constructor and what is behind it, from a settled source. -/
theorem parses_coded {decode : Code → Fetch σ α} {behind : Code → Bytes → α → Prop}
    (each : ∀ code, Parses (decode code) (behind code)) :
    Parses (readCode >>= decode) (Coded behind) := parses_readCode.coded each

/-- Reading behind the constructor of a descriptor accepts the labels of that constructor: three
of numbers and two of symbols. All other constructors are refused, and have no labels. -/
theorem parses_label (settings : DecoderSettings) (code : Code) :
    Parses (match code with
      | .ulong0 => pure (.code 0)
      | .smallUlong => return .code (← Source.readUInt8).toUInt64
      | .ulong => return .code (← Source.readUInt64)
      | .symbol8 => return .symbol (← readText settings 1)
      | .symbol32 => return .symbol (← readText settings 4)
      | _ => throw (.malformed "descriptor must be a ulong or a symbol") : Fetch σ Descriptor)
      (Label settings.text code) := by
  have named (width : Nat) (category : code.category = .variable width)
      (kind : code.kind = .symbol) :
      Parses (readText settings width >>= fun name => pure (.symbol name) : Fetch σ Descriptor)
        (Label settings.text code) := by
    refine ((parses_readText settings width).map Descriptor.symbol).congr
      fun bytes descriptor => ?_
    constructor
    · rintro ⟨name, ⟨content, fits, rfl, read⟩, rfl⟩
      exact .symbol category kind fits read
    · intro label
      cases label with
      | code scalar => cases scalar <;> cases kind
      | symbol category' _ fits read =>
        rw [category] at category'
        cases category'
        exact ⟨_, ⟨_, fits, rfl, read⟩, rfl⟩
  split
  · apply (parses_pure _).congr
    intro bytes descriptor
    constructor
    · rintro ⟨rfl, rfl⟩
      exact .code .ulong0
    · intro label
      cases label with
      | code scalar => cases scalar; exact ⟨rfl, rfl⟩
      | symbol category => cases category
  · refine (Source.parses_readUInt8.map fun value => Descriptor.code value.toUInt64).congr
      fun bytes descriptor => ?_
    constructor
    · rintro ⟨value, rfl, rfl⟩
      exact .code (.smallUlong value)
    · intro label
      cases label with
      | code scalar => cases scalar; exact ⟨_, rfl, rfl⟩
      | symbol _ kind => cases kind
  · apply (Source.parses_readUInt64.map Descriptor.code).congr
    intro bytes descriptor
    constructor
    · rintro ⟨value, rfl, rfl⟩
      exact .code (.ulong value)
    · intro label
      cases label with
      | code scalar => cases scalar; exact ⟨_, rfl, rfl⟩
      | symbol _ kind => cases kind
  · exact named 1 rfl rfl
  · exact named 4 rfl rfl
  · apply (parses_throw _).congr
    intro bytes descriptor
    refine ⟨False.elim, fun label => ?_⟩
    cases label with
    | code scalar => cases scalar <;> contradiction
    | symbol category kind => cases code <;> contradiction

/-- Reading a descriptor. -/
theorem parses_readDescriptor (settings : DecoderSettings) :
    Parses (readDescriptor settings : Fetch σ Descriptor) (Coded (Label settings.text)) :=
  parses_coded (parses_label settings)

end Decoder

end Amqp
