import Amqp.Proofs.Decoder.Prefixes

/-!
# Reading what contains values

The languages of the readers of described values, lists, maps and arrays, given the
language of the reader one level further down. Without a level they accept nothing, except
that an array of no bytes needs no level.
-/

namespace Amqp.Decoder

open Source (Lawful)
open Source.Lawful (Settled Facing)
open Grammar

variable {σ : Type} [Source σ] [Lawful σ] {α β : Type}

/-- A reader of contained values and the payloads that it accepts, unless no level is
left. Payloads of fixed width have that width. -/
inductive InnerParses : Inner σ Value → Option (Code → Bytes → Value → Prop) → Prop
  | exhausted : InnerParses none none
  | deeper {decode : Code → Fetch σ Value} {inside : Code → Bytes → Value → Prop}
      (parses : ∀ code, Parses (decode code) (inside code))
      (sized : ∀ {code content value width}, inside code content value →
        code.category = .fixed width → content.length = width) :
      InnerParses (some decode) (some inside)

variable {settings : DecoderSettings} {inner : Inner σ Value}
  {below : Option (Code → Bytes → Value → Prop)}

/-- Reading one level further down, if there is one. Where none is left, what is read there has
no word. -/
theorem parses_within (settings : DecoderSettings) (deeper : InnerParses inner below)
    {body : (Code → Fetch σ Value) → Fetch σ α}
    {language : (Code → Bytes → Value → Prop) → Bytes → α → Prop}
    (each : ∀ decode inside, (∀ code, Parses (decode code) (inside code)) →
      Parses (body decode) (language inside)) :
    Parses (within settings inner body) fun bytes result =>
      ∃ inside, below = some inside ∧ language inside bytes result := by
  cases deeper with
  | exhausted => exact (parses_throw _).congr fun bytes result => by simp
  | deeper parses => exact (each _ _ parses).congr fun bytes result => by simp

/-- Reading a descriptor and the body behind it. -/
theorem parses_readDescribedParts (deeper : InnerParses inner below) :
    Parses (readDescribedParts settings inner) fun bytes parts =>
      ∃ inside, below = some inside ∧ ∃ front back, bytes = front ++ back ∧
        Coded (Label settings.text) front parts.1 ∧ Coded inside back parts.2 := by
  refine parses_within _ deeper fun decode inside parses =>
    ((parses_readDescriptor settings).bind fun descriptor =>
      (parses_coded parses).map fun body => (descriptor, body)).congr fun bytes parts => ?_
  constructor
  · rintro ⟨front, back, descriptor, rfl, label, body, encoded, rfl⟩
    exact ⟨front, back, rfl, label, encoded⟩
  · rintro ⟨front, back, rfl, label, encoded⟩
    exact ⟨front, back, parts.1, rfl, label, parts.2, encoded, rfl⟩

/-- Reading a described value behind its announcing byte accepts a label and an encoded body, if
the label resolves the body. That resolution may refuse takes words from the language and adds
none. -/
theorem parses_readDescribed (deeper : InnerParses inner below) :
    Parses (readDescribed settings inner) fun bytes described =>
      ∃ inside, below = some inside ∧ ∃ front back descriptor body, bytes = front ++ back ∧
        Coded (Label settings.text) front descriptor ∧ Coded inside back body ∧
        Registry.standard.resolve descriptor body = .ok described := by
  refine ((parses_readDescribedParts deeper).bind fun parts =>
    parses_lift (Registry.standard.resolve parts.1 parts.2)).congr fun bytes described => ?_
  constructor
  · rintro ⟨_, _, parts, rfl, ⟨inside, level, front, back, rfl, label, encoded⟩, rfl, resolved⟩
    exact ⟨inside, level, front, back, parts.1, parts.2, List.append_nil _, label, encoded,
      resolved⟩
  · rintro ⟨inside, level, front, back, descriptor, body, rfl, label, encoded, resolved⟩
    exact ⟨_, [], (descriptor, body), (List.append_nil _).symm,
      ⟨inside, level, front, back, rfl, label, encoded⟩, rfl, resolved⟩

/-- Reading a list behind its constructor accepts frames around sequences of encodings. That
there are no more items than bytes is not asked of the sequence, because every encoding has a
byte; the reader asks it of the prefix. -/
theorem parses_readList (deeper : InnerParses inner below) (width : Nat) :
    Parses (readList settings inner width) fun bytes value =>
      ∃ inside content items, below = some inside ∧ Sequence (Coded inside) content items ∧
        width + content.length < 256 ^ width ∧ bytes = frame width items.length content ∧
        value = .list items := by
  have body (header : Header) := ((parses_within settings deeper
    fun decode inside parses => parses_collect_nil (parses_coded parses) header.count).fills
      header.size).checked header .list Value.list
  refine (parses_readHeader body fun header content result word => word.1).congr
    fun bytes value => ?_
  constructor
  · rintro ⟨_, content, rfl, _, fits, _, _, items, ⟨inside, level, rfl, sequence⟩, rfl⟩
    exact ⟨inside, content, items, level, sequence, fits, rfl, rfl⟩
  · rintro ⟨inside, content, items, level, sequence, fits, rfl, rfl⟩
    have few := sequence.length_le fun _ _ coded => coded.ne_nil
    exact ⟨_, content, rfl, by omega, fits, few, rfl, items, ⟨inside, level, rfl, sequence⟩, rfl⟩

omit [Lawful σ] in
/-- A map is read behind its prefix unless the number of its elements is odd. -/
theorem readMap_eq (settings : DecoderSettings) (inner : Inner σ Value) (width : Nat) :
    readMap settings inner width = (do
      let header ← readHeader width
      (if header.count % 2 ≠ 0 then throw (.oddMapCount header.count) else pure () : Fetch σ Unit)
      let start ← Source.getPosition
      let entries ← within settings inner fun decode => collect (do
        let key ← readCode >>= decode
        (readCode >>= decode) >>= fun value => pure (key, value)) (header.count / 2) []
      checkConsumed .map header start
      pure (.map entries)) := by
  unfold readMap
  exact bind_congr fun header => bind_unless _ _ _

/-- Reading a key and the value behind it accepts two encodings in a row. -/
theorem parses_entry {decode : Code → Fetch σ Value} {inside : Code → Bytes → Value → Prop}
    (parses : ∀ code, Parses (decode code) (inside code)) :
    Parses (do
        let key ← readCode >>= decode
        (readCode >>= decode) >>= fun value => pure (key, value))
      (Paired (Coded inside)) := by
  refine ((parses_coded parses).bind fun key => (parses_coded parses).map fun value =>
    (key, value)).congr fun bytes entry => ?_
  constructor
  · rintro ⟨front, back, key, rfl, first, value, second, rfl⟩
    exact ⟨front, back, rfl, first, second⟩
  · rintro ⟨front, back, rfl, first, second⟩
    exact ⟨front, back, entry.1, rfl, first, entry.2, second, rfl⟩

/-- Pairs of encodings take at least two bytes each. -/
theorem length_le_of_paired {inside : Code → Bytes → Value → Prop} {content : Bytes}
    {entries : Entries} (sequence : Sequence (Paired (Coded inside)) content entries) :
    2 * entries.length ≤ content.length := by
  induction sequence with
  | nil => exact Nat.le_refl 0
  | cons first _ inductionHypothesis =>
    obtain ⟨key, mapped, rfl, ⟨_, _, rfl, _⟩, _, _, rfl, _⟩ := first
    simp only [List.length_cons, List.length_append]
    omega

/-- Reading a map behind its constructor accepts frames around sequences of pairs, whose
announced number is twice that of the pairs. An odd number is refused before any key is read, and
no sequence has one. -/
theorem parses_readMap (deeper : InnerParses inner below) (width : Nat) :
    Parses (readMap settings inner width) fun bytes value =>
      ∃ inside content entries, below = some inside ∧
        Sequence (Paired (Coded inside)) content entries ∧
        width + content.length < 256 ^ width ∧
        bytes = frame width (2 * entries.length) content ∧ value = .map entries := by
  rw [readMap_eq]
  have body (header : Header) := ((parses_within settings deeper
    fun decode inside parses => parses_collect_nil (parses_entry parses) (header.count / 2)).fills
      header.size).checked header .map Value.map
  refine (parses_readHeader (fun header => (parses_unless (header.count % 2 ≠ 0) _).bind fun _ =>
    body header) ?_).congr fun bytes value => ?_
  · rintro header content result ⟨_, _, _, rfl, ⟨rfl, _⟩, size, _⟩
    exact size
  · constructor
    · rintro ⟨count, content, rfl, _, fits, _, _, _, _, rfl, ⟨rfl, even⟩, _, entries,
        ⟨inside, level, paired, sequence⟩, rfl⟩
      refine ⟨inside, _, entries, level, sequence, fits, ?_, rfl⟩
      have doubled : count = 2 * entries.length := by
        simp only at even paired
        omega
      rw [doubled]
      rfl
    · rintro ⟨inside, content, entries, level, sequence, fits, rfl, rfl⟩
      have few := length_le_of_paired sequence
      refine ⟨_, content, rfl, by omega, fits, few, [], content, (), rfl, ⟨rfl, ?_⟩, rfl, entries,
        ⟨inside, level, ?_, sequence⟩, rfl⟩
      · simp
      · simp

/-- Reading the shared constructor of an array behind a descriptor. A second descriptor in place
of the constructor is refused. -/
theorem parses_shared (descriptor : Descriptor) (code : Code) :
    Parses (match code with
      | .described => throw (.malformed "array constructor is described more than once")
      | code => pure (some descriptor, code) : Fetch σ (Option Descriptor × Code))
      fun bytes found => code ≠ .described ∧ bytes = [] ∧ found = (some descriptor, code) := by
  split
  · exact (parses_throw _).congr fun bytes found => by simp
  · next plain =>
    have other : code ≠ .described := fun same => plain same
    exact (parses_pure _).congr fun bytes found => by simp [other]

/-- Reading behind the first byte of an array's constructor. If that byte announces a descriptor,
this and a plain constructor follow; any other byte is the constructor itself, and nothing is
read. -/
theorem parses_behind_first (settings : DecoderSettings) (code : Code) :
    Parses (match code with
      | .described => do
        let descriptor ← readDescriptor settings
        match ← readCode with
        | .described => throw (.malformed "array constructor is described more than once")
        | code => pure (some descriptor, code)
      | code => pure (none, code) : Fetch σ (Option Descriptor × Code))
      fun bytes found => found.2 ≠ .described ∧
        (code = .described ∧ (∃ front descriptor, bytes = front ++ [found.2.toByte] ∧
          found.1 = some descriptor ∧ Coded (Label settings.text) front descriptor) ∨
        bytes = [] ∧ found = (none, code)) := by
  split
  · refine ((parses_readDescriptor settings).bind fun descriptor =>
      parses_readCode.bind (parses_shared descriptor)).congr fun bytes found => ?_
    constructor
    · rintro ⟨front, _, descriptor, rfl, label, _, _, code, rfl, rfl, plain, rfl, rfl⟩
      exact ⟨plain, .inl ⟨rfl, front, descriptor, rfl, rfl, label⟩⟩
    · obtain ⟨_, shared⟩ := found
      rintro ⟨plain, ⟨_, front, descriptor, rfl, rfl, label⟩ | ⟨_, same⟩⟩
      · exact ⟨front, _, descriptor, rfl, label, [shared.toByte], [], shared, rfl, rfl, plain, rfl,
          rfl⟩
      · cases same
        exact absurd rfl plain
  · next plain =>
    have other : code ≠ .described := fun same => plain same
    apply (parses_pure _).congr
    intro bytes found
    constructor
    · rintro ⟨rfl, rfl⟩
      exact ⟨other, .inr ⟨rfl, rfl⟩⟩
    · rintro ⟨_, ⟨same, _⟩ | word⟩
      · exact absurd same other
      · exact word

/-- Reading the constructor that the elements of an array share accepts the two shapes of the
grammar: a plain constructor, and one behind a descriptor. -/
theorem parses_readArrayConstructor (settings : DecoderSettings) :
    Parses (readArrayConstructor settings : Fetch σ _) fun bytes found =>
      Constructor settings.text bytes found.1 found.2 := by
  apply (parses_coded (parses_behind_first settings)).congr
  intro bytes found
  obtain ⟨descriptor, shared⟩ := found
  constructor
  · rintro ⟨code, content, rfl, plain, ⟨rfl, front, descriptor, rfl, rfl, label⟩ | ⟨rfl, same⟩⟩
    · exact .described label plain
    · cases same
      exact .plain plain
  · intro constructor
    cases constructor with
    | plain plain => exact ⟨shared, [], rfl, plain, .inr ⟨rfl, rfl⟩⟩
    | described label plain =>
      exact ⟨.described, _, rfl, plain, .inl ⟨rfl, _, _, rfl, rfl, label⟩⟩

/-- Reading one element of an array accepts the bodies from which the shared descriptor makes a
value, or all bodies if there is no descriptor. -/
theorem parses_readElement {decode : Fetch σ Value} {language : Bytes → Value → Prop}
    (parses : Parses decode language) (descriptor : Option Descriptor) :
    Parses (readElement descriptor decode) fun bytes value =>
      ∃ body, language bytes body ∧ Resolves descriptor body value := by
  cases descriptor with
  | none =>
    apply (parses.bind fun body => parses_pure body).congr
    intro bytes value
    constructor
    · rintro ⟨front, _, body, rfl, word, rfl, rfl⟩
      exact ⟨value, by rwa [List.append_nil], rfl⟩
    · rintro ⟨body, word, rfl⟩
      exact ⟨bytes, [], _, (List.append_nil _).symm, word, rfl, rfl⟩
  | some descriptor =>
    refine (parses.bind fun body => (parses_lift (Registry.standard.resolve descriptor body)).map
      Value.described).congr fun bytes value => ?_
    constructor
    · rintro ⟨front, _, body, rfl, word, described, ⟨rfl, resolved⟩, rfl⟩
      exact ⟨body, by rwa [List.append_nil], described, resolved, rfl⟩
    · rintro ⟨body, word, described, resolved, rfl⟩
      exact ⟨bytes, [], body, (List.append_nil _).symm, word, described, ⟨rfl, resolved⟩, rfl⟩

/-- A computation one level further down fills bytes if there is a level. Without one the
language is empty, since every word of it is one of that level. -/
theorem fills_within (settings : DecoderSettings) {size : Nat} (deeper : InnerParses inner below)
    {body : Nat → (Code → Fetch σ Value) → Fetch σ α}
    {language : (Code → Bytes → Value → Prop) → Bytes → α → Prop}
    (each : ∀ decode inside, (∀ code, Parses (decode code) (inside code)) →
      (∀ {code content value width}, inside code content value → code.category = .fixed width →
        content.length = width) →
      Fills size (fun start => body start decode) (language inside)) :
    Fills size (fun start => within settings inner (body start)) fun bytes result =>
      ∃ inside, below = some inside ∧ language inside bytes result := by
  cases deeper with
  | exhausted =>
    refine ⟨fun _ ran => (by cases ran), fun _ word => ?_⟩
    obtain ⟨_, level, _⟩ := word
    cases level
  | deeper parses sized =>
    have filled := each _ _ parses sized
    refine ⟨fun begun ran => ?_, fun begun => ?_⟩
    · obtain ⟨front, back, split, word, settled⟩ := filled.sound begun ran
      exact ⟨front, back, split, ⟨_, rfl, word⟩, settled⟩
    · rintro ⟨_, level, word⟩
      cases level
      exact filled.complete begun word

/-- What an array holds: the constructor and the elements. The check in front of elements without
bytes is the check behind all elements. It refuses words whose elements take no bytes and that
are longer than their constructor, and so cannot be one on a language alone: that is why the
statement is about words of the announced size. -/
theorem fills_elements (settings : DecoderSettings) (header : Header)
    {decode : Code → Fetch σ Value}
    {inside : Code → Bytes → Value → Prop} (parses : ∀ code, Parses (decode code) (inside code))
    (sized : ∀ {code content value width}, inside code content value →
      code.category = .fixed width → content.length = width) :
    Fills header.size (fun start => do
        let (descriptor, code) ← readArrayConstructor settings
        if code.category = .fixed 0 then checkConsumed .array header start
        collect (readElement descriptor (decode code)) header.count [])
      fun bytes items => ∃ front content descriptor shared, bytes = front ++ content ∧
        Constructor settings.text front descriptor shared ∧ items.length = header.count ∧
        Sequence (Element inside descriptor shared) content items where
  sound {source after rest taken result} begun ran := by
    obtain ⟨⟨descriptor, shared⟩, middle, first, second⟩ := ok_of_bind ran
    obtain ⟨front, behind, rfl, constructor, settled⟩ :=
      (parses_readArrayConstructor settings).sound begun first
    have collected : collect (readElement descriptor (decode shared)) header.count [] middle =
        .ok result after := by
      simp only at second
      split at second
      · obtain ⟨_, last, checked, collected⟩ := ok_of_bind second
        rw [(eq_of_checkConsumed settled checked).1] at collected
        exact collected
      · exact second
    obtain ⟨content, back, rfl, ⟨counted, sequence⟩, final⟩ :=
      (parses_collect_nil (parses_readElement (parses shared) descriptor) header.count).sound
        settled collected
    refine ⟨front ++ content, back, (List.append_assoc ..).symm,
      ⟨front, content, descriptor, shared, rfl, constructor, counted, sequence⟩, ?_⟩
    rw [List.length_append, ← Nat.add_assoc]
    exact final
  complete {source front back taken result} begun := by
    rintro ⟨first, content, descriptor, shared, rfl, constructor, counted, sequence⟩ size
    rw [List.append_assoc] at begun
    obtain ⟨middle, ran, settled⟩ := @ParsesFrom.complete _ _ _ _ _ _ _
      (parses_readArrayConstructor settings) _ _ _ _ (descriptor, shared) begun constructor
    obtain ⟨after, collected, final⟩ :=
      (parses_collect_nil (parses_readElement (parses shared) descriptor) header.count).complete
        settled ⟨counted, sequence⟩
    refine ⟨after, ?_, by rwa [List.length_append, ← Nat.add_assoc]⟩
    rw [bind_of_ok ran]
    simp only
    split
    · next empty =>
      have nothing : content = [] := by
        apply sequence.eq_nil
        intro bytes item
        rintro ⟨body, behind, _⟩
        exact List.length_eq_zero_iff.mp (sized behind empty)
      subst nothing
      have exact : taken + first.length - taken = header.size := by
        rw [List.append_nil] at size
        omega
      exact (bind_of_ok (checkConsumed_of_eq .array settled exact)).trans collected
    · exact collected

/-- Reading an array behind its constructor accepts the array without bytes, at any level, and
frames around a shared constructor and elements behind it. Unlike the items of a list, elements
may take no bytes, so that there are no more of them than bytes is a condition of the grammar as
well. -/
theorem parses_readArray (deeper : InnerParses inner below) (width : Nat) :
    Parses (readArray settings inner width) fun bytes value =>
      (bytes = frame width 0 [] ∧ value = .array []) ∨
      ∃ inside front content descriptor shared items, below = some inside ∧
        Constructor settings.text front descriptor shared ∧
        Sequence (Element inside descriptor shared) content items ∧
        width + (front ++ content).length < 256 ^ width ∧
        items.length ≤ (front ++ content).length ∧
        bytes = frame width items.length (front ++ content) ∧ value = .array items := by
  have filled (header : Header) := (fills_within settings deeper fun decode inside parses sized =>
    fills_elements settings header parses sized).checked header .array Value.array
  have behind (header : Header) : Parses (if header.size = 0 ∧ header.count = 0 then
        pure (.array []) else do
        let start ← Source.getPosition
        let items ← within settings inner fun decode => do
          let (descriptor, code) ← readArrayConstructor settings
          if code.category = .fixed 0 then checkConsumed .array header start
          collect (readElement descriptor (decode code)) header.count []
        checkConsumed .array header start
        pure (.array items) : Fetch σ Value)
      fun bytes value => bytes.length = header.size ∧
        ((header.count = 0 ∧ bytes = [] ∧ value = .array []) ∨
        ∃ items, (∃ inside, below = some inside ∧ ∃ front content descriptor shared,
          bytes = front ++ content ∧ Constructor settings.text front descriptor shared ∧
          items.length = header.count ∧ Sequence (Element inside descriptor shared) content items) ∧
          value = .array items) := by
    by_cases nothing : header.size = 0 ∧ header.count = 0
    · rw [if_pos nothing]
      apply (parses_pure _).congr
      intro bytes value
      constructor
      · rintro ⟨rfl, rfl⟩
        exact ⟨nothing.1.symm, .inl ⟨nothing.2, rfl, rfl⟩⟩
      · rintro ⟨size, ⟨_, rfl, rfl⟩ | ⟨_, ⟨_, _, front, _, _, _, rfl, constructor, _⟩, _⟩⟩
        · exact ⟨rfl, rfl⟩
        · have positive := constructor.length_pos
          rw [nothing.1, List.length_append] at size
          omega
    · rw [if_neg nothing]
      refine (filled header).congr fun bytes value => and_congr_right fun size => ?_
      constructor
      · exact .inr
      · rintro (⟨none, rfl, _⟩ | word)
        · exact absurd ⟨size.symm, none⟩ nothing
        · exact word
  refine (parses_readHeader behind fun header content result word => word.1).congr
    fun bytes value => ?_
  constructor
  · rintro ⟨count, content, rfl, _, fits, paid, _, ⟨none, rfl, rfl⟩ | ⟨items, ⟨inside, level,
      front, content, descriptor, shared, rfl, constructor, rfl, sequence⟩, rfl⟩⟩
    · simp only at none
      subst none
      exact .inl ⟨rfl, rfl⟩
    · exact .inr ⟨inside, front, content, descriptor, shared, items, level, constructor, sequence,
        fits, paid, rfl, rfl⟩
  · rintro (⟨rfl, rfl⟩ | ⟨inside, front, content, descriptor, shared, items, level,
      constructor, sequence, fits, paid, rfl, rfl⟩)
    · have fits : width < 256 ^ width := Nat.lt_pow_self (by decide)
      exact ⟨0, [], rfl, by omega, fits, Nat.le_refl 0, rfl, .inl ⟨rfl, rfl, rfl⟩⟩
    · exact ⟨_, _, rfl, by omega, fits, paid, rfl, .inr ⟨items, ⟨inside, level, front, content,
        descriptor, shared, rfl, constructor, rfl, sequence⟩, rfl⟩⟩

end Amqp.Decoder
