import Amqp.Decoder
import Amqp.Proofs.Sequencing
import Amqp.Proofs.Source.Lawful

/-!
# Computations that accept a language

A computation on a source accepts a language when it succeeds exactly if the bytes to
come begin with a word of it: it then gives the result that the word stands for, and the
source stands behind the word. Nothing is said of failures. The language of two
computations in a row is made of the words of the first and, behind each, the words of
the second for the result of the first.
-/

namespace Amqp

namespace Decoder

open Source (Lawful)
open Source.Lawful (Settled Facing)

variable {σ : Type} [Source σ] [Lawful σ] {α β : Type}

/-- A computation that accepts a language from sources in some state. -/
structure ParsesFrom (start : σ → Bytes → Nat → Prop) (compute : Fetch σ α)
    (language : Bytes → α → Prop) : Prop where
  sound {source after : σ} {rest : Bytes} {taken : Nat} {result : α} :
    start source rest taken → compute source = .ok result after →
      ∃ front back, rest = front ++ back ∧ language front result ∧
        Settled after back (taken + front.length)
  complete {source : σ} {front back : Bytes} {taken : Nat} {result : α} :
    start source (front ++ back) taken → language front result →
      ∃ after, compute source = .ok result after ∧ Settled after back (taken + front.length)

/-- A computation that accepts a language from settled sources. -/
abbrev Parses (compute : Fetch σ α) (language : Bytes → α → Prop) : Prop :=
  ParsesFrom Settled compute language

/-- The words of a first language, and behind each the words of a second one. -/
def Chained (first : Bytes → α → Prop) (second : α → Bytes → β → Prop) (bytes : Bytes)
    (result : β) : Prop :=
  ∃ front back between, bytes = front ++ back ∧ first front between ∧ second between back result

variable {start : σ → Bytes → Nat → Prop}

namespace ParsesFrom

variable {compute : Fetch σ α} {language other : Bytes → α → Prop}

/-- Languages with the same words are accepted by the same computations. -/
theorem congr (parses : ParsesFrom start compute language)
    (same : ∀ bytes result, language bytes result ↔ other bytes result) :
    ParsesFrom start compute other := by
  have equal : language = other := by
    funext bytes result
    exact propext (same bytes result)
  exact equal ▸ parses

/-- Two computations in a row accept the words of the first and then of the second. What the
second one accepts may depend on the result of the first, which is how a length or a constructor
decides what follows it. -/
theorem bind {next : α → Fetch σ β} {second : α → Bytes → β → Prop}
    (parses : ParsesFrom start compute language)
    (each : ∀ result, Parses (next result) (second result)) :
    ParsesFrom start (compute >>= next) (Chained language second) where
  sound begun ran := by
    obtain ⟨between, middle, first, second⟩ := ok_of_bind ran
    obtain ⟨front, rest, rfl, word, settled⟩ := parses.sound begun first
    obtain ⟨behind, back, rfl, later, final⟩ := (each between).sound settled second
    refine ⟨front ++ behind, back, (List.append_assoc ..).symm,
      ⟨front, behind, between, rfl, word, later⟩, ?_⟩
    rw [List.length_append, ← Nat.add_assoc]
    exact final
  complete begun := by
    rintro ⟨front, behind, between, rfl, word, later⟩
    rw [List.append_assoc] at begun
    obtain ⟨middle, first, settled⟩ := parses.complete begun word
    obtain ⟨after, second, final⟩ := (each between).complete settled later
    refine ⟨after, (bind_of_ok first).trans second, ?_⟩
    rw [List.length_append, ← Nat.add_assoc]
    exact final

end ParsesFrom

/-- Giving a result takes no bytes. -/
theorem parses_pure (result : α) :
    Parses (pure result : Fetch σ α) fun bytes other => bytes = [] ∧ other = result where
  sound begun ran := by
    cases ran
    exact ⟨[], _, rfl, ⟨rfl, rfl⟩, begun⟩
  complete {source _ _ _ _} begun := by
    rintro ⟨rfl, rfl⟩
    exact ⟨source, rfl, begun⟩

/-- A refusal accepts nothing. -/
theorem parses_throw (error : Error) :
    ParsesFrom start (throw error : Fetch σ α) fun _ _ => False where
  sound _ ran := by cases ran
  complete _ := False.elim

/-- A result that does not come from the source takes no bytes. -/
theorem parses_lift (result : Except Error α) :
    Parses (lift result : Fetch σ α) fun bytes value => bytes = [] ∧ result = .ok value := by
  cases result with
  | error error => exact (parses_throw error).congr fun bytes value => by simp
  | ok value => exact (parses_pure value).congr fun bytes other => by simp [eq_comm]

/-- A result computed from another takes no bytes of its own. -/
theorem ParsesFrom.map {compute : Fetch σ α} {language : Bytes → α → Prop}
    (parses : ParsesFrom start compute language) (finish : α → β) :
    ParsesFrom start (compute >>= fun result => pure (finish result)) fun bytes value =>
      ∃ result, language bytes result ∧ value = finish result := by
  apply (parses.bind fun result => parses_pure (finish result)).congr
  intro bytes value
  constructor
  · rintro ⟨front, back, result, rfl, word, rfl, rfl⟩
    exact ⟨result, by rwa [List.append_nil], rfl⟩
  · rintro ⟨result, word, rfl⟩
    exact ⟨bytes, [], result, (List.append_nil _).symm, word, rfl, rfl⟩

/-- Asking for so many bytes accepts as many, and gives them in the shape of the request. A
result shows that there were enough, because a request for too many is refused. -/
theorem parses_request {shape : Nat → Type} {request : (length : Nat) → Fetch σ (shape length)}
    {given : (front : Bytes) → shape front.length} (answers : Lawful.Answers request given)
    (length : Nat) :
    Parses (request length) fun bytes value =>
      ∃ same : bytes.length = length, same ▸ given bytes = value where
  sound {source after rest taken result} begun ran := by
    rcases Nat.lt_or_ge rest.length length with short | enough
    · obtain ⟨_, _, _, fails⟩ := answers.short short
      obtain ⟨_, failed, _⟩ := fails source begun
      rw [failed] at ran
      cases ran
    · obtain ⟨front, back, rfl, rfl⟩ := Bytes.exists_append_of_le enough
      obtain ⟨middle, asked, settled⟩ := answers.settled begun
      rw [asked] at ran
      cases ran
      exact ⟨front, back, rfl, ⟨rfl, rfl⟩, settled⟩
  complete begun := by
    rintro ⟨rfl, rfl⟩
    exact answers.settled begun

/-- Reading exactly so many bytes. -/
theorem parses_read (length : Nat) :
    Parses (Source.read length : Fetch σ _) fun bytes value => bytes = value.toList := by
  apply (parses_request Lawful.answers_read length).congr
  intro bytes value
  constructor
  · rintro ⟨rfl, rfl⟩
    rfl
  · rintro rfl
    obtain ⟨⟨bytes⟩, sized⟩ := value
    subst sized
    exact ⟨rfl, rfl⟩

/-- Taking a payload of so many bytes. -/
theorem parses_take (length : Nat) :
    Parses (Source.take length : Fetch σ _) fun bytes value =>
      bytes.length = length ∧ value = bytes := by
  apply (parses_request Lawful.answers_take length).congr
  intro bytes value
  constructor
  · rintro ⟨rfl, rfl⟩
    exact ⟨rfl, rfl⟩
  · rintro ⟨rfl, rfl⟩
    exact ⟨rfl, rfl⟩

/-- Passing over so many bytes. -/
theorem parses_skip (length : Nat) :
    Parses (Source.skip length : Fetch σ _) fun bytes _ => bytes.length = length :=
  (parses_request Lawful.answers_skip length).congr fun _ _ =>
    ⟨fun ⟨same, _⟩ => same, fun same => ⟨same, rfl⟩⟩

/-- Reading a number of a width gives every number that fits, from its own bytes. No two strings
of as many bytes are the same number, so the number determines what was read. -/
theorem parses_readNat (width : Nat) :
    Parses (Source.readNat width : Fetch σ _) fun bytes number =>
      number < 256 ^ width ∧ bytes = .be width number := by
  refine ((parses_read width).map fun bytes => Bytes.beValue bytes.toList).congr
    fun bytes number => ?_
  constructor
  · rintro ⟨value, rfl, rfl⟩
    have length : value.toList.length = width := by simp
    refine ⟨?_, ?_⟩
    · simpa only [length] using Bytes.beValue_lt value.toList
    · simpa only [length] using (Bytes.be_beValue value.toList).symm
  · rintro ⟨fits, rfl⟩
    refine ⟨⟨(Bytes.be width number).toArray, by simp⟩, rfl, ?_⟩
    change number = Bytes.beValue (Bytes.be width number)
    rw [Bytes.beValue_be, Nat.mod_eq_of_lt fits]

/-- A refusal that depends on a condition accepts the empty word where it does not hold. -/
theorem parses_unless (condition : Prop) [Decidable condition] (error : Error) :
    Parses (if condition then throw error else pure () : Fetch σ Unit) fun bytes _ =>
      bytes = [] ∧ ¬condition := by
  by_cases holds : condition
  · rw [if_pos holds]
    exact (parses_throw error).congr fun bytes _ => by simp [holds]
  · rw [if_neg holds]
    exact (parses_pure ()).congr fun bytes _ => by simp [holds]

/-- Going on unless a condition holds is a refusal of its own in front. -/
theorem bind_unless {σ α : Type} (condition : Prop) [Decidable condition] (error : Error)
    (next : Unit → Fetch σ α) :
    (if condition then throw error >>= next else next ()) =
      ((if condition then throw error else pure ()) >>= next : Fetch σ α) := by
  split <;> rfl

/-- Looking at the constructor of the next value keeps everything in place, whether it is shown,
is no constructor or is missing. All three outcomes are told by the bytes to come. -/
theorem peekCode_of_facing {source : σ} {rest : Bytes} {taken : Nat}
    (faces : Facing source rest taken) :
    ∃ after, Facing after rest taken ∧ peekCode source =
      match rest.head?, rest.head?.bind Code.ofByte? with
      | none, _ => .error .unexpectedEof after
      | some byte, none => .error (.unknownCode byte) after
      | some _, some code => .ok code after := by
  obtain ⟨after, shown, faces⟩ := Lawful.peek_facing faces
  refine ⟨after, faces, (bind_of_ok shown).trans ?_⟩
  cases rest with
  | nil => rfl
  | cons byte rest =>
    simp only [List.head?_cons, Option.bind_some]
    cases Code.ofByte? byte <;> rfl

/-- A constructor is only seen where its byte comes next. No other byte is the same constructor.
-/
theorem head_of_peekCode {source after : σ} {rest : Bytes} {taken : Nat} {code : Code}
    (faces : Facing source rest taken) (ran : peekCode source = .ok code after) :
    ∃ behind, rest = code.toByte :: behind ∧ Facing after rest taken := by
  obtain ⟨middle, kept, shown⟩ := peekCode_of_facing faces
  rw [ran] at shown
  cases rest with
  | nil => cases shown
  | cons byte behind =>
    simp only [List.head?_cons, Option.bind_some] at shown
    cases assigned : Code.ofByte? byte with
    | none => rw [assigned] at shown; cases shown
    | some found =>
      rw [assigned] at shown
      cases shown
      exact ⟨behind, by rw [Code.toByte_of_ofByte? assigned], kept⟩

/-- A constructor is seen where its byte comes next. -/
theorem peekCode_of_head {source : σ} {behind : Bytes} {taken : Nat} {code : Code}
    (faces : Facing source (code.toByte :: behind) taken) :
    ∃ after, peekCode source = .ok code after ∧ Facing after (code.toByte :: behind) taken := by
  obtain ⟨after, kept, shown⟩ := peekCode_of_facing faces
  refine ⟨after, ?_, kept⟩
  simpa using shown

/-- Taking a constructor that was looked at, and then going on behind it, if it is one that is
wanted. The premise says that the words of each constructor begin with its byte, since the byte
is still to be taken by what goes on. -/
theorem parsesFrom_peekCode {next : Code → Fetch σ α} {language : Code → Bytes → α → Prop}
    (each : ∀ code, ParsesFrom (fun source rest taken => rest.head? = some code.toByte ∧
      Facing source rest taken) (next code) (language code))
    (begins : ∀ code bytes result, language code bytes result → bytes.head? = some code.toByte) :
    ParsesFrom Facing (peekCode >>= next : Fetch σ α) fun bytes result =>
      ∃ code, language code bytes result where
  sound begun ran := by
    obtain ⟨code, middle, shown, going⟩ := ok_of_bind ran
    obtain ⟨behind, rfl, faces⟩ := head_of_peekCode begun shown
    obtain ⟨front, back, split, word, settled⟩ := (each code).sound ⟨rfl, faces⟩ going
    exact ⟨front, back, split, ⟨code, word⟩, settled⟩
  complete {source front back taken result} begun := by
    rintro ⟨code, word⟩
    obtain ⟨rest, rfl⟩ := List.head?_eq_some_iff.mp (begins code front result word)
    obtain ⟨middle, shown, faces⟩ := peekCode_of_head begun
    obtain ⟨after, ran, settled⟩ := (each code).complete ⟨rfl, faces⟩ word
    exact ⟨after, (bind_of_ok shown).trans ran, settled⟩

/-- Passing over a byte that was looked at. The source may hold it, so the laws of a settled
source do not apply, and it is the law for taking the next byte that does. -/
theorem parsesFrom_skip_one (code : Code) :
    ParsesFrom (fun source rest taken => rest.head? = some code.toByte ∧
      Facing source rest taken) (Source.skip 1 : Fetch σ Unit)
      fun bytes _ => bytes = [code.toByte] where
  sound {source after rest taken result} begun ran := by
    obtain ⟨first, faces⟩ := begun
    obtain ⟨behind, rfl⟩ := List.head?_eq_some_iff.mp first
    obtain ⟨last, skipped, settled⟩ := Lawful.skip_facing faces
    rw [skipped] at ran
    cases ran
    exact ⟨[_], behind, rfl, rfl, settled⟩
  complete begun := by
    rintro rfl
    exact Lawful.skip_facing begun.2

/-- Taking the constructor of the next value, whether its byte is held or not. If it is held, it
is the first byte to come all the same. -/
theorem parsesFrom_readCode :
    ParsesFrom Facing (readCode : Fetch σ Code) fun bytes code => bytes = [code.toByte] := by
  refine (parsesFrom_peekCode (fun code => (parsesFrom_skip_one code).map fun _ => code) ?_).congr
    fun bytes code => ?_
  · rintro code _ _ ⟨_, rfl, _⟩
    rfl
  · constructor
    · rintro ⟨_, _, rfl, rfl⟩
      rfl
    · rintro rfl
      exact ⟨code, (), rfl, rfl⟩

/-- Taking the constructor of the next value. -/
theorem parses_readCode :
    Parses (readCode : Fetch σ Code) fun bytes code => bytes = [code.toByte] where
  sound begun := parsesFrom_readCode.sound (Lawful.facing begun)
  complete begun := parsesFrom_readCode.complete (Lawful.facing begun)

end Decoder

end Amqp
