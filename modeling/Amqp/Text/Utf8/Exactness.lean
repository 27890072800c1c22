import Amqp.Text.Utf8.RoundTrip

/-!
# What reads as UTF-8 is what is written

A text has only one spelling that is read strictly. The bounds on the byte after the lead leave
out overlong forms, surrogates and numbers beyond the last code point, so the bytes that are cut
off as a character are the bytes of that character. A cut without a fault therefore spells its
characters, and the bytes of a text that was read are those that it is written as.
-/

namespace Amqp.Utf8

section Characters

variable {number : Nat} {first second third fourth : UInt8}

/-- A number that is no surrogate and not beyond the last code point is that of a character. -/
theorem toNat_charOfNat (valid : number < 0xD800 ∨ 0xDFFF < number ∧ number < 0x110000) :
    (Char.ofNat number).val.toNat = number := by
  have known : number.isValidChar := valid
  rw [Char.ofNat, dif_pos known]
  rfl

/-- A byte is the one of its number. -/
theorem ofNat_eq {byte : UInt8} (same : number = byte.toNat) : UInt8.ofNat number = byte := by
  rw [same, UInt8.ofNat_toNat]

/-- Whether a byte continues a character. -/
def Continues (byte : UInt8) : Prop := 128 ≤ byte.toNat ∧ byte.toNat ≤ 191

/-- A byte below 128 spells a character on its own. -/
theorem encodeChar_one (small : first.toNat < 128) :
    String.utf8EncodeChar (Char.ofNat first.toNat) = [first] := by
  have valid := @toNat_charOfNat first.toNat (by omega)
  simp only [String.utf8EncodeChar, valid]
  rw [if_pos (by omega), UInt8.ofNat_toNat]

/-- Two bytes spell a character that one byte does not. -/
theorem encodeChar_two (above : 194 ≤ first.toNat) (below : first.toNat < 224)
    (continued : Continues second)
    (same : number = (first.toNat - 192) * 64 + second.toNat % 64) :
    String.utf8EncodeChar (Char.ofNat number) = [first, second] := by
  obtain ⟨low, high⟩ := continued
  have valid := @toNat_charOfNat number (by omega)
  simp only [String.utf8EncodeChar, valid]
  rw [if_neg (by omega), if_pos (by omega)]
  rw [@ofNat_eq _ first (by omega), @ofNat_eq _ second (by omega)]

/-- Three bytes spell a character that two bytes do not, unless it would be a surrogate. That it
takes three bytes is what the bound on its number says. -/
theorem encodeChar_three (above : 224 ≤ first.toNat) (below : first.toNat < 240)
    (continued : Continues second) (continued' : Continues third)
    (same : number =
      ((first.toNat - 224) * 64 + second.toNat % 64) * 64 + third.toNat % 64)
    (large : 2047 < number) (valid : number < 0xD800 ∨ 0xDFFF < number) :
    String.utf8EncodeChar (Char.ofNat number) = [first, second, third] := by
  obtain ⟨low, high⟩ := continued
  obtain ⟨low', high'⟩ := continued'
  have valid := @toNat_charOfNat number (by omega)
  simp only [String.utf8EncodeChar, valid]
  rw [if_neg (by omega), if_neg (by omega), if_pos (by omega)]
  rw [@ofNat_eq _ first (by omega), @ofNat_eq _ second (by omega), @ofNat_eq _ third (by omega)]

/-- Four bytes spell a character that three bytes do not. There are no surrogates among these,
but numbers beyond the last code point. -/
theorem encodeChar_four (above : 240 ≤ first.toNat) (below : first.toNat < 245)
    (continued : Continues second) (continued' : Continues third)
    (continued'' : Continues fourth)
    (same : number = (((first.toNat - 240) * 64 + second.toNat % 64) * 64 +
      third.toNat % 64) * 64 + fourth.toNat % 64)
    (large : 65535 < number) (valid : number < 0x110000) :
    String.utf8EncodeChar (Char.ofNat number) = [first, second, third, fourth] := by
  obtain ⟨low, high⟩ := continued
  obtain ⟨low', high'⟩ := continued'
  obtain ⟨low'', high''⟩ := continued''
  have valid := @toNat_charOfNat number (by omega)
  simp only [String.utf8EncodeChar, valid]
  rw [if_neg (by omega), if_neg (by omega), if_neg (by omega)]
  rw [@ofNat_eq _ first (by omega), @ofNat_eq _ second (by omega), @ofNat_eq _ third (by omega),
    @ofNat_eq _ fourth (by omega)]

end Characters

section Cut

/-- Whatever bytes within the bounds complete a character begun, the character is spelled by
the bytes begun and those. -/
def Spells : (left : Nat) → (low high : UInt8) → (value : Nat) → (begun : Bytes) → Prop
  | 0, low, high, value, begun => ∀ byte, low ≤ byte → byte ≤ high →
    String.utf8EncodeChar (Char.ofNat (value * 64 + byte.toNat % 64)) = begun ++ [byte]
  | left + 1, low, high, value, begun => ∀ byte, low ≤ byte → byte ≤ high →
    Spells left 0x80 0xBF (value * 64 + byte.toNat % 64) (begun ++ [byte])

/-- The bytes of a character begun. -/
def Pending.Spells (pending : Pending) (begun : Bytes) : Prop :=
  Utf8.Spells pending.left pending.low pending.high pending.value begun

/-- A lead of three bytes, given that the bounds on the byte behind it leave out numbers of fewer
bytes and surrogates. -/
theorem spells_three {byte low high : UInt8} (above : 224 ≤ byte.toNat) (below : byte.toNat < 240)
    (bounds : ∀ second : UInt8, low.toNat ≤ second.toNat → second.toNat ≤ high.toNat →
      Continues second ∧ 32 ≤ (byte.toNat - 224) * 64 + second.toNat % 64 ∧
        ((byte.toNat - 224) * 64 + second.toNat % 64 < 0x360 ∨
          0x37F < (byte.toNat - 224) * 64 + second.toNat % 64)) :
    Spells 1 low high (byte.toNat - 224) [byte] := by
  intro second low high third low' high'
  rw [UInt8.le_iff_toNat_le] at low high low' high'
  obtain ⟨continued, large, valid⟩ := bounds second low high
  exact encodeChar_three above below continued ⟨low', high'⟩ rfl (by omega) (by omega)

/-- A lead of four bytes, given that the bounds on the byte behind it leave out numbers of fewer
bytes and those beyond the last code point. -/
theorem spells_four {byte low high : UInt8} (above : 240 ≤ byte.toNat) (below : byte.toNat < 245)
    (bounds : ∀ second : UInt8, low.toNat ≤ second.toNat → second.toNat ≤ high.toNat →
      Continues second ∧ 16 ≤ (byte.toNat - 240) * 64 + second.toNat % 64 ∧
        (byte.toNat - 240) * 64 + second.toNat % 64 < 0x110) :
    Spells 2 low high (byte.toNat - 240) [byte] := by
  intro second low high third low' high' fourth low'' high''
  rw [UInt8.le_iff_toNat_le] at low high low' high' low'' high''
  obtain ⟨continued, large, valid⟩ := bounds second low high
  exact encodeChar_four above below continued ⟨low', high'⟩ ⟨low'', high''⟩ rfl (by omega)
    (by omega)

/-- A byte that begins a character is the first of its bytes, whatever bytes within the bounds
follow it. The bounds on the byte behind it are its own, and those on the others are the same for
all. -/
theorem spells_of_lead {byte : UInt8} {pending : Pending} (opened : lead byte = .opens pending) :
    pending.Spells [byte] := by
  simp only [lead] at opened
  split at opened
  · cases opened
  split at opened
  · cases opened
  split at opened
  · cases opened
    intro second low high
    rw [UInt8.le_iff_toNat_le] at low high
    exact encodeChar_two (by omega) (by omega) ⟨low, high⟩ rfl
  split at opened
  · next first =>
    cases opened
    have start : Spells 1 0xA0 0xBF (byte.toNat - 224) [byte] :=
      spells_three (by omega) (by omega) fun second (low : 160 ≤ _) (high : _ ≤ 191) =>
        ⟨⟨by omega, by omega⟩, by omega, by omega⟩
    rwa [first] at start
  split at opened
  · next first =>
    cases opened
    exact spells_three (by omega) (by omega) fun second (low : 128 ≤ _) (high : _ ≤ 159) =>
      ⟨⟨by omega, by omega⟩, by omega, by omega⟩
  split at opened
  · cases opened
    exact spells_three (by omega) (by omega) fun second (low : 128 ≤ _) (high : _ ≤ 191) =>
      ⟨⟨by omega, by omega⟩, by omega, by omega⟩
  split at opened
  · next first =>
    cases opened
    have start : Spells 2 0x90 0xBF (byte.toNat - 240) [byte] :=
      spells_four (by omega) (by omega) fun second (low : 144 ≤ _) (high : _ ≤ 191) =>
        ⟨⟨by omega, by omega⟩, by omega, by omega⟩
    rwa [first] at start
  split at opened
  · cases opened
    exact spells_four (by omega) (by omega) fun second (low : 128 ≤ _) (high : _ ≤ 191) =>
      ⟨⟨by omega, by omega⟩, by omega, by omega⟩
  split at opened
  · next first =>
    cases opened
    have start : Spells 2 0x80 0x8F (byte.toNat - 240) [byte] :=
      spells_four (by omega) (by omega) fun second (low : 128 ≤ _) (high : _ ≤ 143) =>
        ⟨⟨by omega, by omega⟩, by omega, by omega⟩
    rwa [first] at start
  · cases opened

/-- A byte that is a character is below 128. -/
theorem lead_eq_character {byte : UInt8} {char : Char} (opened : lead byte = .character char) :
    byte.toNat < 128 ∧ char = Char.ofNat byte.toNat := by
  simp only [lead] at opened
  split at opened
  · next small =>
    cases opened
    exact ⟨small, rfl⟩
  · repeat' split at opened
    all_goals cases opened

/-- The pieces of some bytes behind a character begun. -/
def piecesBehind (pending : Option Pending) (bytes : Bytes) : List Segment :=
  finish (bytes.foldl feed (pending, []))

/-- A byte that begins a character is looked at without regard to the pieces before. -/
theorem startWith_eq (byte : UInt8) (done : List Segment) :
    startWith byte done = ((startWith byte []).1, (startWith byte []).2 ++ done) := by
  unfold startWith
  cases lead byte <;> rfl

/-- A byte is looked at without regard to the pieces before. They are kept in front of what it
adds. -/
theorem feed_eq (pending : Option Pending) (done : List Segment) (byte : UInt8) :
    feed (pending, done) byte =
      ((feed (pending, []) byte).1, (feed (pending, []) byte).2 ++ done) := by
  cases pending with
  | none => exact startWith_eq byte done
  | some pending =>
    simp only [feed]
    split
    · cases pending.left <;> rfl
    · rw [startWith_eq byte (.invalid pending.seen :: done), startWith_eq byte [_]]
      simp

/-- Pieces that are cut off stay in front. -/
theorem finish_foldl (pending : Option Pending) (done : List Segment) (bytes : Bytes) :
    finish (bytes.foldl feed (pending, done)) = done.reverse ++ piecesBehind pending bytes := by
  induction bytes generalizing pending done with
  | nil => cases pending <;> simp [piecesBehind, finish]
  | cons byte rest inductionHypothesis =>
    rw [piecesBehind, List.foldl_cons, List.foldl_cons, feed_eq, inductionHypothesis]
    generalize feed (pending, []) byte = next
    obtain ⟨after, new⟩ := next
    rw [inductionHypothesis, List.reverse_append, List.append_assoc]

/-- The pieces of some bytes are those of the first byte and those of the rest. -/
theorem piecesBehind_cons (pending : Option Pending) (byte : UInt8) (rest : Bytes) :
    piecesBehind pending (byte :: rest) = (feed (pending, []) byte).2.reverse ++
      piecesBehind (feed (pending, []) byte).1 rest :=
  finish_foldl _ _ rest

/-- A cut without a fault spells its characters. The induction is on the bytes, for a character
begun and the bytes of it that were seen, which are put in front again. -/
theorem flatMap_of_pieces {bytes begun : Bytes} {pending : Option Pending} {chars : List Char}
    (spells : match pending with
      | none => begun = []
      | some pending => pending.Spells begun)
    (cut : piecesBehind pending bytes = chars.map .character) :
    begun ++ bytes = chars.flatMap String.utf8EncodeChar := by
  induction bytes generalizing begun pending chars with
  | nil =>
    cases pending with
    | some pending => cases chars <;> simp [piecesBehind, finish] at cut
    | none =>
      obtain rfl : begun = [] := spells
      cases chars with
      | nil => rfl
      | cons char chars => simp [piecesBehind, finish] at cut
  | cons byte rest inductionHypothesis =>
    have continued {char : Char} (whole : String.utf8EncodeChar char = begun ++ [byte])
        (cut : .character char :: piecesBehind none rest = chars.map .character) :
        begun ++ byte :: rest = chars.flatMap String.utf8EncodeChar := by
      cases chars with
      | nil => cases cut
      | cons first chars =>
        obtain ⟨same, later⟩ := List.cons.inj cut
        cases same
        have others := @inductionHypothesis [] none _ rfl later
        rw [List.flatMap_cons, whole, ← others, List.append_assoc]
        rfl
    rw [piecesBehind_cons] at cut
    cases pending with
    | none =>
      obtain rfl : begun = [] := spells
      simp only [feed, startWith] at cut
      split at cut
      · next char opened =>
        obtain ⟨small, rfl⟩ := lead_eq_character opened
        exact continued (encodeChar_one small) cut
      · next pending opened => exact inductionHypothesis (spells_of_lead opened) cut
      · cases chars <;> cases cut
    | some pending =>
      simp only [feed] at cut
      split at cut
      · next within =>
        obtain ⟨low, high, left, value, seen⟩ := pending
        cases left with
        | zero => exact continued (spells byte within.1 within.2) cut
        | succ left =>
          have whole := inductionHypothesis (spells byte within.1 within.2) cut
          rwa [List.append_assoc] at whole
      · rw [startWith_eq, List.reverse_append] at cut
        cases chars <;> cases cut

/-- Characters that are read without a fault are the pieces. Any fault ends the reading, so none
is among them. -/
theorem eq_map_of_characters {index : Nat} {before result : List Char} {pieces : List Segment}
    (read : characters index before pieces = .ok result) :
    ∃ chars, pieces = chars.map .character ∧ result = before.reverse ++ chars := by
  induction pieces generalizing index before with
  | nil =>
    cases read
    exact ⟨[], rfl, by simp⟩
  | cons piece rest inductionHypothesis =>
    cases piece with
    | character char =>
      obtain ⟨chars, rfl, rfl⟩ := inductionHypothesis read
      exact ⟨char :: chars, rfl, by simp⟩
    | invalid length => cases read
    | truncated length => cases read

/-- Bytes that are read as a text are the bytes of the text. -/
theorem encode_of_decode {bytes : Bytes} {text : String} (read : decode bytes = .ok text) :
    encode text = bytes := by
  obtain ⟨found, ran, rfl⟩ := map_eq_ok_iff.mp read
  obtain ⟨characters, cut, same⟩ := eq_map_of_characters ran
  have whole := @flatMap_of_pieces bytes [] none characters rfl cut
  rw [encode_eq, String.toList_ofList, same]
  exact whole.symm

end Cut

end Amqp.Utf8
