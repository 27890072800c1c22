import Amqp.Text.Utf8

/-!
# What is written as UTF-8 reads back

Each character of one, two, three or four bytes is cut off again as one piece. The
bounds on the second byte hold because a character is no surrogate, is written in the
shortest form, and does not exceed the last code point. Hence the cut of a text is
its characters, and reading the bytes of a text gives the text.
-/

namespace Amqp.Utf8

/-- The bytes of a text are those of its characters. -/
theorem encode_eq (text : String) : encode text = text.toList.flatMap String.utf8EncodeChar := by
  rw [encode, ← String.utf8Encode_toList, List.utf8Encode]
  simp

/-- A byte within the bounds continues the character begun. -/
theorem feed_continues {pending : Pending} {byte : UInt8} {done : List Segment}
    (above : pending.low ≤ byte) (below : byte ≤ pending.high) :
    feed (some pending, done) byte =
      match pending.left with
      | 0 => (none, .character (Char.ofNat (pending.value * 64 + byte.toNat % 64)) :: done)
      | left + 1 =>
        (some ⟨0x80, 0xBF, left, pending.value * 64 + byte.toNat % 64, pending.seen + 1⟩,
          done) :=
  if_pos ⟨above, below⟩

/-- A number below 64 behind the mark of a continuation byte. -/
theorem toNat_continuation (number : Nat) :
    (UInt8.ofNat (number % 64 + 128)).toNat = number % 64 + 128 := by
  simp
  omega

/-- A character below 128 is one byte. -/
theorem foldl_feed_one {number : Nat} {char : Char} (whole : Char.ofNat number = char)
    (small : number ≤ 127) (done : List Segment) :
    [UInt8.ofNat number].foldl feed (none, done) = (none, .character char :: done) := by
  have byte : (UInt8.ofNat number).toNat = number := by simp; omega
  simp only [List.foldl_cons, List.foldl_nil, feed, startWith, lead, byte]
  rw [if_pos (by omega), whole]

/-- A character below 2048 is two bytes. -/
theorem foldl_feed_two {number : Nat} {char : Char} (whole : Char.ofNat number = char)
    (large : 127 < number) (small : number ≤ 2047) (done : List Segment) :
    [UInt8.ofNat (number / 64 % 32 + 192), UInt8.ofNat (number % 64 + 128)].foldl feed
      (none, done) = (none, .character char :: done) := by
  have first : (UInt8.ofNat (number / 64 % 32 + 192)).toNat = number / 64 + 192 := by
    simp; omega
  have opened : lead (UInt8.ofNat (number / 64 % 32 + 192)) =
      .opens ⟨0x80, 0xBF, 0, number / 64, 1⟩ := by
    simp only [lead, first]
    rw [if_neg (by omega), if_neg (by omega), if_pos (by omega)]
    simp
  simp only [List.foldl_cons, List.foldl_nil]
  rw [feed, startWith, opened, feed_continues]
  · simp only [toNat_continuation]
    rw [show number / 64 * 64 + (number % 64 + 128) % 64 = number by omega, whole]
  · rw [UInt8.le_iff_toNat_le, toNat_continuation]; simp
  · rw [UInt8.le_iff_toNat_le, toNat_continuation]; simp; omega

/-- The lead byte of three opens a character, and the byte after it is within bounds. Two leads
have bounds of their own: one would otherwise open overlong forms, and the other surrogates. -/
theorem lead_three {number : Nat} (valid : number < 0xD800 ∨ 0xDFFF < number)
    (large : 2047 < number) (small : number ≤ 65535) :
    ∃ low high,
      lead (UInt8.ofNat (number / 4096 % 16 + 224)) = .opens ⟨low, high, 1, number / 4096, 1⟩ ∧
        low.toNat ≤ number / 64 % 64 + 128 ∧ number / 64 % 64 + 128 ≤ high.toNat := by
  have first : (UInt8.ofNat (number / 4096 % 16 + 224)).toNat = number / 4096 + 224 := by
    simp; omega
  have back : number / 4096 + 224 - 224 = number / 4096 := by omega
  simp only [lead, first]
  rw [if_neg (by omega), if_neg (by omega), if_neg (by omega)]
  split
  · exact ⟨_, _, by rw [show number / 4096 = 0 by omega], by simp; omega, by simp; omega⟩
  · split
    · exact ⟨_, _, by rw [back], by simp, by simp; omega⟩
    · rw [if_pos (by omega)]
      exact ⟨_, _, by rw [back], by simp, by simp; omega⟩

/-- A character below 65536 is three bytes. The bounds behind the lead are met because the
character is no surrogate and would not fit two bytes. -/
theorem foldl_feed_three {number : Nat} {char : Char} (whole : Char.ofNat number = char)
    (valid : number < 0xD800 ∨ 0xDFFF < number) (large : 2047 < number)
    (small : number ≤ 65535) (done : List Segment) :
    [UInt8.ofNat (number / 4096 % 16 + 224), UInt8.ofNat (number / 64 % 64 + 128),
      UInt8.ofNat (number % 64 + 128)].foldl feed (none, done) =
      (none, .character char :: done) := by
  obtain ⟨low, high, opened, above, below⟩ := lead_three valid large small
  simp only [List.foldl_cons, List.foldl_nil]
  rw [feed, startWith, opened, feed_continues, feed_continues]
  · simp only [toNat_continuation]
    rw [show (number / 4096 * 64 + (number / 64 % 64 + 128) % 64) * 64 +
      (number % 64 + 128) % 64 = number by omega, whole]
  all_goals simp only [UInt8.le_iff_toNat_le, toNat_continuation]
  · simp
  · simp; omega
  · exact above
  · exact below

/-- The lead byte of four opens a character, and the byte after it is within bounds. Here the
bounds keep out overlong forms and numbers beyond the last code point. -/
theorem lead_four {number : Nat} (large : 65535 < number) (small : number < 0x110000) :
    ∃ low high,
      lead (UInt8.ofNat (number / 262144 % 8 + 240)) =
          .opens ⟨low, high, 2, number / 262144, 1⟩ ∧
        low.toNat ≤ number / 4096 % 64 + 128 ∧ number / 4096 % 64 + 128 ≤ high.toNat := by
  have first : (UInt8.ofNat (number / 262144 % 8 + 240)).toNat = number / 262144 + 240 := by
    simp; omega
  simp only [lead, first]
  rw [if_neg (by omega), if_neg (by omega), if_neg (by omega), if_neg (by omega),
    if_neg (by omega), if_neg (by omega)]
  split
  · exact ⟨_, _, by rw [show number / 262144 = 0 by omega], by simp; omega, by simp; omega⟩
  · split
    · exact ⟨_, _, by rw [show number / 262144 + 240 - 240 = number / 262144 by omega],
        by simp, by simp; omega⟩
    · rw [if_pos (by omega)]
      exact ⟨_, _, by rw [show number / 262144 = 4 by omega], by simp, by simp; omega⟩

/-- Any other character is four bytes. The bounds behind the lead are met because it would not
fit three bytes and is not beyond the last code point. -/
theorem foldl_feed_four {number : Nat} {char : Char} (whole : Char.ofNat number = char)
    (large : 65535 < number) (small : number < 0x110000) (done : List Segment) :
    [UInt8.ofNat (number / 262144 % 8 + 240), UInt8.ofNat (number / 4096 % 64 + 128),
      UInt8.ofNat (number / 64 % 64 + 128), UInt8.ofNat (number % 64 + 128)].foldl feed
      (none, done) = (none, .character char :: done) := by
  obtain ⟨low, high, opened, above, below⟩ := lead_four large small
  simp only [List.foldl_cons, List.foldl_nil]
  rw [feed, startWith, opened, feed_continues, feed_continues, feed_continues]
  · simp only [toNat_continuation]
    rw [show ((number / 262144 * 64 + (number / 4096 % 64 + 128) % 64) * 64 +
      (number / 64 % 64 + 128) % 64) * 64 + (number % 64 + 128) % 64 = number by omega, whole]
  all_goals simp only [UInt8.le_iff_toNat_le, toNat_continuation]
  · simp
  · simp; omega
  · simp
  · simp; omega
  · exact above
  · exact below

/-- The bytes of a character are cut off as that character. How many they are is decided by its
number, with the same limits for writing and for reading. -/
theorem foldl_feed_encodeChar (char : Char) (done : List Segment) :
    (String.utf8EncodeChar char).foldl feed (none, done) = (none, .character char :: done) := by
  have valid : char.val.toNat < 0xD800 ∨ 0xDFFF < char.val.toNat ∧ char.val.toNat < 0x110000 :=
    char.valid
  have whole : Char.ofNat char.val.toNat = char := Char.ofNat_toNat char
  unfold String.utf8EncodeChar
  generalize char.val.toNat = number at valid whole
  dsimp only
  split
  · next small => exact foldl_feed_one whole small done
  · next large =>
    split
    · next small => exact foldl_feed_two whole (by omega) small done
    · next large =>
      split
      · next small => exact foldl_feed_three whole (by omega) (by omega) small done
      · next large => exact foldl_feed_four whole (by omega) (by omega) done

/-- The cut of a text is its characters. Nothing is begun at its end, so nothing is left over. -/
theorem segments_encode (text : String) :
    segments (encode text) = text.toList.map .character := by
  have general : ∀ (chars : List Char) (done : List Segment),
      (chars.flatMap String.utf8EncodeChar).foldl feed (none, done) =
        (none, (chars.map .character).reverse ++ done) := by
    intro chars
    induction chars with
    | nil => intro done; rfl
    | cons char rest inductionHypothesis =>
      intro done
      rw [List.flatMap_cons, List.foldl_append, foldl_feed_encodeChar, inductionHypothesis]
      simp
  rw [segments, encode_eq, general]
  simp [finish]

/-- Reading what was written gives the text back. The pieces of the text are its characters, and
none of them is a fault. -/
theorem decode_encode (text : String) : decode (encode text) = .ok text := by
  have general : ∀ (chars : List Char) (index : Nat) (before : List Char),
      characters index before (chars.map .character) = .ok (before.reverse ++ chars) := by
    intro chars
    induction chars with
    | nil => intro index before; simp [characters]
    | cons char rest inductionHypothesis =>
      intro index before
      simp [characters, inductionHypothesis]
  rw [decode, segments_encode, general]
  simp [Except.map]

/-- Texts of the same bytes are the same. -/
theorem encode_inj {text other : String} : encode text = encode other ↔ text = other := by
  constructor
  · intro same
    have read := decode_encode other
    rw [← same, decode_encode] at read
    exact Except.ok.inj read
  · exact congrArg encode

end Amqp.Utf8
