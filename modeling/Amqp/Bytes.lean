/-!
# Byte strings and big-endian numbers

Numbers travel most significant byte first. `be width n` writes the low `width`
bytes of a number and `beValue` reads any byte string as one, so that reading what
was written gives the number modulo the width. Hexadecimal digits are lowercase.
-/

-- Powers of numbers are the ones of the core library, whatever else is imported.
attribute [instance (2000), default_instance 20000] instPowNat

namespace Amqp

/-- A byte string. -/
abbrev Bytes := List UInt8

namespace Bytes

/-- The number whose big-endian digits in base 256 are the given bytes, continuing
from the value of the digits already read. -/
def beFrom (value : Nat) : Bytes → Nat
  | [] => value
  | byte :: rest => beFrom (value * 256 + byte.toNat) rest

/-- The number that a byte string denotes, most significant byte first. -/
def beValue (bytes : Bytes) : Nat := beFrom 0 bytes

/-- The low `width` bytes of a number, most significant byte first. -/
def be : (width : Nat) → (number : Nat) → Bytes
  | 0, _ => []
  | width + 1, number => UInt8.ofNat (number / 256 ^ width) :: be width number

/-- A number takes as many bytes as its width says. -/
@[simp] theorem length_be (width number : Nat) : (be width number).length = width := by
  induction width with
  | zero => rfl
  | succ width inductionHypothesis => simp [be, inductionHypothesis]

/-- Digits already read weigh one power of 256 for each byte that follows. -/
theorem beFrom_eq (bytes : Bytes) (value : Nat) :
    beFrom value bytes = value * 256 ^ bytes.length + beFrom 0 bytes := by
  induction bytes generalizing value with
  | nil => simp [beFrom]
  | cons byte rest inductionHypothesis =>
    rw [beFrom, beFrom, inductionHypothesis, inductionHypothesis (0 * 256 + byte.toNat),
      List.length_cons, Nat.pow_succ]
    simp only [Nat.zero_mul, Nat.zero_add, Nat.add_mul, Nat.mul_assoc, Nat.add_assoc,
      Nat.mul_comm 256]

/-- Reading a written number gives it back modulo its width. -/
theorem beValue_be (width number : Nat) : beValue (be width number) = number % 256 ^ width := by
  induction width with
  | zero => simp [be, beValue, beFrom, Nat.mod_one]
  | succ width inductionHypothesis =>
    unfold beValue at inductionHypothesis ⊢
    have byte : (UInt8.ofNat (number / 256 ^ width)).toNat = number / 256 ^ width % 256 := by simp
    rw [be, beFrom, beFrom_eq, inductionHypothesis, length_be, Nat.zero_mul, Nat.zero_add, byte,
      Nat.pow_succ,
      Nat.mod_mul, Nat.add_comm, Nat.mul_comm]

/-- The number that bytes denote fits their width. -/
theorem beValue_lt (bytes : Bytes) : beValue bytes < 256 ^ bytes.length := by
  unfold beValue
  induction bytes with
  | nil => simp [beFrom]
  | cons byte rest inductionHypothesis =>
    have small : byte.toNat < 256 := byte.toNat_lt
    have weighed : byte.toNat * 256 ^ rest.length ≤ 255 * 256 ^ rest.length :=
      Nat.mul_le_mul_right _ (by omega)
    rw [beFrom, beFrom_eq, Nat.zero_mul, Nat.zero_add, List.length_cons, Nat.pow_succ]
    omega

/-- Only the lowest bytes of a number are written, so a number that is too large is written as
what is left of it. -/
theorem be_add_mul (width number excess : Nat) :
    be width (number + excess * 256 ^ width) = be width number := by
  induction width generalizing excess with
  | zero => rfl
  | succ width inductionHypothesis =>
    have positive : 0 < 256 ^ width := Nat.pow_pos (by decide)
    have shifted : number + excess * 256 ^ (width + 1) =
        number + excess * 256 * 256 ^ width := by
      rw [Nat.pow_succ, Nat.mul_assoc, Nat.mul_comm 256]
    rw [shifted, be, be, inductionHypothesis, Nat.add_mul_div_right _ _ positive]
    congr 1
    exact UInt8.toNat_inj.mp (by simp)

/-- Bytes are written again from the number they denote, zeros in front included, because the
width is known. -/
theorem be_beValue (bytes : Bytes) : be bytes.length (beValue bytes) = bytes := by
  unfold beValue
  induction bytes with
  | nil => rfl
  | cons byte rest inductionHypothesis =>
    have small : beFrom 0 rest < 256 ^ rest.length := beValue_lt rest
    have positive : 0 < 256 ^ rest.length := Nat.pow_pos (by decide)
    rw [beFrom, beFrom_eq, Nat.zero_mul, Nat.zero_add, List.length_cons, be, Nat.add_comm,
      be_add_mul, inductionHypothesis, Nat.add_mul_div_right _ _ positive, Nat.div_eq_of_lt small]
    simp

/-- Bytes of at least some length have a front of that length. -/
theorem exists_append_of_le {rest : Bytes} {length : Nat} (enough : length ≤ rest.length) :
    ∃ front back, rest = front ++ back ∧ front.length = length :=
  ⟨rest.take length, rest.drop length, (List.take_append_drop ..).symm, by simp [enough]⟩

/-- The lowercase hexadecimal digit of a number below sixteen. -/
def hexDigit (digit : Nat) : Char :=
  if digit < 10 then Char.ofNat (48 + digit) else Char.ofNat (87 + digit)

/-- The two hexadecimal digits of a byte. -/
def hexByte (byte : UInt8) : List Char :=
  [hexDigit (byte.toNat / 16), hexDigit (byte.toNat % 16)]

/-- The hexadecimal digits of a byte string. -/
def hex (bytes : Bytes) : String := String.ofList (bytes.flatMap hexByte)

end Bytes

end Amqp
