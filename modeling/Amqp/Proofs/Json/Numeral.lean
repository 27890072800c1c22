import Amqp.Json
import Amqp.Proofs.Decimal

/-!
# Numerals and the numbers they stand for

A numeral of JSON has digits without a needless zero in front, digits behind a point if there is
one, and an exponent if there is one. It stands for its digits, all in a row, times a power of ten.

Numbers are laid out in four ways: with zeros behind the digits, with the point among them, with
zeros between the point and the digits, or with an exponent. Each way puts the digits of the number
in a row and makes up in the exponent for the places that the point has moved, so the numeral stands
for the number whatever way is taken.
-/

namespace Amqp.Json

open Decimal (Digits)

/-- A row of digits that does not begin with a zero, unless it is one. -/
structure IsWhole (text : List Char) : Prop where
  digits : ∀ char ∈ text, char.isDigit = true
  nonempty : text ≠ []
  noZero : text.head? = some '0' → text = ['0']

/-- The part of a numeral behind the point, for a row of digits. -/
def pointed : List Char → List Char
  | [] => []
  | digits => '.' :: digits

/-- Digits behind the point follow it. -/
theorem pointed_of_ne_nil {digits : List Char} (nonempty : digits ≠ []) :
    pointed digits = '.' :: digits := by
  cases digits with
  | nil => exact absurd rfl nonempty
  | cons digit rest => rfl

/-- The exponent of a numeral. -/
inductive IsExponent : List Char → Int → Prop
  | none : IsExponent [] 0
  | digits {digits : List Char} (each : ∀ char ∈ digits, char.isDigit = true)
      (nonempty : digits ≠ []) :
      IsExponent ('e' :: digits) (Nat.ofDigitChars 10 digits 0)
  | minus {digits : List Char} (each : ∀ char ∈ digits, char.isDigit = true)
      (nonempty : digits ≠ []) :
      IsExponent ('e' :: '-' :: digits) (-Nat.ofDigitChars 10 digits 0)

/-- A numeral without a sign, and the number that it stands for. -/
inductive Unsigned : List Char → ℚ → Prop
  | mk {whole fraction shift : List Char} {exponent : Int} (first : IsWhole whole)
      (second : ∀ char ∈ fraction, char.isDigit = true) (third : IsExponent shift exponent) :
      Unsigned (whole ++ pointed fraction ++ shift)
        (Nat.ofDigitChars 10 (whole ++ fraction) 0 * 10 ^ (exponent - fraction.length))

/-- A numeral and the number that it stands for. -/
inductive Numeral : List Char → ℚ → Prop
  | plain {text : List Char} {number : ℚ} (unsigned : Unsigned text number) : Numeral text number
  | minus {text : List Char} {number : ℚ} (unsigned : Unsigned text number) :
      Numeral ('-' :: text) (-number)

section Digits

/-- The digits of a number. -/
theorem toList_toString (number : Nat) : (toString number).toList = Nat.toDigits 10 number :=
  Nat.toList_repr

/-- The digits of a number are digits. -/
theorem isDigit_toDigits (number : Nat) : ∀ char ∈ Nat.toDigits 10 number, char.isDigit = true :=
  fun _ => Nat.isDigit_of_mem_toDigits (by decide) (by decide)

/-- The digits of a number other than zero do not begin with a zero. They begin as those of a
tenth of the number do. -/
theorem head?_toDigits {number : Nat} (nonzero : number ≠ 0) :
    (Nat.toDigits 10 number).head? ≠ some '0' := by
  induction number using Nat.strongRecOn with
  | ind number inductionHypothesis =>
    rw [Nat.toDigits_eq_if (by decide)]
    split
    · next small =>
      have apart : ∀ digit < 10, digit ≠ 0 → [Nat.digitChar digit].head? ≠ some '0' := by decide
      exact apart number small nonzero
    · next large =>
      have shorter := inductionHypothesis (number / 10) (by omega) (by omega)
      rwa [List.head?_append_of_ne_nil _ Nat.toDigits_ne_nil]

/-- The digits of a number have no needless zero in front. -/
theorem isWhole_toDigits (number : Nat) : IsWhole (Nat.toDigits 10 number) := by
  refine ⟨isDigit_toDigits number, Nat.toDigits_ne_nil, fun zero => ?_⟩
  by_cases nonzero : number = 0
  · rw [nonzero]
    rfl
  · exact absurd zero (head?_toDigits nonzero)

/-- Digits behind those of a number other than zero make no needless zero in front. Behind those
of zero they would. -/
theorem isWhole_append {number : Nat} (nonzero : number ≠ 0) {tail : List Char}
    (each : ∀ char ∈ tail, char.isDigit = true) : IsWhole (Nat.toDigits 10 number ++ tail) := by
  refine ⟨fun char member => (List.mem_append.mp member).elim (isDigit_toDigits number char)
    (each char), List.append_ne_nil_of_left_ne_nil Nat.toDigits_ne_nil _, fun zero => ?_⟩
  rw [List.head?_append_of_ne_nil _ Nat.toDigits_ne_nil] at zero
  exact absurd zero (head?_toDigits nonzero)

/-- A row of zeros is a row of digits. -/
theorem isDigit_zeros (count : Nat) : ∀ char ∈ List.replicate count '0', char.isDigit = true := by
  intro char member
  rw [(List.mem_replicate.mp member).2]
  rfl

end Digits

section Integers

/-- A numeral is what its parts make up, and stands for what they do. -/
theorem Unsigned.of_parts {text shift : List Char} {number : ℚ} {exponent : Int}
    (whole fraction : List Char) (first : IsWhole whole)
    (second : ∀ char ∈ fraction, char.isDigit = true) (third : IsExponent shift exponent)
    (made : text = whole ++ pointed fraction ++ shift)
    (worth : number =
      Nat.ofDigitChars 10 (whole ++ fraction) 0 * 10 ^ (exponent - fraction.length)) :
    Unsigned text number := by
  subst made worth
  exact .mk first second third

/-- A natural number is shown as a numeral for it. -/
theorem unsigned_toString (number : Nat) : Unsigned (toString number).toList number := by
  rw [toList_toString]
  refine .of_parts _ [] (isWhole_toDigits number) nofun .none (by simp [pointed]) ?_
  rw [List.append_nil, Nat.ofDigitChars_ten_toDigits]
  simp

/-- An integer is shown as a natural number, or as one behind a sign. -/
theorem toList_toString_int (number : Int) : (toString number).toList =
    if 0 ≤ number then Nat.toDigits 10 number.toNat
    else '-' :: Nat.toDigits 10 (-number).toNat := by
  rw [Int.toString_eq_repr, Int.repr_eq_if]
  split
  · exact Nat.toList_repr
  · rw [String.toList_append, Nat.toList_repr]
    rfl

/-- An integer is shown as a numeral for it, behind a sign if it is negative. -/
theorem numeral_toString (number : Int) : Numeral (toString number).toList number := by
  rw [toList_toString_int]
  split
  · next positive =>
    obtain ⟨natural, rfl⟩ := Int.eq_ofNat_of_zero_le positive
    rw [Int.toNat_natCast, ← toList_toString]
    exact .plain (unsigned_toString natural)
  · next negative =>
    obtain ⟨natural, made⟩ := Int.eq_ofNat_of_zero_le (by omega : 0 ≤ -number)
    obtain rfl : number = -natural := by omega
    rw [neg_neg, Int.toNat_natCast, ← toList_toString, Int.cast_neg]
    exact .minus (unsigned_toString natural)

/-- An integer is shown as an exponent. -/
theorem isExponent_toString (number : Int) :
    IsExponent ('e' :: (toString number).toList) number := by
  rw [toList_toString_int]
  have digits (natural : Nat) := isDigit_toDigits natural
  split
  · next positive =>
    have exponent := IsExponent.digits (digits number.toNat) Nat.toDigits_ne_nil
    rwa [Nat.ofDigitChars_ten_toDigits, Int.toNat_of_nonneg positive] at exponent
  · next negative =>
    have exponent := IsExponent.minus (digits (-number).toNat) Nat.toDigits_ne_nil
    rwa [Nat.ofDigitChars_ten_toDigits, Int.toNat_of_nonneg (by omega), neg_neg] at exponent

end Integers

section Layouts

variable {number : Digits}

/-- Zeros behind the digits make up for a positive exponent. One more zero stands behind the
point and counts for nothing. -/
theorem unsigned_zeros (nonzero : number.digits ≠ 0) (positive : 0 ≤ number.exponent) :
    Unsigned (Nat.toDigits 10 number.digits ++ List.replicate number.exponent.toNat '0' ++
      ['.', '0']) number.worth := by
  obtain ⟨natural, exponent⟩ := Int.eq_ofNat_of_zero_le positive
  refine .of_parts (Nat.toDigits 10 number.digits ++ List.replicate natural '0') ['0']
    (isWhole_append nonzero (isDigit_zeros _)) (List.forall_mem_singleton.mpr rfl) .none ?_ ?_
  · simp [pointed, exponent]
  · rw [Nat.ofDigitChars_append, Nat.ofDigitChars_append, Nat.ofDigitChars_ten_toDigits,
      Nat.ofDigitChars_replicate_zero, Digits.worth, exponent, zpow_natCast]
    have tenfold (value : Nat) : Nat.ofDigitChars 10 ['0'] value = 10 * value := by
      simp [Nat.ofDigitChars_eq_foldl]
    rw [tenfold]
    push_cast
    rw [List.length_singleton, zero_sub, Nat.cast_one, zpow_neg_one]
    field_simp

/-- The point among the digits makes up for a negative exponent. It has digits on both sides,
because the exponent is not so negative that all digits are behind it. -/
theorem unsigned_point (nonzero : number.digits ≠ 0) {point : Nat} (positive : 0 < point)
    (made : (point : Int) = (Nat.toDigits 10 number.digits).length + number.exponent)
    (negative : number.exponent < 0) :
    Unsigned ((Nat.toDigits 10 number.digits).take point ++
      '.' :: (Nat.toDigits 10 number.digits).drop point) number.worth := by
  have each := isDigit_toDigits number.digits
  have within : point < (Nat.toDigits 10 number.digits).length := by omega
  refine .of_parts ((Nat.toDigits 10 number.digits).take point)
    ((Nat.toDigits 10 number.digits).drop point) ⟨?_, ?_, ?_⟩ ?_ .none ?_ ?_
  · exact fun char member => each char (List.mem_of_mem_take member)
  · exact fun empty => by simp [positive.ne', Nat.toDigits_ne_nil] at empty
  · intro zero
    rw [List.head?_take, if_neg positive.ne'] at zero
    exact absurd zero (head?_toDigits nonzero)
  · exact fun char member => each char (List.mem_of_mem_drop member)
  · have behind : (Nat.toDigits 10 number.digits).drop point ≠ [] := fun empty => by
      have all := List.drop_eq_nil_iff.mp empty
      omega
    rw [pointed_of_ne_nil behind, List.append_nil]
  · rw [List.take_append_drop, Nat.ofDigitChars_ten_toDigits, Digits.worth, List.length_drop]
    congr 2
    omega

/-- Zeros before the digits make up for an exponent beyond them. The zero in front of the point
is the only one there, and so it is not needless. -/
theorem unsigned_leading {zeros : Nat}
    (made : -(zeros : Int) = (Nat.toDigits 10 number.digits).length + number.exponent) :
    Unsigned ('0' :: '.' :: List.replicate zeros '0' ++ Nat.toDigits 10 number.digits)
      number.worth := by
  refine .of_parts ['0'] (List.replicate zeros '0' ++ Nat.toDigits 10 number.digits) ?_ ?_ .none
    ?_ ?_
  · exact ⟨List.forall_mem_singleton.mpr rfl, nofun, fun _ => rfl⟩
  · exact fun char member => (List.mem_append.mp member).elim (isDigit_zeros zeros char)
      (isDigit_toDigits number.digits char)
  · rw [pointed_of_ne_nil (List.append_ne_nil_of_right_ne_nil _ Nat.toDigits_ne_nil),
      List.append_nil]
    rfl
  · have zero : Nat.ofDigitChars 10 ['0'] 0 = 0 := rfl
    rw [Nat.ofDigitChars_append, zero, Nat.ofDigitChars_append, Nat.ofDigitChars_replicate_zero,
      Nat.mul_zero, Nat.ofDigitChars_ten_toDigits, Digits.worth, List.length_append,
      List.length_replicate]
    congr 2
    push_cast
    omega

/-- An exponent makes up for the point behind the first digit. If there is only one digit, then
there is no point. -/
theorem unsigned_exponent {first : Char} {rest : List Char}
    (digits : Nat.toDigits 10 number.digits = first :: rest) :
    Unsigned (first :: pointed rest ++ 'e' :: (toString (rest.length + number.exponent)).toList)
      number.worth := by
  have each := isDigit_toDigits number.digits
  rw [digits] at each
  refine .of_parts [first] rest ⟨?_, nofun, ?_⟩ ?_ (isExponent_toString _) rfl ?_
  · exact List.forall_mem_singleton.mpr (each first List.mem_cons_self)
  · rintro ⟨⟩
    rfl
  · exact fun char member => each char (List.mem_cons_of_mem _ member)
  · have row : [first] ++ rest = Nat.toDigits 10 number.digits := digits.symm
    rw [row, Nat.ofDigitChars_ten_toDigits, Digits.worth, add_sub_cancel_left]

/-- Digits times a power of ten are laid out as a numeral for them, whatever the places at which
the layout changes. These places are of no account, because each of the four layouts is right for
the numbers it is tried on. -/
theorem unsigned_render (format : FloatFormat) (nonzero : number.digits ≠ 0) :
    Unsigned (format.render number).toList number.worth := by
  simp only [FloatFormat.render, toList_toString]
  split
  · next zeros =>
    rw [String.toList_ofList]
    exact unsigned_zeros nonzero zeros.1
  split
  · next other among =>
    rw [String.toList_ofList]
    exact unsigned_point nonzero (by omega) (by omega) (by omega)
  split
  · next leading =>
    rw [String.toList_ofList]
    exact unsigned_leading (by omega)
  · obtain ⟨first, rest, digits⟩ := List.exists_cons_of_ne_nil
      (Nat.toDigits_ne_nil (b := 10) (n := number.digits))
    have shifted := unsigned_exponent digits
    have point : ((first :: rest).length + number.exponent - 1 : Int) =
        rest.length + number.exponent := by
      rw [List.length_cons]
      omega
    rw [String.toList_append, String.toList_ofList, List.append_assoc, digits, point]
    cases rest with
    | nil => exact shifted
    | cons second rest => exact shifted

end Layouts

section Floats

variable {format : FloatFormat} {bits : Nat} {text : String}

/-- Digits are shown as a numeral for them, zero included. -/
theorem unsigned_digits (format : FloatFormat) (number : Digits) :
    Unsigned (if number.digits = 0 then "0.0" else format.render number).toList number.worth := by
  split
  · next zero =>
    have one : IsWhole ['0'] := ⟨List.forall_mem_singleton.mpr rfl, nofun, fun _ => rfl⟩
    refine .of_parts ['0'] ['0'] one one.digits .none rfl ?_
    have value : Nat.ofDigitChars 10 (['0'] ++ ['0']) 0 = 0 := rfl
    rw [Digits.worth, zero, value, Nat.cast_zero, zero_mul, zero_mul]
  · next nonzero => exact unsigned_render format nonzero

/-- A floating point number is shown as a numeral for its digits, behind its sign. -/
theorem numeral_text? (shown : format.text? bits = some text) :
    Numeral text.toList (if format.layout.isNegative bits then
      -(Decimal.shortest format.layout bits).worth
    else (Decimal.shortest format.layout bits).worth) := by
  have digits := unsigned_digits format (Decimal.shortest format.layout bits)
  simp only [FloatFormat.text?] at shown
  split at shown
  · obtain rfl := Option.some.inj shown
    split
    · rw [String.toList_append]
      exact .minus digits
    · rw [String.empty_append]
      exact .plain digits
  · cases shown

/-- What a floating point number is shown as reads back as it: the numeral stands, behind the
sign, for a number in the interval around it. Zero is left out, which is shown as itself.

Proof: The digits of the number lie in its interval, and the layout does not change what they
stand for. -/
theorem reads_back (small : format.layout.fractionBits ≤ 52)
    (narrow : format.layout.exponentBits ≤ 11) (nonzero : format.layout.significand bits ≠ 0)
    (shown : format.text? bits = some text) :
    ∃ number : ℚ, (format.layout.interval bits).Holds number ∧
      Numeral text.toList (if format.layout.isNegative bits then -number else number) := by
  have finite : format.layout.isFinite bits = true := by
    by_contra other
    rw [FloatFormat.text?, if_neg other] at shown
    cases shown
  have shortest := Decimal.Layout.shortest_spec small narrow finite nonzero
  have within := (Decimal.Interval.contains_iff (Decimal.Layout.proper_interval nonzero) _ _).mp
    shortest.within
  exact ⟨_, within, numeral_text? shown⟩

end Floats

end Amqp.Json
