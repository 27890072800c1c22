import Amqp.Bytes
import Amqp.Decimal.Shortest
import Mathlib.Algebra.Order.Field.Power
import Mathlib.Data.Rat.Cast.Order
import Mathlib.Tactic.FieldSimp
import Mathlib.Tactic.Linarith
import Mathlib.Tactic.Positivity
import Mathlib.Tactic.Push
import Mathlib.Tactic.Ring

/-!
# Decimal grids and an interval

A grid has the multiples of a power of ten. The number that an interval is around stands between two
neighbouring points of every grid, and what is asked of a grid is whether one of these two lies in
the interval. No other point has to be looked at: the interval has no gaps, so that a point further
away is in it only if the neighbour on its side is.

Everything is stated in rational numbers, and the whole numbers over a common denominator, which
are what is computed with, are related to them once.
-/

namespace Amqp.Decimal

/-- The number that some digits stand for. -/
def Digits.worth (number : Digits) : ℚ := number.digits * 10 ^ number.exponent

namespace Interval

variable {interval : Interval} {point : Nat} {exponent : Int}

/-- The number that an interval is around. -/
def amount (interval : Interval) : ℚ := interval.value / interval.denominator

/-- The lower end of an interval. -/
def lowest (interval : Interval) : ℚ := interval.low / interval.denominator

/-- The upper end of an interval. -/
def highest (interval : Interval) : ℚ := interval.high / interval.denominator

/-- Whether a number lies in an interval. -/
def Holds (interval : Interval) (number : ℚ) : Prop :=
  if interval.closed then interval.lowest ≤ number ∧ number ≤ interval.highest
  else interval.lowest < number ∧ number < interval.highest

/-- An interval whose number lies properly between its ends. -/
structure Proper (interval : Interval) : Prop where
  denominator_pos : 0 < interval.denominator
  low_pos : 0 < interval.low
  low_lt : interval.low < interval.value
  lt_high : interval.value < interval.high

/-- A power of ten as a fraction of two numbers of which one is one. -/
theorem ten_zpow_eq (exponent : Int) :
    (10 : ℚ) ^ exponent = 10 ^ exponent.toNat / 10 ^ (-exponent).toNat := by
  obtain ⟨power, rfl | rfl⟩ := exponent.eq_nat_or_neg
  · simp
  · simp

/-- A grid point lies in an interval as the number that it stands for does. The computation
clears the denominators and never rounds. -/
theorem contains_iff (proper : interval.Proper) (point : Nat) (exponent : Int) :
    interval.contains point exponent = true ↔ interval.Holds (point * 10 ^ exponent) := by
  have positive : (0 : ℚ) < interval.denominator := by exact_mod_cast proper.denominator_pos
  have power : (0 : ℚ) < 10 ^ (-exponent).toNat := by positivity
  have fraction : (point : ℚ) * 10 ^ exponent =
      point * 10 ^ exponent.toNat / 10 ^ (-exponent).toNat := by rw [ten_zpow_eq, mul_div_assoc]
  unfold contains scaled Holds lowest highest
  rw [fraction]
  cases interval.closed with
  | true =>
    simp only [if_true, Bool.and_eq_true, decide_eq_true_eq]
    rw [div_le_div_iff₀ positive power, div_le_div_iff₀ power positive, mul_right_comm]
    norm_cast
  | false =>
    simp only [Bool.false_eq_true, if_false, Bool.and_eq_true, decide_eq_true_eq]
    rw [div_lt_div_iff₀ positive power, div_lt_div_iff₀ power positive, mul_right_comm]
    norm_cast

/-- The largest grid point that is not above the number is the last one that is not. It may be
zero, if the grid is coarser than the number is large. -/
theorem floor_spec (proper : interval.Proper) (exponent : Int) :
    (interval.floor exponent : ℚ) * 10 ^ exponent ≤ interval.amount ∧
      interval.amount < (interval.floor exponent + 1) * 10 ^ exponent := by
  have positive : (0 : ℚ) < interval.denominator := by exact_mod_cast proper.denominator_pos
  have power : (0 : ℚ) < 10 ^ (-exponent).toNat := by positivity
  have grid : 0 < interval.denominator * 10 ^ exponent.toNat :=
    Nat.mul_pos proper.denominator_pos (by positivity)
  rw [ten_zpow_eq, amount, ← mul_div_assoc, ← mul_div_assoc, div_le_div_iff₀ power positive,
    div_lt_div_iff₀ positive power]
  constructor
  · have below := Nat.div_mul_le_self (interval.value * 10 ^ (-exponent).toNat)
      (interval.denominator * 10 ^ exponent.toNat)
    rw [← Nat.mul_assoc, Nat.mul_right_comm] at below
    exact_mod_cast below
  · have above := Nat.lt_mul_of_div_lt (Nat.lt_succ_self (interval.floor exponent)) grid
    rw [← Nat.mul_assoc, Nat.mul_right_comm] at above
    exact_mod_cast above

/-- The number is above the lower end of its interval. -/
theorem Proper.lowest_lt (proper : interval.Proper) : interval.lowest < interval.amount :=
  div_lt_div_of_pos_right (by exact_mod_cast proper.low_lt)
    (by exact_mod_cast proper.denominator_pos)

/-- The number is below the upper end of its interval. -/
theorem Proper.lt_highest (proper : interval.Proper) : interval.amount < interval.highest :=
  div_lt_div_of_pos_right (by exact_mod_cast proper.lt_high)
    (by exact_mod_cast proper.denominator_pos)

/-- The number lies in its interval. -/
theorem holds_amount (proper : interval.Proper) : interval.Holds interval.amount := by
  unfold Holds
  split
  · exact ⟨proper.lowest_lt.le, proper.lt_highest.le⟩
  · exact ⟨proper.lowest_lt, proper.lt_highest⟩

/-- What lies between two numbers of an interval lies in it. -/
theorem Holds.between {low middle high : ℚ} (first : interval.Holds low)
    (last : interval.Holds high) (above : low ≤ middle) (below : middle ≤ high) :
    interval.Holds middle := by
  unfold Holds at *
  split at first
  · next closed =>
    rw [if_pos closed] at last ⊢
    exact ⟨first.1.trans above, below.trans last.2⟩
  · next opened =>
    rw [if_neg opened] at last ⊢
    exact ⟨first.1.trans_le above, below.trans_lt last.2⟩

/-- What is above the lower end and not above the number lies in the interval. -/
theorem holds_of_le_amount {number : ℚ} (proper : interval.Proper)
    (above : interval.lowest < number) (below : number ≤ interval.amount) :
    interval.Holds number := by
  have inside := holds_amount proper
  unfold Holds at *
  split at inside
  · next closed => exact if_pos closed ▸ ⟨above.le, below.trans inside.2⟩
  · next opened => exact if_neg opened ▸ ⟨above, below.trans_lt inside.2⟩

/-- No number of an interval is below its lower end. -/
theorem Holds.lowest_le {number : ℚ} (holds : interval.Holds number) :
    interval.lowest ≤ number := by
  unfold Holds at holds
  split at holds
  · exact holds.1
  · exact holds.1.le

/-- Every number of an interval is positive. -/
theorem Holds.pos {number : ℚ} (proper : interval.Proper) (holds : interval.Holds number) :
    0 < number := by
  have positive : (0 : ℚ) < interval.denominator := by exact_mod_cast proper.denominator_pos
  have low : (0 : ℚ) < interval.low := by exact_mod_cast proper.low_pos
  exact (div_pos low positive).trans_le holds.lowest_le

section Neighbours

/-- A grid point is not above the last one that is not above the number, or not below the next. -/
theorem le_floor_or_le (point floor : Nat) (exponent : Int) :
    (point : ℚ) * 10 ^ exponent ≤ floor * 10 ^ exponent ∨
      ((floor : ℚ) + 1) * 10 ^ exponent ≤ point * 10 ^ exponent := by
  have unit : (0 : ℚ) ≤ 10 ^ exponent := by positivity
  rcases Nat.lt_or_ge floor point with above | below
  · exact .inr (mul_le_mul_of_nonneg_right (by exact_mod_cast above) unit)
  · exact .inl (mul_le_mul_of_nonneg_right (by exact_mod_cast below) unit)

/-- A grid without a neighbour in the interval has no point there at all: a point beyond a
neighbour would have the neighbour between itself and the number. -/
theorem not_holds_of_neighbour? (proper : interval.Proper)
    (absent : interval.neighbour? exponent = none) (point : Nat) :
    ¬ interval.Holds (point * 10 ^ exponent) := by
  intro holds
  obtain ⟨below, above⟩ := floor_spec proper exponent
  have inside := holds_amount proper
  simp only [neighbour?] at absent
  split at absent
  · cases absent
  · cases absent
  · cases absent
  · next first second =>
    rcases le_floor_or_le point (interval.floor exponent) exponent with lower | upper
    · have found := (contains_iff proper _ _).mpr (holds.between inside lower below)
      rw [first] at found
      cases found
    · have found : interval.contains (interval.floor exponent + 1) exponent = true := by
        rw [contains_iff proper]
        push_cast
        exact inside.between holds above.le upper
      rw [second] at found
      cases found

/-- The point above is preferred if the sum of both points is less than twice the number, or just
that and the point below is odd. -/
theorem prefersAbove_iff : interval.prefersAbove point exponent = true ↔
    (interval.scaled point exponent).1 + (interval.scaled (point + 1) exponent).1 <
        2 * interval.value * (interval.scaled point exponent).2 ∨
      (interval.scaled point exponent).1 + (interval.scaled (point + 1) exponent).1 =
        2 * interval.value * (interval.scaled point exponent).2 ∧ point % 2 = 1 := by
  simp only [prefersAbove, Bool.or_eq_true, Bool.and_eq_true, decide_eq_true_eq]

/-- The point above is preferred only where it is as near to the number as the one below, and the
point below only where it is as near as the one above. -/
theorem prefersAbove_spec (proper : interval.Proper) (point : Nat) (exponent : Int) :
    if interval.prefersAbove point exponent then
      (point : ℚ) * 10 ^ exponent + (point + 1) * 10 ^ exponent ≤ 2 * interval.amount
    else 2 * interval.amount ≤ (point : ℚ) * 10 ^ exponent + (point + 1) * 10 ^ exponent := by
  have positive : (0 : ℚ) < interval.denominator := by exact_mod_cast proper.denominator_pos
  have power : (0 : ℚ) < 10 ^ (-exponent).toNat := by positivity
  have sum : (point : ℚ) * 10 ^ exponent + (point + 1) * 10 ^ exponent =
      (point * interval.denominator * 10 ^ exponent.toNat +
        (point + 1) * interval.denominator * 10 ^ exponent.toNat) /
        (interval.denominator * 10 ^ (-exponent).toNat) := by
    rw [ten_zpow_eq]
    field_simp
  have double : 2 * interval.amount = 2 * interval.value * 10 ^ (-exponent).toNat /
      (interval.denominator * 10 ^ (-exponent).toNat) := by
    rw [amount]
    field_simp
  have common : (0 : ℚ) < interval.denominator * 10 ^ (-exponent).toNat := mul_pos positive power
  rw [sum, double]
  split
  · next preferred =>
    refine div_le_div_of_nonneg_right ?_ common.le
    have sums := (prefersAbove_iff.mp preferred).elim Nat.le_of_lt fun both => both.1.le
    exact_mod_cast sums
  · next other =>
    refine div_le_div_of_nonneg_right ?_ common.le
    have sums := Nat.le_of_not_lt fun less => other (prefersAbove_iff.mpr (.inl less))
    exact_mod_cast sums

/-- Below a number, what is higher is nearer. -/
theorem abs_sub_le_of_below {amount low other : ℚ} (lower : other ≤ low) (below : low ≤ amount) :
    |amount - low| ≤ |amount - other| := by
  rw [abs_of_nonneg (sub_nonneg.mpr below), abs_of_nonneg (sub_nonneg.mpr (lower.trans below))]
  exact sub_le_sub_left lower amount

/-- Above a number, what is lower is nearer. -/
theorem abs_sub_le_of_above {amount high other : ℚ} (above : amount ≤ high)
    (higher : high ≤ other) : |amount - high| ≤ |amount - other| := by
  rw [abs_sub_comm, abs_sub_comm amount, abs_of_nonneg (sub_nonneg.mpr above),
    abs_of_nonneg (sub_nonneg.mpr (above.trans higher))]
  exact sub_le_sub_right higher amount

/-- The neighbour of the number on a grid, if it has one in the interval: it is there, it is one
of the two points around the number, and no other point of the grid is in the interval and
nearer. If both points around the number are in the interval, then the nearer one is taken, and
of two equally near ones the one that is even. -/
theorem neighbour?_spec (proper : interval.Proper)
    (found : interval.neighbour? exponent = some point) :
    interval.Holds (point * 10 ^ exponent) ∧ interval.floor exponent ≤ point ∧
      point ≤ interval.floor exponent + 1 ∧ ∀ other : Nat, interval.Holds (other * 10 ^ exponent) →
        |interval.amount - point * 10 ^ exponent| ≤ |interval.amount - other * 10 ^ exponent| := by
  obtain ⟨below, above⟩ := floor_spec proper exponent
  have inside := holds_amount proper
  have around (other : Nat) := le_floor_or_le other (interval.floor exponent) exponent
  have next : (((interval.floor exponent + 1 : Nat) : ℚ)) * 10 ^ exponent =
      (interval.floor exponent + 1) * 10 ^ exponent := by push_cast; rfl
  have first := contains_iff proper (interval.floor exponent) exponent
  have second := contains_iff proper (interval.floor exponent + 1) exponent
  rw [next] at second
  simp only [neighbour?] at found
  split at found
  · next here there =>
    have preferred := prefersAbove_spec proper (interval.floor exponent) exponent
    split at found
    · next prefers =>
      obtain rfl := Option.some.inj found
      rw [if_pos prefers] at preferred
      rw [next]
      refine ⟨second.mp there, Nat.le_succ _, Nat.le_refl _, fun other _ => ?_⟩
      rcases around other with lower | upper
      · refine le_trans ?_ (abs_sub_le_of_below lower below)
        rw [abs_of_nonneg (sub_nonneg.mpr below), abs_of_nonpos (sub_nonpos.mpr above.le)]
        linarith only [preferred]
      · exact abs_sub_le_of_above above.le upper
    · next prefers =>
      obtain rfl := Option.some.inj found
      rw [if_neg prefers] at preferred
      refine ⟨first.mp here, Nat.le_refl _, Nat.le_succ _, fun other _ => ?_⟩
      rcases around other with lower | upper
      · exact abs_sub_le_of_below lower below
      · refine le_trans ?_ (abs_sub_le_of_above above.le upper)
        rw [abs_of_nonneg (sub_nonneg.mpr below), abs_of_nonpos (sub_nonpos.mpr above.le)]
        linarith only [preferred]
  · next here there =>
    obtain rfl := Option.some.inj found
    refine ⟨first.mp here, Nat.le_refl _, Nat.le_succ _, fun other holds => ?_⟩
    rcases around other with lower | upper
    · exact abs_sub_le_of_below lower below
    · rw [second.mpr (inside.between holds above.le upper)] at there
      cases there
  · next here there =>
    obtain rfl := Option.some.inj found
    rw [next]
    refine ⟨second.mp there, Nat.le_succ _, Nat.le_refl _, fun other holds => ?_⟩
    rcases around other with lower | upper
    · rw [first.mpr (holds.between inside lower below)] at here
      cases here
    · exact abs_sub_le_of_above above.le upper
  · cases found

end Neighbours

section Search

/-- The exponent of the leading digit is found if it is among those that are tried. The search
comes from above and stops where the last point before the number is no longer zero. -/
theorem leading_spec (proper : interval.Proper) (tries : Nat) (start : Int)
    (below : interval.amount < 10 ^ (start + 1)) (above : 10 ^ (start - tries) ≤ interval.amount) :
    10 ^ interval.leading tries start ≤ interval.amount ∧
      interval.amount < 10 ^ (interval.leading tries start + 1) := by
  induction tries generalizing start with
  | zero =>
    rw [leading]
    exact ⟨by simpa using above, below⟩
  | succ tries inductionHypothesis =>
    rw [leading]
    obtain ⟨least, past⟩ := floor_spec proper start
    have unit : (0 : ℚ) < 10 ^ start := by positivity
    split
    · next positive =>
      have one : (1 : ℚ) ≤ interval.floor start := by exact_mod_cast positive
      exact ⟨(le_mul_of_one_le_left unit.le one).trans least, below⟩
    · next nothing =>
      have zero : interval.floor start = 0 := by omega
      rw [zero, Nat.cast_zero, zero_add, one_mul] at past
      refine inductionHypothesis (start - 1) (by rwa [sub_add_cancel])
        (le_trans (le_of_eq ?_) above)
      congr 1
      push_cast
      ring

/-- A grid has a neighbour in the interval if its points are no further apart than the number is
from the lower end. -/
theorem neighbour?_ne_none (proper : interval.Proper)
    (fine : 10 ^ exponent ≤ interval.amount - interval.lowest) :
    interval.neighbour? exponent ≠ none := by
  intro absent
  obtain ⟨below, past⟩ := floor_spec proper exponent
  have above : interval.lowest < interval.floor exponent * 10 ^ exponent := by
    rw [add_mul, one_mul] at past
    linarith only [fine, past]
  exact not_holds_of_neighbour? proper absent _ (holds_of_le_amount proper above below)

/-- The search ends at the first grid with a neighbour in the interval, if the points of the last
grid that is tried are no further apart than the number is from the lower end. -/
theorem search_spec (proper : interval.Proper) (tries : Nat) (start : Int)
    (fine : 10 ^ (start - tries) ≤ interval.amount - interval.lowest) :
    ∃ point exponent, interval.search (tries + 1) start = ⟨point, exponent⟩ ∧ exponent ≤ start ∧
      interval.neighbour? exponent = some point ∧
      ∀ coarser, exponent < coarser → coarser ≤ start → interval.neighbour? coarser = none := by
  induction tries generalizing start with
  | zero =>
    cases found : interval.neighbour? start with
    | some point =>
      exact ⟨point, start, by rw [search, found], Int.le_refl _, found, fun _ _ _ => by omega⟩
    | none => exact absurd found (neighbour?_ne_none proper (by simpa using fine))
  | succ tries inductionHypothesis =>
    cases found : interval.neighbour? start with
    | some point =>
      exact ⟨point, start, by rw [search, found], Int.le_refl _, found, fun _ _ _ => by omega⟩
    | none =>
      have finer : start - 1 - tries = start - (tries + 1 : ℕ) := by push_cast; ring
      obtain ⟨point, exponent, ends, most, there, before⟩ :=
        inductionHypothesis (start - 1) (finer ▸ fine)
      refine ⟨point, exponent, by rw [search, found, ends], by omega, there,
        fun coarser past upto => ?_⟩
      rcases Int.lt_or_eq_of_le upto with earlier | rfl
      · exact before coarser past (by omega)
      · exact found

end Search

end Interval

section Trim

/-- Zeros at the end of the digits are no part of the number: the exponent makes up for each of
them. -/
theorem Digits.worth_trim (tries : Nat) (number : Digits) :
    (number.trim tries).worth = number.worth := by
  induction tries generalizing number with
  | zero => rfl
  | succ tries inductionHypothesis =>
    rw [trim]
    split
    · next ends =>
      have exact : number.digits / 10 * 10 = number.digits :=
        Nat.div_mul_cancel (Nat.dvd_of_mod_eq_zero ends.2)
      rw [inductionHypothesis, worth, worth, zpow_add_one₀ (by norm_num)]
      nth_rewrite 2 [← exact]
      push_cast
      ring
    · rfl

/-- Taking zeros from the end leaves no more digits. -/
theorem Digits.digits_trim_le (tries : Nat) (number : Digits) :
    (number.trim tries).digits ≤ number.digits := by
  induction tries generalizing number with
  | zero => exact Nat.le_refl _
  | succ tries inductionHypothesis =>
    rw [trim]
    split
    · exact (inductionHypothesis _).trans (Nat.div_le_self _ _)
    · exact Nat.le_refl _

/-- No zero is left at the end if there are as many tries as digits. Zero itself is left out, as
it has no last digit but zero. -/
theorem Digits.trim_mod_ne_zero {tries : Nat} {number : Digits} (nonzero : number.digits ≠ 0)
    (enough : number.digits < 10 ^ tries) : (number.trim tries).digits % 10 ≠ 0 := by
  induction tries generalizing number with
  | zero => omega
  | succ tries inductionHypothesis =>
    rw [trim]
    split
    · next ends =>
      apply inductionHypothesis
      · dsimp only
        omega
      · exact Nat.div_lt_of_lt_mul (Nat.pow_succ' ▸ enough)
    · next ends => exact fun zero => ends ⟨nonzero, zero⟩

end Trim

end Amqp.Decimal
