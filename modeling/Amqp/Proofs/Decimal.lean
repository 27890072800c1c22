import Amqp.Proofs.Decimal.Interval
import Mathlib.Tactic.LinearCombination

/-!
# The digits of a number are the fewest that read back

A decimal number reads back as some bits if it lies in the interval around their number. The ends
of the interval are halfway to the neighbouring numbers, and an end that two intervals share belongs
to the one with the even bits, so that every decimal number between two finite numbers reads back
as exactly one of them.

The digits that are shown lie in the interval, no number in it has fewer digits, and none with as
few is nearer. The search goes from coarse grids to fine ones, and two facts about a grid carry the
proof. A grid with any point in the interval has a neighbour of the number there, because the
interval has no gaps. And if the grid of the leading digit has none, then everything in the interval
has the leading digit of the number: the power of ten itself would be a point of that grid. So
what is found on a finer grid has as many digits as there are grids down to it, and anything with
fewer digits would have been found before.

The search is bounded, and the bounds are shown to be enough for every finite number of the layouts
in use: the leading digit is found among seven hundred grids, and the digits among twenty.
-/

namespace Amqp.Decimal

section Lengths

/-- A number has at most so many digits if it is below that power of ten. -/
theorem length_toString_le_iff {number count : Nat} (positive : 0 < count) :
    (toString number).length ≤ count ↔ number < 10 ^ count := by
  rw [Nat.toString_eq_ofList_toDigits, String.length_ofList]
  exact Nat.length_toDigits_le_iff (by decide) positive

/-- Every number has a digit. -/
theorem length_toString_pos (number : Nat) : 0 < (toString number).length := by
  rw [Nat.toString_eq_ofList_toDigits, String.length_ofList]
  exact Nat.length_toDigits_pos

end Lengths

/-- The decimal number that a reader of an interval wants: it lies in the interval, none in the
interval has fewer digits, none that has as few is nearer, and its last digit is no zero. -/
structure Shortest (interval : Interval) (number : Digits) : Prop where
  within : interval.contains number.digits number.exponent = true
  fewest {point : Nat} {exponent : Int} (inside : interval.contains point exponent = true) :
    (toString number.digits).length ≤ (toString point).length
  nearest {point : Nat} {exponent : Int} (inside : interval.contains point exponent = true)
    (short : (toString point).length ≤ (toString number.digits).length) :
    |interval.amount - number.worth| ≤ |interval.amount - point * 10 ^ exponent|
  trimmed : number.digits % 10 ≠ 0

/-- The point at which the search ended, on the first grid with a neighbour from that of the
leading digit on. -/
structure Found (interval : Interval) (lead : Int) (point : Nat) (exponent : Int) : Prop where
  leads : 10 ^ lead ≤ interval.amount
  ends : interval.amount < 10 ^ (lead + 1)
  most : exponent ≤ lead
  here : interval.neighbour? exponent = some point
  before {coarser : Int} (past : exponent < coarser) (upto : coarser ≤ lead) :
    interval.neighbour? coarser = none

namespace Found

variable {interval : Interval} {lead exponent : Int} {point : Nat}

/-- A point of one grid is a point of every finer grid. -/
theorem regrid {coarse fine : Int} (finer : fine ≤ coarse) (other : Nat) :
    (other : ℚ) * 10 ^ coarse = (other * 10 ^ (coarse - fine).toNat : ℕ) * 10 ^ fine := by
  have power : (10 : ℚ) ^ coarse = 10 ^ (coarse - fine).toNat * 10 ^ fine := by
    rw [← zpow_natCast, ← zpow_add₀ (by norm_num)]
    congr 1
    omega
  rw [power]
  push_cast
  ring

/-- Where the search went on behind the leading digit, no coarser grid has a point in the
interval. -/
theorem exponent_le (found : Found interval lead point exponent) (proper : interval.Proper)
    (further : exponent < lead) {other : Nat} {exponent' : Int}
    (inside : interval.Holds (other * 10 ^ exponent')) : exponent' ≤ exponent := by
  by_contra! past
  rw [regrid (min_le_left exponent' lead)] at inside
  exact Interval.not_holds_of_neighbour? proper
    (found.before (lt_min past further) (min_le_right _ _)) _ inside

/-- Where the search went on behind the leading digit, nothing in the interval has a leading digit
further behind: the power of ten itself would lie between it and the number. -/
theorem leads_le (found : Found interval lead point exponent) (proper : interval.Proper)
    (further : exponent < lead) {number : ℚ} (inside : interval.Holds number) :
    10 ^ lead ≤ number := by
  by_contra! less
  have power := inside.between (Interval.holds_amount proper) less.le found.leads
  refine Interval.not_holds_of_neighbour? proper (found.before further (Int.le_refl _)) 1 ?_
  rwa [Nat.cast_one, one_mul]

/-- The point that was found has as many digits as there are grids from that of the leading digit
on, and is the power of ten above them at most. It can be that power only as the point above the
number. -/
theorem point_le (found : Found interval lead point exponent) (proper : interval.Proper) :
    point ≤ 10 ^ ((lead - exponent).toNat + 1) := by
  obtain ⟨-, -, near, -⟩ := Interval.neighbour?_spec proper found.here
  have least := (Interval.floor_spec proper exponent).1
  have most := found.most
  have power : (10 : ℚ) ^ (lead + 1) = 10 ^ ((lead - exponent).toNat + 1) * 10 ^ exponent := by
    rw [← zpow_natCast, ← zpow_add₀ (by norm_num)]
    congr 1
    push_cast
    omega
  have unit : (0 : ℚ) < 10 ^ exponent := by positivity
  have floor := lt_of_mul_lt_mul_right ((least.trans_lt found.ends).trans_eq power) unit.le
  have floor' : interval.floor exponent < 10 ^ ((lead - exponent).toNat + 1) := by
    exact_mod_cast floor
  omega

/-- Where the search went on behind the leading digit, a point in the interval has as many digits
as there are grids from that of the leading digit to its own. It lies above the power of ten at
the leading digit, since the power itself is not in the interval. -/
theorem lt_length (found : Found interval lead point exponent) (proper : interval.Proper)
    (further : exponent < lead) {other : Nat} {exponent' : Int}
    (inside : interval.Holds (other * 10 ^ exponent')) :
    lead - exponent' < (toString other).length := by
  have finer := found.exponent_le proper further inside
  have leads := found.leads_le proper further inside
  have power : (10 : ℚ) ^ lead = 10 ^ (lead - exponent').toNat * 10 ^ exponent' := by
    rw [← zpow_natCast, ← zpow_add₀ (by norm_num)]
    congr 1
    omega
  have unit : (0 : ℚ) < 10 ^ exponent' := by positivity
  rw [power] at leads
  have least : 10 ^ (lead - exponent').toNat ≤ other := by
    exact_mod_cast le_of_mul_le_mul_right leads unit
  by_contra! short
  have few : (toString other).length ≤ (lead - exponent').toNat := by omega
  rw [length_toString_le_iff (by omega)] at few
  omega

/-- On the grid of the leading digit itself, a number of one digit on a finer grid is not nearer
than the point that was found: the last point before the number is between the two. -/
theorem le_of_finer (found : Found interval lead point lead) (proper : interval.Proper)
    {other : Nat} {exponent' : Int} (finer : exponent' < lead) (short : other < 10)
    (inside : interval.Holds (other * 10 ^ exponent')) :
    |interval.amount - point * 10 ^ lead| ≤ |interval.amount - other * 10 ^ exponent'| := by
  obtain ⟨-, -, -, near⟩ := Interval.neighbour?_spec proper found.here
  obtain ⟨least, past⟩ := Interval.floor_spec proper lead
  have unit : (0 : ℚ) < 10 ^ lead := by positivity
  have less : (other : ℚ) * 10 ^ exponent' ≤ 10 ^ lead := by
    calc (other : ℚ) * 10 ^ exponent'
        ≤ 10 * 10 ^ exponent' :=
          mul_le_mul_of_nonneg_right (by exact_mod_cast short.le) (by positivity)
      _ = 10 ^ (exponent' + 1) := by rw [zpow_add_one₀ (by norm_num), mul_comm]
      _ ≤ 10 ^ lead := zpow_le_zpow_right₀ (by norm_num) finer
  have one : 1 ≤ interval.floor lead := by
    by_contra! less
    rw [Nat.lt_one_iff.mp less, Nat.cast_zero, zero_add, one_mul] at past
    exact absurd found.leads (not_le.mpr past)
  have lower : (other : ℚ) * 10 ^ exponent' ≤ interval.floor lead * 10 ^ lead :=
    less.trans (le_mul_of_one_le_left unit.le (by exact_mod_cast one))
  exact (near _ (inside.between (Interval.holds_amount proper) lower least)).trans
    (Interval.abs_sub_le_of_below lower least)

/-- What was found is what is wanted, without the zeros at its end. The point has the fewest
digits because a coarser grid has no point in the interval. With one digit there may be points on
finer grids that have as few, and none of these is nearer. -/
theorem shortest (found : Found interval lead point exponent) (proper : interval.Proper)
    {tries : Nat} (enough : point < 10 ^ tries) :
    Shortest interval (Digits.trim tries ⟨point, exponent⟩) := by
  obtain ⟨inside, -, -, near⟩ := Interval.neighbour?_spec proper found.here
  have worth : (Digits.trim tries ⟨point, exponent⟩).worth = point * 10 ^ exponent :=
    Digits.worth_trim tries _
  have nonzero : point ≠ 0 := by
    rintro rfl
    have positive := inside.pos proper
    rw [Nat.cast_zero, zero_mul] at positive
    exact lt_irrefl 0 positive
  have trimmed : (Digits.trim tries ⟨point, exponent⟩).digits % 10 ≠ 0 :=
    Digits.trim_mod_ne_zero nonzero enough
  have below := (Digits.digits_trim_le tries ⟨point, exponent⟩).trans (found.point_le proper)
  have most := found.most
  have length : (toString (Digits.trim tries ⟨point, exponent⟩).digits).length ≤
      (lead - exponent).toNat + 1 := by
    refine (length_toString_le_iff (Nat.succ_pos _)).mpr (lt_of_le_of_ne below fun full => ?_)
    rw [full, Nat.pow_succ, Nat.mul_mod_left] at trimmed
    exact trimmed rfl
  refine ⟨?_, fun {other} {exponent'} there => ?_, fun {other} {exponent'} there short => ?_,
    trimmed⟩
  · rw [Interval.contains_iff proper]
    change interval.Holds (Digits.worth _)
    rwa [worth]
  · rcases Int.lt_or_eq_of_le most with further | rfl
    · have digits := found.lt_length proper further ((Interval.contains_iff proper _ _).mp there)
      have coarser := found.exponent_le proper further ((Interval.contains_iff proper _ _).mp there)
      omega
    · have one := length_toString_pos other
      omega
  · rw [Interval.contains_iff proper] at there
    rw [worth]
    rcases Int.lt_or_eq_of_le most with further | rfl
    · have digits := found.lt_length proper further there
      have coarser := found.exponent_le proper further there
      obtain rfl : exponent' = exponent := by omega
      exact near other there
    · have one : (toString other).length ≤ 1 := by omega
      rw [length_toString_le_iff Nat.one_pos] at one
      rcases lt_or_ge exponent' exponent with finer | coarser
      · exact found.le_of_finer proper finer one there
      · rw [regrid coarser] at there ⊢
        exact near _ there

end Found

namespace Layout

variable {layout : Layout} {bits : Nat}

/-- The significand of some bits, with the bit that is not stored. -/
def significand (layout : Layout) (bits : Nat) : Nat :=
  if layout.exponentField bits = 0 then layout.fractionField bits
  else layout.fractionField bits + 2 ^ layout.fractionBits

/-- The power of two that the last place of some bits is counted in. -/
def shift (layout : Layout) (bits : Nat) : Nat := max (layout.exponentField bits) 1

/-- The power of two of a quarter of the first place that there is. -/
def places (layout : Layout) : Nat := layout.fractionBits + 2 ^ (layout.exponentBits - 1) + 1

/-- A quarter of the last place of the number of some bits. -/
def quarter (layout : Layout) (bits : Nat) : ℚ := 2 ^ ((layout.shift bits : Int) - layout.places)

/-- How many quarters the lower end of an interval is below its number. -/
def below (layout : Layout) (bits : Nat) : Nat :=
  if layout.fractionField bits = 0 ∧ 1 < layout.exponentField bits then 1 else 2

/-- Quarters over the denominator of an interval. -/
theorem quarters_eq (count : Nat) :
    ((count * 2 ^ (layout.shift bits - layout.places) : ℕ) : ℚ) /
      (layout.interval bits).denominator = count * layout.quarter bits := by
  have denominator : (layout.interval bits).denominator =
      2 ^ (layout.places - layout.shift bits) := rfl
  have power : layout.quarter bits = 2 ^ (layout.shift bits - layout.places) /
      2 ^ (layout.places - layout.shift bits) := by
    unfold quarter
    rcases Nat.le_total (layout.shift bits) (layout.places) with less | more
    · rw [Nat.sub_eq_zero_of_le less, pow_zero, ← neg_sub, zpow_neg, ← Nat.cast_sub less,
        zpow_natCast, one_div]
    · rw [Nat.sub_eq_zero_of_le more, pow_zero, ← Nat.cast_sub more, zpow_natCast, div_one]
  rw [denominator, power]
  push_cast
  rw [mul_div_assoc]

/-- The number of some bits is four quarters for each of its places. -/
theorem amount_interval : (layout.interval bits).amount =
    (4 * layout.significand bits : ℕ) * layout.quarter bits := quarters_eq _

/-- The lower end of an interval in quarters of the last place. -/
theorem lowest_interval : (layout.interval bits).lowest =
    (4 * layout.significand bits - layout.below bits : ℕ) * layout.quarter bits := quarters_eq _

/-- The upper end of an interval in quarters of the last place. -/
theorem highest_interval : (layout.interval bits).highest =
    (4 * layout.significand bits + 2 : ℕ) * layout.quarter bits := quarters_eq _

/-- The lower end is one or two quarters below. -/
theorem below_cases (layout : Layout) (bits : Nat) :
    layout.below bits = 1 ∨ layout.below bits = 2 := by
  unfold below
  split
  · exact .inl rfl
  · exact .inr rfl

/-- A significand has a bit more than are stored. -/
theorem significand_lt (layout : Layout) (bits : Nat) :
    layout.significand bits < 2 ^ (layout.fractionBits + 1) := by
  have fraction : layout.fractionField bits < 2 ^ layout.fractionBits :=
    Nat.mod_lt _ (Nat.two_pow_pos _)
  rw [Nat.pow_succ]
  unfold significand
  split <;> omega

/-- The number of some bits lies properly between the ends of its interval, unless it is zero.
The lower end is positive even for the smallest number, from which it is half a place away. -/
theorem proper_interval (nonzero : layout.significand bits ≠ 0) :
    (layout.interval bits).Proper := by
  have scale : 0 < 2 ^ (layout.shift bits - layout.places) := Nat.two_pow_pos _
  have low := layout.below_cases bits
  refine ⟨Nat.two_pow_pos _, Nat.mul_pos ?_ scale, Nat.mul_lt_mul_of_pos_right ?_ scale,
    Nat.mul_lt_mul_of_pos_right ?_ scale⟩
  · change 0 < 4 * layout.significand bits - layout.below bits
    omega
  · change 4 * layout.significand bits - layout.below bits < 4 * layout.significand bits
    omega
  · omega

section Neighbours

/-- The next bits have the next fraction, or none behind the last and then the next exponent.
Bits are counted without their sign. -/
theorem succ_fields (inside : bits + 1 < 2 ^ (layout.fractionBits + layout.exponentBits)) :
    layout.fractionField (bits + 1) = layout.fractionField bits + 1 ∧
        layout.exponentField (bits + 1) = layout.exponentField bits ∨
      layout.fractionField bits + 1 = 2 ^ layout.fractionBits ∧
        layout.fractionField (bits + 1) = 0 ∧
        layout.exponentField (bits + 1) = layout.exponentField bits + 1 := by
  have positive : 0 < 2 ^ layout.fractionBits := Nat.two_pow_pos _
  have field (other : Nat) (within : other < 2 ^ (layout.fractionBits + layout.exponentBits)) :
      layout.exponentField other = other / 2 ^ layout.fractionBits :=
    Nat.mod_eq_of_lt (Nat.div_lt_of_lt_mul (Nat.pow_add .. ▸ within))
  rw [field bits (Nat.lt_of_succ_lt inside), field (bits + 1) inside, fractionField, fractionField]
  generalize 2 ^ layout.fractionBits = width at positive
  have parts := Nat.div_add_mod bits width
  have fraction : bits % width < width := Nat.mod_lt _ positive
  rcases Nat.lt_or_ge (bits % width + 1) width with more | last
  · have next : bits + 1 = width * (bits / width) + (bits % width + 1) := by omega
    refine .inl ⟨?_, ?_⟩
    · rw [next, Nat.mul_add_mod, Nat.mod_eq_of_lt more]
    · rw [next, Nat.mul_add_div positive, Nat.div_eq_of_lt more, Nat.add_zero]
  · have full : bits % width + 1 = width := by omega
    have next : bits + 1 = width * (bits / width + 1) := by
      rw [Nat.mul_succ]
      omega
    refine .inr ⟨full, ?_, ?_⟩
    · rw [next, Nat.mul_mod_right]
    · rw [next, Nat.mul_div_cancel_left _ positive]

/-- The next number is one place further, or as many places of twice the width as the number
would be with one place more. The places change behind the last fraction, but not where the
exponent becomes one, since the exponents zero and one have the same places. -/
theorem succ_places (inside : bits + 1 < 2 ^ (layout.fractionBits + layout.exponentBits)) :
    layout.quarter (bits + 1) = layout.quarter bits ∧
        layout.significand (bits + 1) = layout.significand bits + 1 ∧
        layout.below (bits + 1) = 2 ∨
      layout.quarter (bits + 1) = 2 * layout.quarter bits ∧
        layout.significand bits + 1 = 2 * layout.significand (bits + 1) ∧
        layout.below (bits + 1) = 1 := by
  unfold quarter shift significand below
  rcases succ_fields inside with ⟨fraction, field⟩ | ⟨last, fraction, field⟩
  · rw [fraction, field]
    refine .inl ⟨rfl, ?_, if_neg (by omega)⟩
    split <;> omega
  · rw [fraction, field]
    by_cases zero : layout.exponentField bits = 0
    · rw [zero]
      exact .inl ⟨rfl, by simp only [if_true, if_neg Nat.one_ne_zero]; omega, if_neg (by omega)⟩
    · rw [if_neg (Nat.succ_ne_zero _), if_neg zero, if_pos (by omega)]
      have wider :
          max (layout.exponentField bits + 1) 1 = max (layout.exponentField bits) 1 + 1 := by omega
      refine .inr ⟨?_, by omega, rfl⟩
      rw [wider, Nat.cast_add_one, add_sub_right_comm, zpow_add_one₀ (by norm_num), mul_comm]

/-- The intervals of neighbouring numbers meet halfway between them. Where the places become
wider, the lower end is only one quarter of a place below, which is what makes the two ends the
same. -/
theorem ends_meet (inside : bits + 1 < 2 ^ (layout.fractionBits + layout.exponentBits)) :
    (layout.interval bits).highest = (layout.interval (bits + 1)).lowest ∧
      2 * (layout.interval bits).highest =
        (layout.interval bits).amount + (layout.interval (bits + 1)).amount := by
  rw [highest_interval, lowest_interval, amount_interval, amount_interval]
  rcases succ_places inside with ⟨same, next, two⟩ | ⟨twice, next, one⟩
  · rw [same, next, two, show 4 * (layout.significand bits + 1) - 2 =
      4 * layout.significand bits + 2 by omega]
    push_cast
    exact ⟨rfl, by ring⟩
  · have places : (layout.significand bits : ℚ) + 1 = 2 * layout.significand (bits + 1) := by
      exact_mod_cast next
    rw [twice, one, Nat.cast_sub (by omega)]
    push_cast
    constructor <;> linear_combination (4 * layout.quarter bits) * places

/-- Of two intervals that meet the one of the even bits has the end. -/
theorem closed_interval_iff (nonzero : layout.fractionBits ≠ 0) (bits : Nat) :
    (layout.interval bits).closed = true ↔ bits % 2 = 0 := by
  have closed : (layout.interval bits).closed = decide (layout.significand bits % 2 = 0) := rfl
  have even : 2 ∣ 2 ^ layout.fractionBits := dvd_pow_self 2 nonzero
  have fraction : layout.fractionField bits % 2 = bits % 2 := Nat.mod_mod_of_dvd bits even
  rw [closed, decide_eq_true_iff, ← fraction, significand]
  split
  · exact Iff.rfl
  · omega

/-- A number is below the upper end of its interval. -/
theorem amount_lt_highest : (layout.interval bits).amount < (layout.interval bits).highest := by
  have unit : 0 < layout.quarter bits := by unfold quarter; positivity
  rw [amount_interval, highest_interval]
  exact mul_lt_mul_of_pos_right (by exact_mod_cast Nat.lt_add_of_pos_right Nat.two_pos) unit

/-- A number is not below the lower end of its interval. -/
theorem lowest_le_amount : (layout.interval bits).lowest ≤ (layout.interval bits).amount := by
  have unit : 0 < layout.quarter bits := by unfold quarter; positivity
  rw [amount_interval, lowest_interval]
  exact mul_le_mul_of_nonneg_right (by exact_mod_cast Nat.sub_le _ _) unit.le

/-- Between a number and the next, every decimal number lies in exactly one of their intervals. So
what is shown for one of them is never read back as the other, also where it is as near to both. -/
theorem holds_iff_not_holds_succ (nonzero : layout.fractionBits ≠ 0)
    (inside : bits + 1 < 2 ^ (layout.fractionBits + layout.exponentBits)) {number : ℚ}
    (above : (layout.interval bits).amount ≤ number)
    (below : number ≤ (layout.interval (bits + 1)).amount) :
    (layout.interval bits).Holds number ↔ ¬ (layout.interval (bits + 1)).Holds number := by
  have meet := (ends_meet inside).1
  have past := below.trans_lt amount_lt_highest
  have even := closed_interval_iff nonzero bits
  have even' := closed_interval_iff nonzero (bits + 1)
  unfold Interval.Holds
  rw [← meet]
  by_cases parity : bits % 2 = 0
  · have opened : ¬ (layout.interval (bits + 1)).closed = true := by rw [even']; omega
    rw [if_pos (even.mpr parity), if_neg opened, not_and_or, not_lt, not_lt]
    exact ⟨fun both => .inl both.2, fun either => ⟨lowest_le_amount.trans above,
      either.elim id fun beyond => absurd past (not_lt.mpr beyond)⟩⟩
  · have opened : ¬ (layout.interval bits).closed = true := by rwa [even]
    have odd : layout.significand bits ≠ 0 := fun zero =>
      opened (decide_eq_true (by rw [zero] : layout.significand bits % 2 = 0))
    rw [if_neg opened, if_pos (even'.mpr (by omega)), not_and_or, not_le, not_le]
    exact ⟨fun both => .inl both.2, fun either => ⟨(proper_interval odd).lowest_lt.trans_le above,
      either.elim id fun beyond => absurd past (not_lt.mpr beyond.le)⟩⟩

end Neighbours

section Range

variable (small : layout.fractionBits ≤ 52) (narrow : layout.exponentBits ≤ 11)

include small in
/-- The lower end is not so near to the number that eighteen digits miss what is between. -/
theorem amount_le (nonzero : layout.significand bits ≠ 0) : (layout.interval bits).amount ≤
    10 ^ 18 * ((layout.interval bits).amount - (layout.interval bits).lowest) := by
  have unit : 0 < layout.quarter bits := by unfold quarter; positivity
  have low := layout.below_cases bits
  have most : layout.significand bits < 2 ^ 53 :=
    (layout.significand_lt bits).trans_le (Nat.pow_le_pow_right (by decide) (by omega))
  have apart : (layout.interval bits).amount - (layout.interval bits).lowest =
      layout.below bits * layout.quarter bits := by
    rw [amount_interval, lowest_interval, Nat.cast_sub (by omega)]
    ring
  rw [apart, amount_interval, ← mul_assoc]
  refine mul_le_mul_of_nonneg_right ?_ unit.le
  have whole : 4 * layout.significand bits ≤ 10 ^ 18 * layout.below bits := by omega
  exact_mod_cast whole

include small narrow in
/-- No number but zero is smaller than the digits that are tried. The bound is rough: three bits
are less than a decimal digit. -/
theorem le_amount (nonzero : layout.significand bits ≠ 0) :
    10 ^ (310 - (700 : ℕ) : Int) ≤ (layout.interval bits).amount := by
  have steps : 2 ^ (layout.exponentBits - 1) ≤ 2 ^ 10 :=
    Nat.pow_le_pow_right (by decide) (by omega)
  have first : 1 ≤ layout.shift bits := le_max_right _ _
  have last : layout.places ≤ 1077 := by
    unfold places
    omega
  have unit : (2 : ℚ) ^ (-(3 * 390 : ℕ) : Int) ≤ layout.quarter bits :=
    zpow_le_zpow_right₀ (by norm_num) (by omega)
  have four : (1 : ℚ) ≤ (4 * layout.significand bits : ℕ) := by
    exact_mod_cast (by omega : 1 ≤ 4 * layout.significand bits)
  calc (10 : ℚ) ^ (310 - (700 : ℕ) : Int)
      = (10 ^ 390)⁻¹ := rfl
    _ ≤ ((2 ^ 3) ^ 390)⁻¹ :=
      inv_anti₀ (by positivity) (pow_le_pow_left₀ (by norm_num) (by norm_num) 390)
    _ = 2 ^ (-(3 * 390 : ℕ) : Int) := by rw [← pow_mul, zpow_neg, zpow_natCast]
    _ ≤ layout.quarter bits := unit
    _ ≤ (layout.interval bits).amount :=
      amount_interval ▸ le_mul_of_one_le_left ((by positivity : (0 : ℚ) ≤ _).trans unit) four

include narrow in
/-- No finite number is larger than the digits that are tried. The largest exponent is that of no
number, so it does not count here. -/
theorem amount_lt (finite : layout.isFinite bits = true) :
    (layout.interval bits).amount < 10 ^ (310 + 1 : Int) := by
  have field : layout.exponentField bits < 2 ^ layout.exponentBits - 1 := of_decide_eq_true finite
  have positive : layout.exponentBits ≠ 0 := by
    intro zero
    rw [zero] at field
    omega
  have steps : 2 ^ (layout.exponentBits - 1) ≤ 2 ^ 10 :=
    Nat.pow_le_pow_right (by decide) (by omega)
  have twice : 2 ^ layout.exponentBits = 2 * 2 ^ (layout.exponentBits - 1) := by
    rw [← Nat.pow_succ', Nat.succ_eq_add_one,
      Nat.sub_add_cancel (Nat.one_le_iff_ne_zero.mpr positive)]
  have most : layout.fractionBits + 3 + layout.shift bits ≤ layout.places + 1024 := by
    unfold shift places
    omega
  have unit : 0 < layout.quarter bits := by unfold quarter; positivity
  have count : 4 * layout.significand bits < 2 ^ (layout.fractionBits + 3) := by
    have bound := layout.significand_lt bits
    rw [Nat.pow_succ] at bound
    rw [Nat.pow_add]
    omega
  rw [amount_interval]
  calc ((4 * layout.significand bits : ℕ) : ℚ) * layout.quarter bits
      < 2 ^ (layout.fractionBits + 3) * layout.quarter bits :=
        mul_lt_mul_of_pos_right (by exact_mod_cast count) unit
    _ = 2 ^ (((layout.fractionBits + 3 : ℕ) : Int) +
          ((layout.shift bits : Int) - layout.places)) := by
        rw [quarter, zpow_add₀ (by norm_num), zpow_natCast]
    _ ≤ 2 ^ ((93 * 11 + 1 : ℕ) : Int) := zpow_le_zpow_right₀ (by norm_num) (by omega)
    _ = (2 ^ 93) ^ 11 * 2 := by rw [zpow_natCast, pow_succ, pow_mul]
    _ < (10 ^ 28) ^ 11 * 10 ^ 3 := by norm_num
    _ = 10 ^ (310 + 1 : Int) := by
      rw [← pow_mul, ← pow_add]
      rfl

include small narrow in
/-- The digits of every finite number but zero are the wanted ones: they read back, no fewer do,
and none that are as few and read back are nearer.

Proof: The leading digit is among those that are tried, and eighteen grids further on the points
are no further apart than the number is from the lower end. So the search ends on a grid with a
neighbour of the number in the interval, and it passed no such grid. What was found there is what
is wanted. -/
theorem shortest_spec (finite : layout.isFinite bits = true)
    (nonzero : layout.significand bits ≠ 0) :
    Shortest (layout.interval bits) (Decimal.shortest layout bits) := by
  have proper := proper_interval nonzero
  obtain ⟨leads, ends⟩ := Interval.leading_spec proper 700 310 (amount_lt narrow finite)
    (le_amount small narrow nonzero)
  have fine := amount_le small nonzero
  generalize around : layout.interval bits = interval at *
  set lead := interval.leading 700 310 with start
  have first : 10 ^ (lead - 18) ≤ interval.amount - interval.lowest := by
    rw [zpow_sub₀ (by norm_num), div_le_iff₀ (by positivity)]
    exact leads.trans (fine.trans_eq (mul_comm _ _))
  have last : 10 ^ (lead - (19 : ℕ)) ≤ interval.amount - interval.lowest :=
    (zpow_le_zpow_right₀ (by norm_num) (by omega)).trans first
  obtain ⟨point, exponent, ended, most, here, before⟩ := Interval.search_spec proper 19 lead last
  have near : lead - 18 ≤ exponent := by
    by_contra! far
    exact Interval.neighbour?_ne_none proper first (before _ far (by omega))
  have found : Found interval lead point exponent := ⟨leads, ends, most, here, before _⟩
  have enough : point < 10 ^ 20 :=
    (found.point_le proper).trans_lt (Nat.pow_lt_pow_right (by decide) (by omega))
  have made : Decimal.shortest layout bits = Digits.trim 20 ⟨point, exponent⟩ := by
    have valued : interval.value ≠ 0 := (Nat.zero_lt_of_lt proper.low_lt).ne'
    rw [Decimal.shortest, around, if_neg valued]
    exact congrArg (Digits.trim 20) ended
  exact made ▸ found.shortest proper enough

end Range

-- The number nearest to a tenth has one digit, although it is no tenth.
example : Decimal.shortest single 0x3dcccccd = ⟨1, -1⟩ := by decide +kernel

end Layout

end Amqp.Decimal
