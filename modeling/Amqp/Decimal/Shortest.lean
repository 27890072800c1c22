/-!
# The fewest digits that read back

A binary floating point number stands for every real number that rounds to it. Of
those, the ones with the fewest decimal digits are wanted, and of them the nearest.
The search is exact. For one digit, two digits and so on, it looks at the two
neighbours of the number on that decimal grid, and stops at the first grid that has
one of them within the interval. The ends of the interval belong to it when the
significand is even.
-/

-- Powers of numbers are the ones of the core library, whatever else is imported.
attribute [local instance (2000)] instPowNat

namespace Amqp.Decimal

/-- A layout of binary floating point numbers: the bits of the fraction and of the
exponent. -/
structure Layout where
  fractionBits : Nat
  exponentBits : Nat

/-- The 32-bit layout. -/
def single : Layout := ⟨23, 8⟩

/-- The 64-bit layout. -/
def double : Layout := ⟨52, 11⟩

/-- A decimal number: digits times a power of ten. -/
structure Digits where
  digits : Nat
  exponent : Int
  deriving DecidableEq, Repr

/-- A nonnegative binary number with the interval that rounds to it, all over one
denominator. -/
structure Interval where
  low : Nat
  value : Nat
  high : Nat
  denominator : Nat
  closed : Bool

namespace Layout

/-- The exponent field of some bits. -/
def exponentField (layout : Layout) (bits : Nat) : Nat :=
  bits / 2 ^ layout.fractionBits % 2 ^ layout.exponentBits

/-- The fraction field of some bits. -/
def fractionField (layout : Layout) (bits : Nat) : Nat := bits % 2 ^ layout.fractionBits

/-- Whether some bits have the sign. -/
def isNegative (layout : Layout) (bits : Nat) : Bool :=
  bits / 2 ^ (layout.fractionBits + layout.exponentBits) % 2 = 1

/-- Whether some bits are a number, and neither infinite nor a NaN. -/
def isFinite (layout : Layout) (bits : Nat) : Bool :=
  layout.exponentField bits < 2 ^ layout.exponentBits - 1

/-- The number without its sign, in quarters of its last place, with the interval that
rounds to it. Below a power of two the places are half as wide. -/
def interval (layout : Layout) (bits : Nat) : Interval :=
  let field := layout.exponentField bits
  let fraction := layout.fractionField bits
  let significand := if field = 0 then fraction else fraction + 2 ^ layout.fractionBits
  let below := if fraction = 0 ∧ 1 < field then 1 else 2
  let places := layout.fractionBits + 2 ^ (layout.exponentBits - 1) + 1
  let shift := max field 1
  let scale := 2 ^ (shift - places)
  { low := (4 * significand - below) * scale
    value := 4 * significand * scale
    high := (4 * significand + 2) * scale
    denominator := 2 ^ (places - shift)
    closed := significand % 2 = 0 }

end Layout

namespace Interval

/-- A grid point over the denominator of an interval, as a fraction. -/
def scaled (interval : Interval) (point : Nat) (exponent : Int) : Nat × Nat :=
  (point * interval.denominator * 10 ^ exponent.toNat, 10 ^ (-exponent).toNat)

/-- Whether a grid point lies in the interval. -/
def contains (interval : Interval) (point : Nat) (exponent : Int) : Bool :=
  let (numerator, denominator) := interval.scaled point exponent
  if interval.closed then
    interval.low * denominator ≤ numerator && numerator ≤ interval.high * denominator
  else
    interval.low * denominator < numerator && numerator < interval.high * denominator

/-- The largest grid point that is not above the number. -/
def floor (interval : Interval) (exponent : Int) : Nat :=
  interval.value * 10 ^ (-exponent).toNat / (interval.denominator * 10 ^ exponent.toNat)

/-- Whether the grid point above is nearer to the number than a given one below, or as
near and even. -/
def prefersAbove (interval : Interval) (point : Nat) (exponent : Int) : Bool :=
  let (low, denominator) := interval.scaled point exponent
  let (high, _) := interval.scaled (point + 1) exponent
  let twice := 2 * interval.value * denominator
  low + high < twice || low + high = twice && point % 2 = 1

/-- The neighbour of the number on a grid that lies in the interval, the nearer if
both do. -/
def neighbour? (interval : Interval) (exponent : Int) : Option Nat :=
  let point := interval.floor exponent
  match interval.contains point exponent, interval.contains (point + 1) exponent with
  | true, true => some (if interval.prefersAbove point exponent then point + 1 else point)
  | true, false => some point
  | false, true => some (point + 1)
  | false, false => none

/-- The exponent of the leading digit: the largest one not above the start whose grid
has a point between zero and the number. -/
def leading (interval : Interval) : (tries : Nat) → (start : Int) → Int
  | 0, start => start
  | tries + 1, start =>
    if 0 < interval.floor start then start else leading interval tries (start - 1)

/-- The first grid with a neighbour in the interval, from a grid on. -/
def search (interval : Interval) : (tries : Nat) → (exponent : Int) → Digits
  | 0, exponent => ⟨interval.floor exponent, exponent⟩
  | tries + 1, exponent =>
    match interval.neighbour? exponent with
    | some point => ⟨point, exponent⟩
    | none => search interval tries (exponent - 1)

end Interval

/-- A decimal number without zeros at the end of its digits. -/
def Digits.trim : (tries : Nat) → Digits → Digits
  | 0, number => number
  | tries + 1, number =>
    if number.digits ≠ 0 ∧ number.digits % 10 = 0 then
      trim tries ⟨number.digits / 10, number.exponent + 1⟩
    else number

/-- The fewest digits that read back as the number of some bits, without its sign. -/
def shortest (layout : Layout) (bits : Nat) : Digits :=
  let interval := layout.interval bits
  if interval.value = 0 then ⟨0, 0⟩
  else
    let start := interval.leading 700 310
    (interval.search 20 start).trim 20

end Amqp.Decimal
