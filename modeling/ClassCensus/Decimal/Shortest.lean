import ClassCensus.Decimal.Binary

/-!
# The shortest decimal of a binary number

Among the decimals that are rounded to a binary number, the one with the fewest digits is chosen,
among those the nearest, and of two equally near the one whose last digit is even.  The search
tries one digit, two digits and so on: on each decimal grid only the two neighbours of the number
can be hits, because a grid point inside the interval puts a neighbour of the number inside it.

All comparisons are between natural numbers.  A positive binary number is brought to the form
`numerator / denominator`, with its interval in the same unit.
-/

namespace ClassCensus

/-- A decimal: its digits as a number that does not end in zero, and the power of ten of the first
digit. -/
structure Decimal where
  digits : Nat
  exponent : Int
  deriving Repr, DecidableEq

namespace Shortest

/-- A positive number and its interval of rounding, all over one denominator.  The ends belong to
the interval if it is closed. -/
structure Interval where
  low : Nat
  middle : Nat
  high : Nat
  denominator : Nat
  closed : Bool
  deriving Repr, DecidableEq

/-- The interval of a binary number.  Quarters of the significand's unit reach both ends. -/
def Interval.ofBinary (number : BinaryNumber) : Interval :=
  let exponent := number.exponent - 2
  let scale := Nat.pow 2 exponent.toNat
  let below := if number.narrowBelow then 1 else 2
  {
    low := (4 * number.significand - below) * scale
    middle := 4 * number.significand * scale
    high := (4 * number.significand + 2) * scale
    denominator := Nat.pow 2 (-exponent).toNat
    closed := number.significand % 2 == 0
  }

/-- The interval in units of a power of ten. -/
def Interval.inUnits (interval : Interval) (power : Int) : Interval :=
  let scale := Nat.pow 10 (-power).toNat
  {
    low := interval.low * scale
    middle := interval.middle * scale
    high := interval.high * scale
    denominator := interval.denominator * Nat.pow 10 power.toNat
    closed := interval.closed
  }

def Interval.contains (interval : Interval) (whole : Nat) : Bool :=
  let value := whole * interval.denominator
  if interval.closed then interval.low ≤ value && value ≤ interval.high
  else interval.low < value && value < interval.high

/-- The whole number in the interval next to its middle, an even one if two are equally near. -/
def Interval.nearest? (interval : Interval) : Option Nat :=
  let below := interval.middle / interval.denominator
  let above := below + 1
  let downwards := interval.middle - below * interval.denominator
  let upwards := above * interval.denominator - interval.middle
  match interval.contains below, interval.contains above with
  | true, true =>
    if downwards < upwards ∨ (downwards = upwards ∧ below % 2 = 0) then some below else some above
  | true, false => some below
  | false, true => some above
  | false, false => none

def digitCount (number : Nat) : Nat := (Nat.toDigits 10 number).length

/-- The power of ten of the first digit of the middle. -/
def Interval.leading (interval : Interval) : Int :=
  if interval.denominator ≤ interval.middle then
    digitCount (interval.middle / interval.denominator) - 1
  else
    let count := digitCount (interval.denominator / interval.middle)
    if interval.denominator ≤ interval.middle * Nat.pow 10 (count - 1) then 1 - (count : Int)
    else -(count : Int)

/-- Drops up to `limit` zeros at the end of a number. -/
def dropZeros : (limit : Nat) → Nat → Nat
  | 0, number => number
  | limit + 1, number =>
    if number ≠ 0 ∧ number % 10 = 0 then dropZeros limit (number / 10) else number

/-- The decimal of a whole number of units of a power of ten. -/
def ofUnits (whole : Nat) (power : Int) : Decimal :=
  ⟨dropZeros (digitCount whole) whole, power + digitCount whole - 1⟩

/-- The first hit on the grids from `power` down to the one `limit` places finer, on which the
number itself is cut off if there is none. -/
def search (interval : Interval) : (limit : Nat) → (power : Int) → Decimal
  | 0, power =>
    let finest := interval.inUnits power
    ofUnits (finest.middle / finest.denominator) power
  | limit + 1, power =>
    match (interval.inUnits power).nearest? with
    | some whole => ofUnits whole power
    | none => search interval limit (power - 1)

/-- How many digits always suffice for numbers of up to 64 bits. -/
def mostDigits : Nat := 17

end Shortest

/-- The shortest decimal that is rounded to a binary number. -/
def BinaryNumber.shortest (number : BinaryNumber) : Decimal :=
  let interval := Shortest.Interval.ofBinary number
  Shortest.search interval Shortest.mostDigits interval.leading

end ClassCensus
