/-
This file finds the shortest decimal text of a number: the fewest digits that
read back as the same number. The reals that round to a number form an interval
around it. On the grid of multiples of a power of ten only the two grid points
next to the number have to be tried, since no other point is nearer. The search
starts on a grid that is too coarse and refines it; the first grid with a point
in the interval gives the fewest digits, and of two points on it the nearer one
is taken, the even one if they are equally near.
-/

import ArrowCheck.Numeric.Binary64

namespace ArrowCheck.Decimal

/-- The number and the ends of its rounding interval over one common denominator. -/
structure Interval where
  low : Nat
  centre : Nat
  high : Nat
  denominator : Nat
  /-- Whether the two ends themselves round to the number. -/
  closed : Bool

/-- The rounding interval of a finite rank. Below a power of two the representable numbers lie twice
as close as above it, so the lower end is nearer there. -/
def interval (rank : Nat) : Interval :=
  let significand := Binary64.significand rank
  let power := Binary64.exponent rank - 2
  let factor := Nat.pow 2 power.toNat
  let below := if significand = Nat.pow 2 52 && -1074 < Binary64.exponent rank then 1 else 2
  { low := (4 * significand - below) * factor
    centre := 4 * significand * factor
    high := (4 * significand + 2) * factor
    denominator := Nat.pow 2 (-power).toNat
    closed := significand % 2 == 0 }

namespace Interval

/-- The interval measured in units of a power of ten. -/
def inUnits (ends : Interval) (power : Int) : Interval :=
  let factor := Nat.pow 10 (-power).toNat
  { ends with
    low := ends.low * factor
    centre := ends.centre * factor
    high := ends.high * factor
    denominator := ends.denominator * Nat.pow 10 power.toNat }

/-- Whether a whole number of units lies in the interval. -/
def contains (ends : Interval) (units : Nat) : Bool :=
  let point := units * ends.denominator
  if ends.closed then ends.low ≤ point && point ≤ ends.high
  else ends.low < point && point < ends.high

/-- The whole number of units next to the centre that lies in the interval, if there is one. -/
def nearest? (ends : Interval) : Option Nat :=
  let lower := ends.centre / ends.denominator
  let upper := lower + 1
  match ends.contains lower, ends.contains upper with
  | true, false => some lower
  | false, true => some upper
  | false, false => none
  | true, true =>
    let toLower := ends.centre - lower * ends.denominator
    let toUpper := upper * ends.denominator - ends.centre
    if toLower < toUpper || (toLower == toUpper && lower % 2 == 0) then some lower else some upper

end Interval

/-- Digits and power of ten on the first grid that has a point in the interval, among the grids from
a power of ten downwards. -/
def search (ends : Interval) : (grids : Nat) → (power : Int) → Nat × Int
  | 0, power => (0, power)
  | grids + 1, power =>
    match (ends.inUnits power).nearest? with
    | some digits => (digits, power)
    | none => search ends grids (power - 1)

/-- The shortest digits of a finite positive rank, with the power of ten of their last digit. The
search starts above the number, and on the grid of `10 ^ (-1074)` every number is a point. -/
def shortest (rank : Nat) : Nat × Int :=
  let ends := interval rank
  let start := (ends.centre / ends.denominator).repr.length
  search ends (start + 1075) start

end ArrowCheck.Decimal
