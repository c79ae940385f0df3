/-
This file defines the numbers of the language: IEEE 754 double precision. A
number is kept as its sign and its magnitude, where the magnitude is the rank of
the absolute value among the representable ones: zero has rank 0, the least
positive number rank 1, and so on up to infinity. The rank is the bit pattern
without its sign bit, so nothing is lost, and every operation below is exact
arithmetic on natural numbers.
-/

namespace ArrowCheck

/-- A number in double precision. -/
structure Binary64 where
  negative : Bool
  magnitude : Nat
deriving DecidableEq, Repr, Inhabited

namespace Binary64

/-- The rank of infinity. Every smaller rank is a finite number, and every larger one no number. -/
def infinite : Nat :=
  2047 * Nat.pow 2 52

/-- The value that is not a number. -/
def notANumber : Binary64 :=
  ⟨false, infinite + Nat.pow 2 51⟩

/-- Whether a value is finite: neither an infinity nor outside the numbers. -/
def isFinite (number : Binary64) : Bool :=
  number.magnitude < infinite

/-! ### The value of a rank -/

/-- The significand `m` of a finite rank, whose value is `m * 2 ^ q` for its `exponent` `q`. -/
def significand (rank : Nat) : Nat :=
  if rank < Nat.pow 2 52 then rank else Nat.pow 2 52 + rank % Nat.pow 2 52

/-- The binary exponent that goes with `significand`. -/
def exponent (rank : Nat) : Int :=
  if rank < Nat.pow 2 52 then -1074 else rank / Nat.pow 2 52 - 1075

/-- Whether a value is a finite whole number. -/
def isInteger (number : Binary64) : Bool :=
  number.isFinite &&
    significand number.magnitude % Nat.pow 2 (-exponent number.magnitude).toNat == 0

/-! ### Rounding a quotient -/

/-- A quotient rounded to the nearest whole number, a half to the even neighbour. -/
def roundQuotient (numerator denominator : Nat) : Nat :=
  let quotient := numerator / denominator
  let twice := 2 * (numerator % denominator)
  if denominator < twice || (twice == denominator && quotient % 2 == 1) then quotient + 1
  else quotient

/-- Numerator and denominator of a quotient divided by a power of two. -/
def scaled (numerator denominator : Nat) (power : Int) : Nat × Nat :=
  (numerator * Nat.pow 2 (-power).toNat, denominator * Nat.pow 2 power.toNat)

/-- The binary exponent at which a positive quotient has a significand of 53 bits, or the least
exponent when the quotient is too small for that. -/
def exponentOf (numerator denominator : Nat) : Int :=
  let guess := max (-1074) ((numerator.log2 : Int) - denominator.log2 - 53)
  let (above, below) := scaled numerator denominator guess
  if Nat.pow 2 53 ≤ above / below then guess + 1 else guess

/-- The rank of the representable number nearest to a quotient, a half going to the even rank. A
significand that rounds up to `2 ^ 53` carries into the next exponent by itself. -/
def rankOf (numerator denominator : Nat) : Nat :=
  if numerator = 0 then 0
  else
    let power := exponentOf numerator denominator
    let (above, below) := scaled numerator denominator power
    min infinite ((power + 1074).toNat * Nat.pow 2 52 + roundQuotient above below)

/-- The number nearest to `digits * 10 ^ power`. Beyond `10 ^ 310` every number is infinite and
below `10 ^ (-330)` every number is zero, so the powers that are computed stay small. -/
def ofDecimal (negative : Bool) (digits : Nat) (power : Int) : Binary64 :=
  let size : Int := digits.repr.length + power
  let rank :=
    if digits = 0 || size < -330 then 0
    else if 310 < size then infinite
    else rankOf (digits * Nat.pow 10 power.toNat) (Nat.pow 10 (-power).toNat)
  ⟨negative, rank⟩

end Binary64

end ArrowCheck
