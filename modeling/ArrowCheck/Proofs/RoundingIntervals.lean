/-
This file proves that the shortest digits of a number stand for that number. The
rational numbers that round to a rank form an interval; where it ends, the interval
of the next rank starts, and the common end belongs to the even one of the two
ranks. So a rational number rounds to one rank only.

The search for the shortest digits tries one grid after the other. It finds a point
of the interval of the number, since the number itself is a point of the last grid.
-/

import Mathlib.Algebra.Order.Field.Power
import Mathlib.Algebra.Order.Ring.Rat
import Mathlib.Tactic.Positivity
import Mathlib.Tactic.Ring
import ArrowCheck.Numeric.Shortest

namespace ArrowCheck.Decimal

open Binary64

/-! ### The ends of the intervals -/

/-- A power with a negative exponent is divided by. -/
theorem pow_toNat_div (base : ℚ) (power : ℤ) :
    base ^ power.toNat / base ^ (-power).toNat = base ^ power := by
  rcases Int.le_total 0 power with positive | negative
  · rw [Int.toNat_of_nonpos (Int.neg_nonpos_of_nonneg positive), pow_zero, div_one, ← zpow_natCast,
      Int.toNat_of_nonneg positive]
  · rw [Int.toNat_of_nonpos negative, pow_zero, ← zpow_natCast,
      Int.toNat_of_nonneg (Int.neg_nonneg_of_nonpos negative), zpow_neg, one_div, inv_inv]

/-- The lower end of the reals that round to a rank. -/
def lowEnd (rank : ℕ) : ℚ :=
  (interval rank).low / (interval rank).denominator

/-- The upper end of the reals that round to a rank. -/
def highEnd (rank : ℕ) : ℚ :=
  (interval rank).high / (interval rank).denominator

theorem highEnd_eq (rank : ℕ) :
    highEnd rank = (4 * significand rank + 2) * 2 ^ (exponent rank - 2) := by
  rw [← pow_toNat_div 2]
  simp only [highEnd, interval, Nat.pow_eq]
  push_cast
  ring

/-- How far below a rank its lower end is, in quarters of the unit of its significand. -/
def lowGap (rank : ℕ) : ℕ :=
  if significand rank = Nat.pow 2 52 && -1074 < exponent rank then 1 else 2

theorem lowEnd_eq (rank : ℕ) :
    lowEnd rank = (4 * significand rank - lowGap rank : ℕ) * 2 ^ (exponent rank - 2) := by
  rw [← pow_toNat_div 2]
  simp only [lowEnd, interval, Nat.pow_eq, lowGap]
  push_cast
  ring

/-- The next rank has the next significand, or the least one of the next exponent. -/
theorem significand_succ (rank : ℕ) :
    (exponent (rank + 1) = exponent rank ∧ significand (rank + 1) = significand rank + 1 ∧
        lowGap (rank + 1) = 2) ∨
      (exponent (rank + 1) = exponent rank + 1 ∧ 2 * significand (rank + 1) = significand rank + 1 ∧
        lowGap (rank + 1) = 1) := by
  have size : Nat.pow 2 52 = 4503599627370496 := rfl
  simp only [lowGap, significand, exponent, size, Bool.and_eq_true, decide_eq_true_eq]
  split_ifs <;> omega

/-- Where the reals that round to a rank end, those that round to the next rank start. -/
theorem highEnd_eq_lowEnd_succ (rank : ℕ) : highEnd rank = lowEnd (rank + 1) := by
  rw [highEnd_eq, lowEnd_eq]
  rcases significand_succ rank with ⟨same, next, gap⟩ | ⟨next, half, gap⟩
  · rw [same, next, gap, show 4 * (significand rank + 1) - 2 = 4 * significand rank + 2 by omega]
    push_cast
    rfl
  · have unit : (2 : ℚ) ^ (exponent rank + 1 - 2) = 2 * 2 ^ (exponent rank - 2) := by
      rw [show exponent rank + 1 - 2 = 1 + (exponent rank - 2) by ring, zpow_add₀ two_ne_zero,
        zpow_one]
    have doubled : 2 * (4 * significand (rank + 1) - 1) = 4 * significand rank + 2 := by omega
    rw [next, gap, unit, ← mul_assoc, mul_comm _ (2 : ℚ)]
    have cast := congrArg (fun count : ℕ => (count : ℚ)) doubled
    push_cast at cast ⊢
    rw [← cast]

theorem lowEnd_lt_highEnd (rank : ℕ) : lowEnd rank < highEnd rank := by
  rw [highEnd_eq, lowEnd_eq]
  have unit : (0 : ℚ) < 2 ^ (exponent rank - 2) := by positivity
  refine mul_lt_mul_of_pos_right ?_ unit
  have less : 4 * significand rank - lowGap rank < 4 * significand rank + 2 := by omega
  exact_mod_cast less

theorem lowEnd_strictMono : StrictMono lowEnd :=
  strictMono_nat_of_lt_succ fun rank =>
    (lowEnd_lt_highEnd rank).trans_eq (highEnd_eq_lowEnd_succ rank)

/-- A rational number rounds to a rank. The ends belong to the even ranks. -/
def RoundsTo (value : ℚ) (rank : ℕ) : Prop :=
  lowEnd rank ≤ value ∧ value ≤ highEnd rank ∧
    (significand rank % 2 = 1 → lowEnd rank < value ∧ value < highEnd rank)

theorem significand_mod_two (rank : ℕ) : significand rank % 2 = rank % 2 := by
  have size : Nat.pow 2 52 = 4503599627370496 := rfl
  simp only [significand, size]
  split_ifs <;> omega

/-- No number rounds to a rank and to a larger one. -/
theorem RoundsTo.rank_le {value : ℚ} {rank rank' : ℕ} (rounds : RoundsTo value rank)
    (rounds' : RoundsTo value rank') : rank' ≤ rank := by
  refine Nat.le_of_not_lt fun less => ?_
  obtain ⟨-, below, odd⟩ := rounds
  obtain ⟨above, -, odd'⟩ := rounds'
  have ends : highEnd rank ≤ lowEnd rank' := by
    rw [highEnd_eq_lowEnd_succ]
    exact lowEnd_strictMono.monotone less
  -- The number is the end of one rank and the start of the other, so that they are neighbours.
  have atEnd : lowEnd rank' = lowEnd (rank + 1) := by
    rw [← highEnd_eq_lowEnd_succ]
    exact le_antisymm (above.trans below) ends
  obtain rfl := lowEnd_strictMono.injective atEnd
  have parity := significand_mod_two rank
  have parity' := significand_mod_two (rank + 1)
  rw [highEnd_eq_lowEnd_succ] at below odd
  rcases Nat.mod_two_eq_zero_or_one rank with even | isOdd
  · exact absurd below (not_le.mpr (odd' (by omega)).1)
  · exact absurd above (not_le.mpr (odd (by omega)).2)

/-- A number rounds to one rank only. -/
theorem RoundsTo.unique {value : ℚ} {rank rank' : ℕ} (rounds : RoundsTo value rank)
    (rounds' : RoundsTo value rank') : rank = rank' :=
  Nat.le_antisymm (rounds'.rank_le rounds) (rounds.rank_le rounds')

theorem roundsTo_zero : RoundsTo 0 0 := by
  refine ⟨?_, ?_, fun odd => absurd odd (by decide)⟩
  · rw [lowEnd_eq, show 4 * significand 0 - lowGap 0 = 0 by rfl, Nat.cast_zero, zero_mul]
  · rw [highEnd_eq]
    positivity

/-! ### The search -/

theorem denominator_pos (rank : ℕ) : 0 < (interval rank).denominator :=
  Nat.pow_pos (by decide)

/-- Two ways to compare a quotient with a multiple of a power of ten. -/
theorem div_le_units_iff {count digits denominator : ℕ} (positive : 0 < denominator) (power : ℤ) :
    (count : ℚ) / denominator ≤ digits * 10 ^ power ↔
      count * Nat.pow 10 (-power).toNat ≤ digits * (denominator * Nat.pow 10 power.toNat) := by
  have ten : (0 : ℚ) < 10 ^ (-power).toNat := by positivity
  have below : (0 : ℚ) < denominator := by exact_mod_cast positive
  rw [← pow_toNat_div, mul_div_assoc', div_le_div_iff₀ below ten, ← Nat.cast_le (α := ℚ)]
  push_cast [Nat.pow_eq]
  rw [mul_assoc, mul_comm ((10 : ℚ) ^ power.toNat)]

theorem units_le_div_iff {count digits denominator : ℕ} (positive : 0 < denominator) (power : ℤ) :
    (digits : ℚ) * 10 ^ power ≤ count / denominator ↔
      digits * (denominator * Nat.pow 10 power.toNat) ≤ count * Nat.pow 10 (-power).toNat := by
  have ten : (0 : ℚ) < 10 ^ (-power).toNat := by positivity
  have below : (0 : ℚ) < denominator := by exact_mod_cast positive
  rw [← pow_toNat_div, mul_div_assoc', div_le_div_iff₀ ten below, ← Nat.cast_le (α := ℚ)]
  push_cast [Nat.pow_eq]
  rw [mul_assoc, mul_comm ((10 : ℚ) ^ power.toNat)]

theorem Interval.contains_iff (ends : Interval) (units : ℕ) :
    ends.contains units = true ↔ ends.low ≤ units * ends.denominator ∧
      units * ends.denominator ≤ ends.high ∧ (ends.closed = false →
        ends.low < units * ends.denominator ∧ units * ends.denominator < ends.high) := by
  obtain ⟨low, centre, high, denominator, closed⟩ := ends
  cases closed with
  | true => simp [contains]
  | false =>
    simp [contains]
    omega

/-- What is tested in units of a power of ten is whether the number of units rounds to the rank. -/
theorem roundsTo_of_contains {rank digits : ℕ} {power : ℤ}
    (contains : ((interval rank).inUnits power).contains digits = true) :
    RoundsTo (digits * 10 ^ power) rank := by
  have positive := denominator_pos rank
  obtain ⟨above, below, inside⟩ := (Interval.contains_iff _ _).mp contains
  rw [RoundsTo, lowEnd, highEnd, div_le_units_iff positive, units_le_div_iff positive, ← not_le,
    ← not_le, div_le_units_iff positive, units_le_div_iff positive, not_le, not_le]
  refine ⟨above, below, fun odd => inside ?_⟩
  show (significand rank % 2 == 0) = false
  rw [odd]
  rfl

namespace Interval

theorem contains_of_nearest? {ends : Interval} {digits : ℕ}
    (found : ends.nearest? = some digits) : ends.contains digits = true := by
  simp only [nearest?] at found
  split at found
  · next lower _ => cases found; exact lower
  · next _ upper => cases found; exact upper
  · cases found
  · next lower upper =>
    split_ifs at found <;> cases found
    · exact lower
    · exact upper

/-- If the point below the centre is in the interval, then a point is found. -/
theorem isSome_nearest? {ends : Interval}
    (contains : ends.contains (ends.centre / ends.denominator) = true) :
    ends.nearest?.isSome = true := by
  unfold nearest?
  simp only [contains]
  split <;> simp_all
  split_ifs <;> rfl

end Interval

/-- The search ends on the first grid with a point in the interval. -/
theorem search_contains {ends : Interval} {grids skipped : ℕ} {power : ℤ} (some : skipped < grids)
    (found : (ends.inUnits (power - skipped)).nearest?.isSome = true) :
    (ends.inUnits (search ends grids power).2).contains (search ends grids power).1 = true := by
  induction grids generalizing power skipped with
  | zero => exact absurd some (Nat.not_lt_zero skipped)
  | succ grids inductionHypothesis =>
    rw [search]
    split
    · next digits here => exact Interval.contains_of_nearest? here
    · next nothing =>
      cases skipped with
      | zero =>
        rw [Nat.cast_zero, sub_zero, nothing] at found
        cases found
      | succ skipped =>
        refine inductionHypothesis (Nat.lt_of_succ_lt_succ some) ?_
        rw [← found]
        congr 3
        push_cast
        ring

theorem significand_pos {rank : ℕ} (positive : 0 < rank) : 0 < significand rank := by
  rw [significand]
  split_ifs
  · exact positive
  · exact Nat.add_pos_left (Nat.pow_pos (by decide)) _

theorem le_exponent (rank : ℕ) : -1074 ≤ exponent rank := by
  have size : Nat.pow 2 52 = 4503599627370496 := rfl
  simp only [exponent, size]
  split_ifs <;> omega

/-- A number is a whole number of small enough units. -/
theorem denominator_dvd (rank : ℕ) {places : ℕ} (fine : 1074 ≤ places) :
    (interval rank).denominator ∣ (interval rank).centre * Nat.pow 10 places := by
  have few : (-(exponent rank - 2)).toNat ≤ 2 + places := by
    have least := le_exponent rank
    omega
  have split : 4 * Nat.pow 10 places = 2 ^ (2 + places) * 5 ^ places := by
    rw [Nat.pow_eq, show 10 = 2 * 5 from rfl, Nat.mul_pow, Nat.pow_add, Nat.mul_assoc]
  have divides : (interval rank).denominator ∣ 4 * Nat.pow 10 places := by
    rw [split]
    exact Dvd.dvd.mul_right (Nat.pow_dvd_pow 2 few) _
  have centre : (interval rank).centre * Nat.pow 10 places =
      4 * Nat.pow 10 places * (significand rank * Nat.pow 2 (exponent rank - 2).toNat) := by
    show 4 * significand rank * _ * _ = _
    ring
  rw [centre]
  exact Dvd.dvd.mul_right divides _

/-- On a fine enough grid every number is a point. -/
theorem isSome_nearest?_fine {rank places : ℕ} (positive : 0 < rank) (fine : 1074 ≤ places) :
    ((interval rank).inUnits (-places)).nearest?.isSome = true := by
  have places_eq : (-(-places : ℤ)).toNat = places := by omega
  have whole_eq : (-places : ℤ).toNat = 0 := by omega
  have units : (interval rank).inUnits (-places) =
      { interval rank with
        low := (interval rank).low * Nat.pow 10 places
        centre := (interval rank).centre * Nat.pow 10 places
        high := (interval rank).high * Nat.pow 10 places } := by
    rw [Interval.inUnits, places_eq, whole_eq, show Nat.pow 10 0 = 1 from rfl, Nat.mul_one]
  have factor : 0 < Nat.pow 2 (exponent rank - 2).toNat := Nat.pow_pos (by decide)
  have ten : 0 < Nat.pow 10 places := Nat.pow_pos (by decide)
  have some := significand_pos positive
  have above : (interval rank).low < (interval rank).centre := by
    refine Nat.mul_lt_mul_of_pos_right ?_ factor
    split_ifs <;> omega
  have below : (interval rank).centre < (interval rank).high :=
    Nat.mul_lt_mul_of_pos_right (by omega) factor
  have above' := Nat.mul_lt_mul_of_pos_right above ten
  have below' := Nat.mul_lt_mul_of_pos_right below ten
  rw [units]
  apply Interval.isSome_nearest?
  rw [Interval.contains_iff]
  simp only [Nat.div_mul_cancel (denominator_dvd rank fine)]
  exact ⟨above'.le, below'.le, fun _ => ⟨above', below'⟩⟩

/-- The shortest digits of a positive rank stand for a number that rounds to the rank. -/
theorem shortest_roundsTo {rank : ℕ} (positive : 0 < rank) :
    RoundsTo ((shortest rank).1 * 10 ^ (shortest rank).2) rank := by
  apply roundsTo_of_contains
  generalize started :
    ((interval rank).centre / (interval rank).denominator).repr.length = start
  have finest : (start : ℤ) - (start + 1074 : ℕ) = -(1074 : ℕ) := by
    push_cast
    ring
  have found := isSome_nearest?_fine positive (le_refl 1074)
  rw [← finest] at found
  simp only [shortest, started]
  exact search_contains (Nat.lt_succ_self _) found

end ArrowCheck.Decimal
