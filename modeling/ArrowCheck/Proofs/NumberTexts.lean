/-
This file describes the texts of numbers. A text shows digits with a point or an
exponent, and stands for one rational number. The text of a magnitude stands for a
rational number that rounds to it; since no rational number rounds to two
magnitudes, finite numbers with the same text are the same, down to the sign of
zero.
-/

import Mathlib.Tactic.Set
import ArrowCheck.Json
import ArrowCheck.Numeric.Decimal
import ArrowCheck.Proofs.Lexemes
import ArrowCheck.Proofs.RoundingIntervals

namespace ArrowCheck

namespace Decimal

/-! ### Reading digits -/

theorem isDigit_toDigits (count : ℕ) : ∀ char ∈ Nat.toDigits 10 count, char.isDigit = true :=
  fun _ member => Nat.isDigit_of_mem_toDigits (by decide) (by decide) member

theorem value_eq (digits : List Char) : value digits = Nat.ofDigitChars 10 digits 0 := by
  rw [value, Nat.ofDigitChars_eq_foldl]
  congr
  funext total digit
  rw [Nat.mul_comm]

theorem value_toDigits (count : ℕ) : value (Nat.toDigits 10 count) = count := by
  rw [value_eq, Nat.ofDigitChars_ten_toDigits]

/-- Zeros after digits multiply by powers of ten. -/
theorem value_append_zeros (digits : List Char) (count : ℕ) :
    value (digits ++ List.replicate count '0') = value digits * 10 ^ count := by
  rw [value_eq, value_eq, Nat.ofDigitChars_append, Nat.ofDigitChars_replicate_zero, Nat.mul_comm]

/-- Zeros before digits count for nothing. -/
theorem value_zeros_append (digits : List Char) (count : ℕ) :
    value (List.replicate count '0' ++ digits) = value digits := by
  rw [value_eq, value_eq, Nat.ofDigitChars_append, Nat.ofDigitChars_replicate_zero, Nat.mul_zero]

theorem isDigit_zeros (count : ℕ) : ∀ char ∈ List.replicate count '0', char.isDigit = true := by
  intro char member
  rw [List.eq_of_mem_replicate member]
  rfl

section

variable {whole fraction : List Char} (rest : List Char)

theorem splitPoint_point (digits : ∀ char ∈ whole, char.isDigit)
    (digits' : ∀ char ∈ fraction, char.isDigit)
    (outside : ∀ char ∈ rest.head?, char.isDigit = false) :
    splitPoint (whole ++ '.' :: (fraction ++ rest)) = (whole, fraction, rest) := by
  have point : ∀ char ∈ ('.' :: (fraction ++ rest)).head?, char.isDigit = false := by
    simp
  obtain ⟨taken, dropped⟩ := Token.splitRun digits point
  obtain ⟨taken', dropped'⟩ := Token.splitRun digits' outside
  simp only [splitPoint, taken, dropped, taken', dropped']

theorem splitPoint_whole (digits : ∀ char ∈ whole, char.isDigit)
    (outside : ∀ char ∈ rest.head?, char.isDigit = false ∧ char ≠ '.') :
    splitPoint (whole ++ rest) = (whole, [], rest) := by
  obtain ⟨taken, dropped⟩ := Token.splitRun digits fun char member => (outside char member).1
  simp only [splitPoint, taken, dropped]
  split
  · exact absurd rfl (outside '.' rfl).2
  · rfl

end

/-- A power of ten as it is written after a significand. -/
def exponentChars (power : ℤ) : List Char :=
  'e' :: (if power < 0 then '-' else '+') :: Nat.toDigits 10 power.natAbs

theorem readPower_exponentChars (power : ℤ) : readPower (exponentChars power) = some power := by
  have nonempty : (Nat.toDigits 10 power.natAbs).isEmpty = false := by
    simp [Nat.toDigits_ne_nil]
  have digits : (Nat.toDigits 10 power.natAbs).all Char.isDigit = true :=
    List.all_eq_true.mpr (isDigit_toDigits _)
  rw [exponentChars]
  split_ifs with negative
  · simp [readPower, nonempty, digits, value_toDigits, abs_of_neg negative]
  · simp [readPower, nonempty, digits, value_toDigits, abs_of_nonneg (not_lt.mp negative)]

/-! ### What texts stand for -/

/-- A text shows a rational number: digits with a point, with an exponent, or with both. -/
inductive Shows : List Char → ℚ → Prop
  | point {whole fraction : List Char} (nonempty : whole ≠ [])
    (digits : ∀ char ∈ whole, char.isDigit) (digits' : ∀ char ∈ fraction, char.isDigit) :
    Shows (whole ++ '.' :: fraction) (value (whole ++ fraction) * 10 ^ (-fraction.length : ℤ))
  | exponent {whole : List Char} (nonempty : whole ≠ []) (digits : ∀ char ∈ whole, char.isDigit)
    (power : ℤ) : Shows (whole ++ exponentChars power) (value whole * 10 ^ power)
  | both {whole fraction : List Char} (nonempty : whole ≠ [])
    (digits : ∀ char ∈ whole, char.isDigit) (digits' : ∀ char ∈ fraction, char.isDigit)
    (power : ℤ) :
    Shows (whole ++ '.' :: (fraction ++ exponentChars power))
      (value (whole ++ fraction) * 10 ^ (power - fraction.length))

/-- Digits, and the power of ten of the last one, as an unsigned decimal text states them. -/
def parts? (chars : List Char) : Option (ℕ × ℤ) :=
  let (whole, fraction, rest) := splitPoint chars
  (readPower rest).map fun power => (value (whole ++ fraction), power - fraction.length)

section

variable {chars : List Char} {number number' : ℚ}

theorem Shows.parts? (shown : Shows chars number) :
    ∃ digits power, parts? chars = some (digits, power) ∧ digits * 10 ^ power = number := by
  cases shown with
  | point nonempty digits digits' =>
    refine ⟨_, _, ?_, rfl⟩
    have split := splitPoint_point [] digits digits' (by simp)
    rw [List.append_nil] at split
    simp [Decimal.parts?, split, readPower]
  | exponent nonempty digits power =>
    refine ⟨_, _, ?_, rfl⟩
    have split := splitPoint_whole (exponentChars power) digits (by simp [exponentChars])
    simp [Decimal.parts?, split, readPower_exponentChars]
  | both nonempty digits digits' power =>
    refine ⟨_, _, ?_, rfl⟩
    have split := splitPoint_point (exponentChars power) digits digits' (by simp [exponentChars])
    simp [Decimal.parts?, split, readPower_exponentChars]

/-- A text shows one number only. -/
theorem Shows.unique (shown : Shows chars number) (shown' : Shows chars number') :
    number = number' := by
  obtain ⟨digits, power, parts, rfl⟩ := shown.parts?
  obtain ⟨digits', power', parts', rfl⟩ := shown'.parts?
  obtain ⟨rfl, rfl⟩ : digits = digits' ∧ power = power' := by
    simpa using parts.symm.trans parts'
  rfl

/-- What the text of a number is made of: digits, the point, the mark of an exponent and signs. -/
def isNumeric (char : Char) : Bool :=
  char.isDigit || char == '.' || char == 'e' || char == '+' || char == '-'

theorem isNumeric_of_isDigit {char : Char} (digit : char.isDigit = true) :
    isNumeric char = true := by
  simp [isNumeric, digit]

theorem isNumeric_exponentChars (power : ℤ) : ∀ char ∈ exponentChars power, isNumeric char := by
  have digits : ∀ char ∈ Nat.toDigits 10 power.natAbs, isNumeric char := fun char member =>
    isNumeric_of_isDigit (isDigit_toDigits _ char member)
  rw [exponentChars]
  split_ifs <;> simpa [isNumeric] using digits

/-- A digit comes first, and then digits and marks, among which there is a mark. -/
def Numeral (chars : List Char) : Prop :=
  ∃ first more, chars = first :: more ∧ first.isDigit = true ∧
    (∀ char ∈ more, isNumeric char) ∧ ∃ mark ∈ more, mark.isDigit = false

theorem Numeral.of_append {whole rest : List Char} (nonempty : whole ≠ [])
    (digits : ∀ char ∈ whole, char.isDigit) (numeric : ∀ char ∈ rest, isNumeric char)
    (mark : ∃ mark ∈ rest, mark.isDigit = false) : Numeral (whole ++ rest) := by
  obtain ⟨first, more, rfl⟩ := List.exists_cons_of_ne_nil nonempty
  obtain ⟨mark, member, outside⟩ := mark
  rw [List.forall_mem_cons] at digits
  refine ⟨first, more ++ rest, rfl, digits.1, ?_, mark, List.mem_append_right _ member, outside⟩
  exact List.forall_mem_append.mpr
    ⟨fun char member => isNumeric_of_isDigit (digits.2 char member), numeric⟩

theorem Shows.numeral (shown : Shows chars number) : Numeral chars := by
  cases shown with
  | point nonempty digits digits' =>
    refine .of_append nonempty digits ?_ ⟨'.', List.mem_cons_self, rfl⟩
    exact List.forall_mem_cons.mpr
      ⟨rfl, fun char member => isNumeric_of_isDigit (digits' char member)⟩
  | exponent nonempty digits power =>
    exact .of_append nonempty digits (isNumeric_exponentChars power) ⟨'e', List.mem_cons_self, rfl⟩
  | both nonempty digits digits' power =>
    refine .of_append nonempty digits ?_ ⟨'.', List.mem_cons_self, rfl⟩
    exact List.forall_mem_cons.mpr ⟨rfl, List.forall_mem_append.mpr
      ⟨fun char member => isNumeric_of_isDigit (digits' char member),
        isNumeric_exponentChars power⟩⟩

end

end Decimal

namespace Json

open Decimal

theorem toList_zeros (count : ℕ) : (zeros count).toList = List.replicate count '0' :=
  String.toList_ofList

section

variable {digits : String} (nonempty : digits.toList ≠ [])
  (each : ∀ char ∈ digits.toList, char.isDigit)

include nonempty each

/-- A plain text shows the number whose digits it has. -/
theorem plainText_shows (power : ℤ) :
    Shows (plainText digits power).toList (value digits.toList * 10 ^ power) := by
  rw [plainText]
  split_ifs with whole
  · have each' : ∀ char ∈ digits.toList ++ List.replicate power.toNat '0', char.isDigit :=
      List.forall_mem_append.mpr ⟨each, isDigit_zeros _⟩
    have shown := Shows.point (by simp [nonempty]) each' (isDigit_zeros 1)
    rw [value_append_zeros, value_append_zeros] at shown
    obtain ⟨count, rfl⟩ := Int.eq_ofNat_of_zero_le whole
    simpa [toList_zeros] using shown
  · dsimp only
    split_ifs with short
    · have kept : 0 < digits.toList.length - (-power).toNat := Nat.sub_pos_of_lt short
      set count := digits.toList.length - (-power).toNat
      have before : ∀ char ∈ digits.toList.take count, char.isDigit := fun char member =>
        each char (List.mem_of_mem_take member)
      have after : ∀ char ∈ digits.toList.drop count, char.isDigit := fun char member =>
        each char (List.mem_of_mem_drop member)
      have shown := Shows.point (by simp [nonempty, kept.ne']) before after
      have places : -((digits.toList.drop count).length : ℤ) = power := by
        rw [List.length_drop]
        omega
      rw [List.take_append_drop, places] at shown
      simpa using shown
    · set missing := (-power).toNat - digits.toList.length
      have each' : ∀ char ∈ List.replicate missing '0' ++ digits.toList, char.isDigit :=
        List.forall_mem_append.mpr ⟨isDigit_zeros _, each⟩
      have shown := Shows.point (by simp) (isDigit_zeros 1) each'
      have places : -((List.replicate missing '0' ++ digits.toList).length : ℤ) = power := by
        rw [List.length_append, List.length_replicate]
        omega
      rw [value_zeros_append, value_zeros_append, places] at shown
      simpa [toList_zeros] using shown

/-- A text with an exponent shows the number whose digits it has. -/
theorem exponentText_shows (leading : ℤ) :
    Shows (exponentText digits leading).toList
      (value digits.toList * 10 ^ (leading - (digits.toList.length - 1 : ℕ))) := by
  have exponent : ∀ shown : String,
      (shown ++ "e" ++ (if leading < 0 then "-" else "+") ++ leading.natAbs.repr).toList =
        shown.toList ++ exponentChars leading := by
    intro shown
    rw [exponentChars]
    split_ifs <;> simp
  rw [exponentText, exponent]
  rcases chars : digits.toList with _ | ⟨first, _ | ⟨second, rest⟩⟩
  · exact absurd chars nonempty
  · have shown := Shows.exponent nonempty each leading
    simpa [chars] using shown
  · rw [chars, List.forall_mem_cons] at each
    have shown := Shows.both (List.cons_ne_nil first [])
      (List.forall_mem_singleton.mpr each.1) each.2 leading
    simpa using shown

end

/-- The text of a magnitude shows a number that rounds to it. -/
theorem magnitudeText_shows (rank : ℕ) :
    ∃ number, Shows (magnitudeText rank).toList number ∧ RoundsTo number rank := by
  rw [magnitudeText]
  split_ifs with zero
  · have shown := Shows.point (List.cons_ne_nil '0' []) (isDigit_zeros 1) (isDigit_zeros 1)
    exact ⟨0, by simpa [value] using shown, zero ▸ roundsTo_zero⟩
  · refine ⟨_, ?_, shortest_roundsTo (Nat.pos_of_ne_zero zero)⟩
    generalize shortest rank = pair
    obtain ⟨digits, power⟩ := pair
    have nonempty : digits.repr.toList ≠ [] := by
      simp [Nat.toDigits_ne_nil]
    have each : ∀ char ∈ digits.repr.toList, char.isDigit := by
      simpa using isDigit_toDigits digits
    have count : value digits.repr.toList = digits := by
      simp [value_toDigits]
    dsimp only
    split_ifs
    · simpa only [count] using plainText_shows nonempty each power
    · have shown := exponentText_shows nonempty each (power + digits.repr.length - 1)
      have positive := List.length_pos_of_ne_nil nonempty
      have last : power + digits.repr.length - 1 - (digits.repr.toList.length - 1 : ℕ) = power := by
        rw [String.length_toList] at positive ⊢
        omega
      rwa [last, count] at shown

theorem magnitudeText_injective : Function.Injective magnitudeText := by
  intro rank rank' same
  obtain ⟨number, shown, rounds⟩ := magnitudeText_shows rank
  obtain ⟨number', shown', rounds'⟩ := magnitudeText_shows rank'
  rw [← same] at shown'
  rw [← shown.unique shown'] at rounds'
  exact rounds.unique rounds'

theorem toList_numberText {number : Binary64} (finite : number.isFinite = true) :
    (numberText number).toList =
      (if number.negative then ['-'] else []) ++ (magnitudeText number.magnitude).toList := by
  rw [numberText, if_pos finite, String.toList_append]
  split_ifs <;> simp

/-- The text of a finite number is made of digits and marks, among which there is a mark. -/
theorem numberText_numeric {number : Binary64} (finite : number.isFinite = true) :
    ∃ first more, (numberText number).toList = first :: more ∧
      (∀ char ∈ first :: more, isNumeric char) ∧ ∃ mark ∈ first :: more, mark.isDigit = false := by
  obtain ⟨_, shown, -⟩ := magnitudeText_shows number.magnitude
  obtain ⟨first, more, starts, digit, numeric, mark, member, outside⟩ := shown.numeral
  have numeric' : ∀ char ∈ first :: more, isNumeric char :=
    List.forall_mem_cons.mpr ⟨isNumeric_of_isDigit digit, numeric⟩
  rw [toList_numberText finite, starts]
  cases number.negative with
  | true =>
    exact ⟨'-', first :: more, rfl, List.forall_mem_cons.mpr ⟨rfl, numeric'⟩, '-',
      List.mem_cons_self, rfl⟩
  | false => exact ⟨first, more, rfl, numeric', mark, List.mem_cons_of_mem _ member, outside⟩

/-- The text of a count is made of digits. -/
theorem repr_numeric (count : ℕ) :
    ∃ first more, count.repr.toList = first :: more ∧ ∀ char ∈ first :: more, char.isDigit := by
  rw [Nat.toList_repr]
  obtain ⟨first, more, starts⟩ := List.exists_cons_of_ne_nil (Nat.toDigits_ne_nil (b := 10))
  exact ⟨first, more, starts, starts ▸ isDigit_toDigits count⟩

/-- Finite numbers with the same text are the same. -/
theorem numberText_inj {number number' : Binary64} (finite : number.isFinite = true)
    (finite' : number'.isFinite = true) (same : numberText number = numberText number') :
    number = number' := by
  have chars := congrArg String.toList same
  rw [toList_numberText finite, toList_numberText finite'] at chars
  obtain ⟨_, shown, -⟩ := magnitudeText_shows number.magnitude
  obtain ⟨_, shown', -⟩ := magnitudeText_shows number'.magnitude
  obtain ⟨first, more, starts, digit, -⟩ := shown.numeral
  obtain ⟨first', more', starts', digit', -⟩ := shown'.numeral
  -- A sign cannot be taken for the first digit of an unsigned text.
  have sign : number.negative = number'.negative := by
    rw [starts, starts'] at chars
    cases negative : number.negative <;> cases negative' : number'.negative <;>
      simp only [negative, negative'] at chars
    · rfl
    · simp [(List.cons.inj chars).1] at digit
    · simp [← (List.cons.inj chars).1] at digit'
    · rfl
  rw [sign] at chars
  have magnitude : number.magnitude = number'.magnitude :=
    magnitudeText_injective (String.toList_injective (List.append_cancel_left chars))
  exact congrArg₂ Binary64.mk sign magnitude

end Json

end ArrowCheck
