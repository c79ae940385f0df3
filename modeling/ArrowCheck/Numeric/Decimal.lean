/-
This file reads numbers from decimal text. A numeral of the language is a run of
digits with an optional fraction; a decimal text may in addition have a sign, an
exponent, or be one of the names of the values that are not finite.
-/

import ArrowCheck.Numeric.Binary64

namespace ArrowCheck.Decimal

/-- The value of a run of decimal digits. -/
def value (digits : List Char) : Nat :=
  digits.foldl (fun total digit => total * 10 + (digit.toNat - '0'.toNat)) 0

/-- The digits before and after the point, and the text after them. -/
def splitPoint (chars : List Char) : List Char × List Char × List Char :=
  let whole := chars.takeWhile Char.isDigit
  match chars.dropWhile Char.isDigit with
  | '.' :: rest => (whole, rest.takeWhile Char.isDigit, rest.dropWhile Char.isDigit)
  | rest => (whole, [], rest)

/-- The number that a numeral of the language stands for. -/
def ofNumeral (text : String) : Binary64 :=
  let (whole, fraction, _) := splitPoint text.toList
  .ofDecimal false (value (whole ++ fraction)) (-fraction.length)

/-- The power of ten written after a significand, from its mark to the end of the text. -/
def readPower : List Char → Option Int
  | [] => some 0
  | mark :: rest =>
    if mark = 'e' || mark = 'E' then
      let (negative, digits) :=
        match rest with
        | '-' :: digits => (true, digits)
        | '+' :: digits => (false, digits)
        | digits => (false, digits)
      if digits.isEmpty || !digits.all Char.isDigit then none
      else if negative then some (-(value digits : Int))
      else some (value digits)
    else none

/-- The number that an unsigned decimal text stands for, under a sign that was read before it. -/
def readUnsigned (negative : Bool) (chars : List Char) : Option Binary64 :=
  let lower := chars.map Char.toLower
  if lower = "inf".toList || lower = "infinity".toList then some ⟨negative, Binary64.infinite⟩
  else if lower = "nan".toList then some { Binary64.notANumber with negative := negative }
  else
    let (whole, fraction, rest) := splitPoint chars
    if whole.isEmpty && fraction.isEmpty then none
    else
      (readPower rest).map fun power =>
        .ofDecimal negative (value (whole ++ fraction)) (power - fraction.length)

/-- The number nearest to a decimal text, if the text is one. -/
def read? (text : String) : Option Binary64 :=
  match text.toList with
  | '-' :: chars => readUnsigned true chars
  | '+' :: chars => readUnsigned false chars
  | chars => readUnsigned false chars

end ArrowCheck.Decimal
