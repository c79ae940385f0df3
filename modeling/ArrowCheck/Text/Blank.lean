/-
This file holds the class of blank characters and the measure of a text in
bytes. Blank characters are those with the Unicode property White_Space: they
separate tokens, and they are dropped from both ends of a setting.
-/

namespace ArrowCheck.Text

/-- The code points of the property White_Space, as closed ranges in increasing order. -/
def blankRanges : List (Nat × Nat) :=
  [(0x0009, 0x000D), (0x0020, 0x0020), (0x0085, 0x0085), (0x00A0, 0x00A0), (0x1680, 0x1680),
    (0x2000, 0x200A), (0x2028, 0x2029), (0x202F, 0x202F), (0x205F, 0x205F), (0x3000, 0x3000)]

/-- Whether a character is blank. -/
def isBlank (char : Char) : Bool :=
  blankRanges.any fun (low, high) => low ≤ char.toNat && char.toNat ≤ high

/-- The class has twenty-five members. -/
example : (blankRanges.map fun (low, high) => high + 1 - low).sum = 25 := by decide

/-- A text without the blank characters at its two ends. -/
def trim (text : String) : String :=
  String.ofList (((text.toList.dropWhile isBlank).reverse.dropWhile isBlank).reverse)

/-- The number of bytes that characters take in UTF-8. -/
def byteLength (chars : List Char) : Nat :=
  chars.foldr (fun char bytes => char.utf8Size + bytes) 0

@[simp]
theorem byteLength_nil : byteLength [] = 0 := rfl

@[simp]
theorem byteLength_cons (char : Char) (chars : List Char) :
    byteLength (char :: chars) = char.utf8Size + byteLength chars := rfl

@[simp]
theorem byteLength_append (first second : List Char) :
    byteLength (first ++ second) = byteLength first + byteLength second := by
  induction first with
  | nil => simp
  | cons char first inductionHypothesis =>
    simp [inductionHypothesis, Nat.add_assoc]

end ArrowCheck.Text
