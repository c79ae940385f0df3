/-
This file cuts texts at byte offsets. A cut is possible only between two
characters, at the start and at the end of a text.
-/

import ArrowCheck.Text.Blank

namespace ArrowCheck.Text

/-- A text cut in two at a byte offset, unless the offset is inside a character or past the end. -/
def cutAt? : Nat → List Char → Option (List Char × List Char)
  | 0, chars => some ([], chars)
  | _ + 1, [] => none
  | offset + 1, char :: rest =>
    if char.utf8Size ≤ offset + 1 then
      (cutAt? (offset + 1 - char.utf8Size) rest).map fun (before, after) => (char :: before, after)
    else none

/-- The characters from the byte at one offset up to the byte at another one, unless the text cannot
be cut there or the offsets are in the wrong order. -/
def slice? (lo hi : Nat) (chars : List Char) : Option (List Char) := do
  let (front, _) ← cutAt? hi chars
  let (_, inside) ← cutAt? lo front
  pure inside

/-- Characters without those at the end that are line breaks. -/
def dropLastBreaks (chars : List Char) : List Char :=
  (chars.reverse.dropWhile (· = '\n')).reverse

/-- A text can be cut behind each of its fronts. -/
theorem cutAt?_byteLength (before after : List Char) :
    cutAt? (byteLength before) (before ++ after) = some (before, after) := by
  induction before with
  | nil => simp [cutAt?]
  | cons char before inductionHypothesis =>
    obtain ⟨size, isSucc⟩ : ∃ size, char.utf8Size = size + 1 :=
      Nat.exists_eq_add_one.mpr char.utf8Size_pos
    have offset : byteLength (char :: before) = size + byteLength before + 1 := by
      rw [byteLength_cons, isSucc]
      omega
    have left : size + byteLength before + 1 - char.utf8Size = byteLength before := by omega
    rw [offset, List.cons_append, cutAt?, if_pos (by omega), left, inductionHypothesis]
    rfl

/-- A stretch of a text is what stands between its offsets. -/
theorem slice?_byteLength (before inside after : List Char) :
    slice? (byteLength before) (byteLength (before ++ inside)) (before ++ inside ++ after) =
      some inside := by
  rw [slice?, cutAt?_byteLength]
  show (cutAt? (byteLength before) (before ++ inside)).bind _ = _
  rw [cutAt?_byteLength]
  rfl

end ArrowCheck.Text
