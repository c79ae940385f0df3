/-
This file says what the pretty template draws under a line of source text. Columns
count bytes, and both ends of the underline are drawn at columns: the start at the
column where the place begins, and the end at the column where it ends, on whatever
line that is. A place on one line is therefore underlined character by character
only if it has no character of more than one byte, nor the line before it. The
underline of a place that goes on to another line has a length that has nothing to
do with the characters above it, and may run past them.
-/

import Mathlib.Data.List.DropRight
import ArrowCheck.Diagnostic.Render
import ArrowCheck.Proofs.LineTable

namespace ArrowCheck

namespace Text

/-! ### The ends of a text -/

/-- The characters of a text before its first line break. -/
def firstLine (chars : List Char) : List Char :=
  chars.takeWhile (· ≠ '\n')

/-- The characters of a text after its last line break. -/
def lastLine (chars : List Char) : List Char :=
  chars.rtakeWhile (· ≠ '\n')

theorem firstLine_eq_self {chars : List Char} (unbroken : '\n' ∉ chars) :
    firstLine chars = chars := by
  refine List.takeWhile_eq_self_iff.mpr fun char member => decide_eq_true ?_
  rintro rfl
  exact unbroken member

theorem unbroken_firstLine (chars : List Char) : '\n' ∉ firstLine chars := by
  intro member
  simpa using List.mem_takeWhile_imp member

theorem unbroken_lastLine (chars : List Char) : '\n' ∉ lastLine chars := by
  intro member
  simpa using List.mem_rtakeWhile_imp member

/-- Before the last line of a text there is nothing or a line break. -/
theorem exists_front (chars : List Char) :
    ∃ front, chars = front ++ lastLine chars ∧ (front = [] ∨ ∃ more, front = more ++ ['\n']) := by
  refine ⟨chars.rdropWhile (· ≠ '\n'), List.rdropWhile_append_rtakeWhile.symm, ?_⟩
  by_cases nothing : chars.rdropWhile (· ≠ '\n') = []
  · exact Or.inl nothing
  · have last : (chars.rdropWhile (· ≠ '\n')).getLast nothing = '\n' := by
      simpa using List.rdropWhile_last_not _ _ nothing
    have split := List.dropLast_append_getLast nothing
    rw [last] at split
    exact Or.inr ⟨_, split.symm⟩

/-- After the first line of a text there is nothing or a line break. -/
theorem exists_back (chars : List Char) :
    ∃ back, chars = firstLine chars ++ back ∧ (back = [] ∨ ∃ more, back = '\n' :: more) := by
  refine ⟨chars.dropWhile (· ≠ '\n'), List.takeWhile_append_dropWhile.symm, ?_⟩
  by_cases nothing : chars.dropWhile (· ≠ '\n') = []
  · exact Or.inl nothing
  · have first : (chars.dropWhile (· ≠ '\n')).head nothing = '\n' := by
      simpa using List.head_dropWhile_not (· ≠ '\n') nothing
    have split := List.cons_head_tail nothing
    rw [first] at split
    exact Or.inr ⟨_, split.symm⟩

theorem lastLine_append_of_unbroken (before : List Char) {inside : List Char}
    (unbroken : '\n' ∉ inside) : lastLine (before ++ inside) = lastLine before ++ inside := by
  have each : ∀ char ∈ inside.reverse, decide (char ≠ '\n') = true := by
    intro char member
    refine decide_eq_true ?_
    rintro rfl
    exact unbroken (List.mem_reverse.mp member)
  rw [lastLine, List.rtakeWhile, List.reverse_append, List.takeWhile_append_of_pos each,
    List.reverse_append, List.reverse_reverse]
  rfl

theorem lastLine_append_of_broken (before : List Char) {inside : List Char}
    (broken : '\n' ∈ inside) : lastLine (before ++ inside) = lastLine inside := by
  have stops : (inside.reverse.takeWhile (· ≠ '\n')).length ≠ inside.reverse.length := by
    intro same
    have all := (List.takeWhile_prefix _).eq_of_length same
    exact absurd rfl (of_decide_eq_true
      (List.takeWhile_eq_self_iff.mp all '\n' (List.mem_reverse.mpr broken)))
  rw [lastLine, List.rtakeWhile, List.reverse_append, List.takeWhile_append, if_neg stops]
  rfl

theorem count_eq_of_lastLine {chars front : List Char} (split : chars = front ++ lastLine chars) :
    chars.count '\n' = front.count '\n' := by
  have count := congrArg (List.count '\n') split
  rw [List.count_append, List.count_eq_zero_of_not_mem (unbroken_lastLine chars)] at count
  exact count

/-! ### Characters and bytes -/

theorem length_le_byteLength (chars : List Char) : chars.length ≤ byteLength chars := by
  induction chars with
  | nil => rfl
  | cons char chars inductionHypothesis =>
    rw [List.length_cons, byteLength_cons, Nat.add_comm]
    exact Nat.add_le_add char.utf8Size_pos inductionHypothesis

/-- A text has as many bytes as characters if all its characters have one byte. -/
theorem byteLength_eq_length_iff {chars : List Char} :
    byteLength chars = chars.length ↔ ∀ char ∈ chars, char.utf8Size = 1 := by
  induction chars with
  | nil => simp
  | cons char chars inductionHypothesis =>
    rw [List.forall_mem_cons, ← inductionHypothesis, byteLength_cons, List.length_cons]
    have size := char.utf8Size_pos
    have rest := length_le_byteLength chars
    omega

end Text

open Text

/-! ### Places on their lines -/

namespace SourceFile

variable {file : SourceFile} {before inside after : List Char}

/-- Lines start after the offset of a text and up to its end. -/
theorem startsAfter_bounds {offset start : Nat} {chars : List Char}
    (member : start ∈ startsAfter offset chars) :
    offset < start ∧ start ≤ offset + byteLength chars := by
  induction chars generalizing offset with
  | nil => exact absurd member List.not_mem_nil
  | cons char chars inductionHypothesis =>
    have size := char.utf8Size_pos
    rw [byteLength_cons]
    rw [startsAfter] at member
    split_ifs at member
    · obtain rfl | later := List.mem_cons.mp member
      · omega
      · have bounds := inductionHypothesis later
        omega
    · have bounds := inductionHypothesis member
      omega

/-- The starts up to the end of a front of a text are those inside the front. -/
theorem startsUpTo_byteLength (whole : file.text.toList = before ++ after) :
    file.lineStarts.takeWhile (· ≤ byteLength before) = 0 :: startsAfter 0 before := by
  have early : ∀ start ∈ startsAfter 0 before, decide (start ≤ byteLength before) = true := by
    intro start member
    simpa using (startsAfter_bounds member).2
  have late : (startsAfter (byteLength before) after).takeWhile (· ≤ byteLength before) = [] := by
    refine List.takeWhile_eq_nil_iff.mpr fun nonempty => ?_
    simpa using (startsAfter_bounds (List.getElem_mem nonempty)).1
  rw [lineStarts, whole, startsAfter_append, Nat.zero_add,
    List.takeWhile_cons_of_pos (by simp), List.takeWhile_append_of_pos early, late,
    List.append_nil]

/-- The last of the lines in a text starts behind its last line break. -/
theorem getLastD_startsAfter {front : List Char}
    (starts : front = [] ∨ ∃ more, front = more ++ ['\n']) {line : List Char}
    (unbroken : '\n' ∉ line) :
    (0 :: startsAfter 0 (front ++ line)).getLastD 0 = byteLength front := by
  rw [startsAfter_append, startsAfter_eq_nil unbroken, List.append_nil]
  obtain rfl | ⟨more, rfl⟩ := starts
  · rfl
  · rw [startsAfter_break, List.getLastD_cons, List.getLastD_concat]

/-- The column of an offset counts the bytes of its line before it. -/
theorem lineColumn_byteLength (whole : file.text.toList = before ++ after) :
    file.lineColumn (byteLength before) =
      (before.count '\n' + 1, byteLength (lastLine before) + 1) := by
  obtain ⟨front, split, starts⟩ := exists_front before
  have last : (0 :: startsAfter 0 before).getLastD 0 = byteLength front := by
    have found := getLastD_startsAfter starts (unbroken_lastLine before)
    rwa [← split] at found
  have size : byteLength before = byteLength front + byteLength (lastLine before) := by
    rw [← byteLength_append, ← split]
  rw [lineColumn, startsUpTo_byteLength whole, last, List.length_cons, length_startsAfter, size,
    Nat.add_sub_cancel_left]

/-- The line that an offset is on, from its start to its end. -/
theorem lineText?_byteLength (whole : file.text.toList = before ++ after) :
    file.lineText? (before.count '\n' + 1) =
      some (String.ofList (lastLine before ++ firstLine after)) := by
  obtain ⟨front, split, starts⟩ := exists_front before
  obtain ⟨back, split', ends⟩ := exists_back after
  have isLine : IsLine front (lastLine before ++ firstLine after) back :=
    ⟨starts, by simp [unbroken_lastLine, unbroken_firstLine], ends⟩
  have parts : file.text.toList = front ++ (lastLine before ++ firstLine after ++ back) := by
    rw [List.append_assoc, ← split', ← List.append_assoc, ← split, whole]
  rw [count_eq_of_lastLine split]
  exact lineText?_of_isLine parts isLine

/-- A place that is not empty is shown on the line where it begins, up to the column where it
ends. -/
theorem spanOnLine?_eq {span : Span} (whole : file.text.toList = before ++ (inside ++ after))
    (starts : byteLength before = span.lo.toNat)
    (ends : byteLength (before ++ inside) = span.hi.toNat) (nonempty : inside ≠ []) :
    file.spanOnLine? span =
      some ⟨before.count '\n' + 1, byteLength (lastLine before) + 1,
        byteLength (lastLine (before ++ inside)) + 1,
        String.ofList (lastLine before ++ firstLine (inside ++ after))⟩ := by
  -- The place is not empty, so that it is not widened to one byte.
  have wide : (max span.hi (span.lo + 1)).toNat = span.hi.toNat := by
    have size := byteLength_pos nonempty
    have bound := span.hi.toNat_lt
    rw [byteLength_append] at ends
    have next : (span.lo + 1).toNat = span.lo.toNat + 1 := by
      rw [UInt32.toNat_add, Nat.mod_eq_of_lt]
      · rfl
      · show span.lo.toNat + 1 < _
        omega
    show (if span.hi ≤ span.lo + 1 then span.lo + 1 else span.hi).toNat = _
    split_ifs with short
    · have short : span.hi.toNat ≤ (span.lo + 1).toNat := short
      omega
    · rfl
  have whole' : file.text.toList = before ++ inside ++ after := by
    rw [whole, List.append_assoc]
  rw [spanOnLine?, wide, ← starts, ← ends, lineColumn_byteLength whole,
    lineColumn_byteLength whole']
  show (file.lineText? (before.count '\n' + 1)).map _ = _
  rw [lineText?_byteLength whole]
  rfl

end SourceFile

/-! ### Underlines -/

namespace Diagnostic

/-- The row under a line of source text: an empty gutter, then spaces, then carets. -/
def caretRow (line spaces carets : Nat) : String :=
  repeated ' ' line.repr.length ++ " | " ++ repeated ' ' spaces ++ repeated '^' carets

/-- How many carets are drawn for a place. If it goes on to another line, then its end is taken for
a column of the line where it begins. -/
def caretCount (before inside : List Char) : Nat :=
  if '\n' ∈ inside then max (byteLength (lastLine inside) - byteLength (lastLine before)) 1
  else byteLength inside

theorem caretCount_eq (before : List Char) {inside : List Char} (nonempty : inside ≠ []) :
    max (byteLength (lastLine (before ++ inside)) + 1 - (byteLength (lastLine before) + 1)) 1 =
      caretCount before inside := by
  rw [caretCount]
  split_ifs with broken
  · rw [lastLine_append_of_broken before broken, Nat.add_sub_add_right]
  · rw [lastLine_append_of_unbroken before broken, byteLength_append, Nat.add_sub_add_right,
      Nat.add_sub_cancel_left]
    exact Nat.max_eq_left (byteLength_pos nonempty)

/-- Rows are told apart by their spaces and by their carets. -/
theorem caretRow_eq_iff {line spaces carets spaces' carets' : Nat} :
    caretRow line spaces carets = caretRow line spaces' carets' ↔
      spaces = spaces' ∧ carets = carets' := by
  refine ⟨fun same => ?_, by rintro ⟨rfl, rfl⟩; rfl⟩
  have rows : List.replicate spaces ' ' ++ List.replicate carets '^' =
      List.replicate spaces' ' ' ++ List.replicate carets' '^' := by
    have chars := congrArg String.toList same
    simpa [caretRow, repeated] using chars
  have counts (char : Char) := congrArg (List.count char) rows
  constructor
  · simpa [List.count_replicate] using counts ' '
  · simpa [List.count_replicate] using counts '^'

/-- A pretty diagnostic ends with the source lines of its place. -/
theorem render_pretty {file : SourceFile} {diagnostic : Diagnostic} {span : Span} {place : LineSpan}
    (located : diagnostic.span = some span) (found : file.spanOnLine? span = some place) :
    ∃ top, diagnostic.render (some file) .pretty = top ++ sourceLines place := by
  show ∃ top, renderPretty diagnostic (some file) true = _
  simp only [renderPretty, located, Option.bind_eq_bind, Option.bind_some, found]
  exact ⟨_, rfl⟩

/-- Below a pretty diagnostic stand the line where its place begins and the row of carets. The row
has a space for each byte before the place, and `caretCount` carets. For a place on one line that is
a space for each character before the place and a caret for each of its characters, so that the
carets stand under the place, exactly if all these characters have one byte. -/
theorem underline_exact {file : SourceFile} {diagnostic : Diagnostic} {span : Span}
    {before inside after : List Char} (located : diagnostic.span = some span)
    (whole : file.text.toList = before ++ (inside ++ after))
    (starts : byteLength before = span.lo.toNat)
    (ends : byteLength (before ++ inside) = span.hi.toNat) (nonempty : inside ≠ []) :
    (∃ top, diagnostic.render (some file) .pretty = top ++
      [(before.count '\n' + 1).repr ++ " | " ++
          String.ofList (lastLine before ++ firstLine (inside ++ after)),
        caretRow (before.count '\n' + 1) (byteLength (lastLine before))
          (caretCount before inside)]) ∧
    ('\n' ∉ inside →
      ((diagnostic.render (some file) .pretty).getLast? =
        some (caretRow (before.count '\n' + 1) (lastLine before).length
          (firstLine inside).length) ↔
      ∀ char ∈ lastLine before ++ inside, char.utf8Size = 1)) := by
  obtain ⟨top, shown⟩ :=
    render_pretty located (SourceFile.spanOnLine?_eq whole starts ends nonempty)
  simp only [sourceLines, Nat.add_sub_cancel, caretCount_eq before nonempty] at shown
  refine ⟨⟨top ++ [_], by rw [shown, List.append_assoc]; rfl⟩, fun unbroken => ?_⟩
  have last : (diagnostic.render (some file) .pretty).getLast? = some (caretRow
      (before.count '\n' + 1) (byteLength (lastLine before)) (caretCount before inside)) := by
    rw [shown, List.getLast?_append]
    rfl
  rw [last, Option.some_inj, caretRow_eq_iff, firstLine_eq_self unbroken, caretCount,
    if_neg unbroken, byteLength_eq_length_iff, byteLength_eq_length_iff, List.forall_mem_append]

/-- An error at a place. -/
def errorAt (lo hi : UInt32) : Diagnostic :=
  { level := .error, message := "misfit", span := some ⟨lo, hi⟩ }

/-- A text whose second line is wrong, after a line with a character of two bytes. -/
def lateOperand : SourceFile :=
  ⟨"main.tern", "\"\u00e9\";\n1 + true;"⟩

theorem lateOperand_underlined :
    (∃ top, (errorAt 10 14).render (some lateOperand) .pretty =
      top ++ ["2 | 1 + true;", "  |     ^^^^"]) ∧
    ((errorAt 10 14).render (some lateOperand) .pretty).getLast? =
      some (caretRow 2 "1 + ".length "true".length) := by
  obtain ⟨rows, onOneLine⟩ := @underline_exact lateOperand (errorAt 10 14) ⟨10, 14⟩
    "\"\u00e9\";\n1 + ".toList "true".toList ";".toList rfl (by decide +kernel)
    (by decide +kernel) (by decide +kernel) (by decide +kernel)
  have plain : byteLength (lastLine "\"\u00e9\";\n1 + ".toList ++ "true".toList) =
      (lastLine "\"\u00e9\";\n1 + ".toList ++ "true".toList).length := by decide +kernel
  exact ⟨rows, (onOneLine (by decide +kernel)).mpr (byteLength_eq_length_iff.mp plain)⟩

/-- A sum whose second operand stands on a line of its own. -/
def spreadSum : SourceFile :=
  ⟨"main.tern", "\"a\" +\n     1"⟩

/-- A sum with a character of two bytes in its first operand. -/
def accentedSum : SourceFile :=
  ⟨"main.tern", "\"\u00e9\" + 1"⟩

/-- Both sums begin with their files and end with them, and neither begins with a line break. The
last row under a sum is not the row with a caret for each of its characters on the first line: the
carets are as many as the characters of the second line, or as the bytes of the sum, and run past
the text above them. -/
theorem underlines_overrun :
    let spread := (errorAt 0 12).render (some spreadSum) .pretty
    let accented := (errorAt 0 8).render (some accentedSum) .pretty
    (byteLength spreadSum.text.toList = 12 ∧ spreadSum.text.toList.head? = some '"' ∧
      (firstLine spreadSum.text.toList).length = 5 ∧
      spread.getLast? = some (caretRow 1 0 6) ∧
      spread.getLast? ≠ some (caretRow 1 0 (firstLine spreadSum.text.toList).length)) ∧
    byteLength accentedSum.text.toList = 8 ∧ accentedSum.text.toList.head? = some '"' ∧
      (firstLine accentedSum.text.toList).length = 7 ∧
      accented.getLast? = some (caretRow 1 0 8) ∧
      accented.getLast? ≠ some (caretRow 1 0 (firstLine accentedSum.text.toList).length) := by
  decide +kernel

end Diagnostic

end ArrowCheck
