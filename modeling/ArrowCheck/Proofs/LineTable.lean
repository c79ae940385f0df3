/-
This file proves that lines and columns are counted right. What they are counted
from is the bytes of a file: the line of an offset is one more than the number of
line breaks before it, and its column is the distance from the last of these. The
table of line starts holds the positions just after the breaks and is increasing,
so looking for the last start that is not past an offset finds that break, and so
does a binary search.

The table also leads from the number of a line to its text: what stands between its
start and the next one, less the break at the end. Only that break is taken off,
since there is none inside a line. A file has one line more than line breaks, and its
lines with a break between each two are the file.
-/

import Mathlib.Data.List.Basic
import ArrowCheck.Source
import ArrowCheck.Proofs.TokenPlaces

namespace ArrowCheck

/-! ### Line breaks among bytes -/

/-- The byte of a line break is not part of any other character. -/
theorem Text.break_not_mem_utf8EncodeChar {char : Char} (other : char ≠ '\n') :
    (10 : UInt8) ∉ String.utf8EncodeChar char := by
  have code : char.val.toNat ≠ 10 := fun same => other (Char.ext (UInt32.toNat_inj.mp same))
  intro member
  have bytes := List.mem_map_of_mem (f := UInt8.toNat) member
  rw [String.utf8EncodeChar] at bytes
  split_ifs at bytes with one two three
  all_goals
    simp only [List.map_cons, List.map_nil, List.mem_cons, List.not_mem_nil, or_false,
      UInt8.toNat_ofNat', UInt8.reduceToNat] at bytes
    omega

namespace SourceFile

/-- The bytes of a file. -/
def bytes (file : SourceFile) : List UInt8 :=
  file.text.toByteArray.data.toList

/-- The positions of the line breaks among the bytes of a file. -/
def breaks (file : SourceFile) : List Nat :=
  file.bytes.idxsOf 10

/-- The positions of the line breaks before an offset. -/
def breaksBelow (file : SourceFile) (offset : Nat) : List Nat :=
  file.breaks.filter (· < offset)

/-- The position just after the last line break before an offset, or else the start of the file. -/
def startBelow (file : SourceFile) (offset : Nat) : Nat :=
  ((file.breaksBelow offset).getLast?.map (· + 1)).getD 0

theorem bytes_eq (file : SourceFile) :
    file.bytes = file.text.toList.flatMap String.utf8EncodeChar := by
  rw [bytes, ← String.utf8Encode_toList]
  exact List.toList_data_toByteArray

/-- Characters and bytes agree on where the lines start. -/
theorem startsAfter_eq (offset : Nat) (chars : List Char) :
    startsAfter offset chars =
      ((chars.flatMap String.utf8EncodeChar).idxsOf 10 offset).map (· + 1) := by
  induction chars generalizing offset with
  | nil => rfl
  | cons char chars inductionHypothesis =>
    rw [List.flatMap_cons, List.idxsOf_append, String.length_utf8EncodeChar, startsAfter]
    split_ifs with isBreak
    · subst isBreak
      rw [inductionHypothesis]
      rfl
    · have none : (String.utf8EncodeChar char).idxsOf 10 offset = [] := by
        refine List.findIdxs_eq_nil_iff.mpr fun byte member => beq_eq_false_iff_ne.mpr ?_
        rintro rfl
        exact Text.break_not_mem_utf8EncodeChar isBreak member
      rw [none, List.nil_append, inductionHypothesis]

/-- The lines start at the start of the file and just after its line breaks. -/
theorem lineStarts_eq (file : SourceFile) :
    file.lineStarts = 0 :: file.breaks.map (· + 1) := by
  rw [lineStarts, startsAfter_eq, breaks, bytes_eq]

/-- The table of line starts is increasing. -/
theorem lineStarts_increasing (file : SourceFile) : file.lineStarts.Pairwise (· < ·) := by
  rw [lineStarts_eq, List.pairwise_cons]
  constructor
  · intro start member
    obtain ⟨position, -, rfl⟩ := List.mem_map.mp member
    exact Nat.succ_pos position
  · have increasing : file.breaks.Pairwise (· < ·) := List.pairwise_idxsOf
    exact increasing.map _ fun _ _ => Nat.succ_lt_succ

/-! ### Lines and columns -/

/-- In an increasing list the members up to a bound stand before all others. -/
theorem takeWhile_le_eq_filter {numbers : List Nat} (increasing : numbers.Pairwise (· < ·))
    (bound : Nat) : numbers.takeWhile (· ≤ bound) = numbers.filter (· ≤ bound) := by
  induction increasing with
  | nil => rfl
  | @cons number numbers least increasing inductionHypothesis =>
    by_cases within : number ≤ bound
    · rw [List.takeWhile_cons_of_pos (by simpa using within),
        List.filter_cons_of_pos (by simpa using within), inductionHypothesis]
    · have past : ∀ later ∈ number :: numbers, ¬ later ≤ bound := by
        refine List.forall_mem_cons.mpr ⟨within, fun later member => ?_⟩
        exact fun small => within ((least later member).le.trans small)
      rw [List.takeWhile_cons_of_neg (by simpa using within),
        List.filter_eq_nil_iff.mpr (by simpa using past)]

/-- The starts that are not past an offset are those after the line breaks before it. -/
theorem startsUpTo_eq (file : SourceFile) (offset : Nat) :
    file.lineStarts.takeWhile (· ≤ offset) = 0 :: (file.breaksBelow offset).map (· + 1) := by
  rw [takeWhile_le_eq_filter file.lineStarts_increasing, lineStarts_eq,
    List.filter_cons_of_pos (by simp), List.filter_map]
  rfl

theorem lineColumn_eq (file : SourceFile) (offset : Nat) :
    file.lineColumn offset =
      (1 + (file.breaksBelow offset).length, offset - file.startBelow offset + 1) := by
  have last : (0 :: (file.breaksBelow offset).map (· + 1)).getLastD 0 = file.startBelow offset := by
    rw [List.getLastD_cons, List.getLastD_eq_getLast?, List.getLast?_map, startBelow]
  rw [lineColumn, startsUpTo_eq, last, List.length_cons, List.length_map, Nat.add_comm 1]

/-! ### Lines by binary search -/

/-- The answers of a binary search in an increasing list: the position of the number, or else the
position where it would have to be inserted to keep the order. -/
inductive Searches (numbers : List Nat) (number : Nat) : Except Nat Nat → Prop
  | found {index : Nat} (member : numbers[index]? = some number) :
    Searches numbers number (.ok index)
  | absent {index : Nat} (within : index ≤ numbers.length)
    (below : ∀ other ∈ numbers.take index, other < number)
    (above : ∀ other ∈ numbers.drop index, number < other) :
    Searches numbers number (.error index)

/-- The position of a line in the table, from the answer of a search for an offset: that of the
start at the offset, or else the last one before the position where the offset would be inserted. -/
def lineIndex : Except Nat Nat → Nat
  | .ok index => index
  | .error index => index - 1

/-- If an increasing list is cut where a bound is passed, then the first part is what stands up to
the bound. -/
theorem takeWhile_le_eq_take {numbers : List Nat} {bound count : Nat}
    (within : ∀ number ∈ numbers.take count, number ≤ bound)
    (past : ∀ number ∈ numbers.drop count, bound < number) :
    numbers.takeWhile (· ≤ bound) = numbers.take count := by
  have stops : (numbers.drop count).takeWhile (· ≤ bound) = [] := by
    cases rest : numbers.drop count with
    | nil => rfl
    | cons first later =>
      have late := past first (by rw [rest]; exact List.mem_cons_self)
      exact List.takeWhile_cons_of_neg (by simpa using late)
  calc numbers.takeWhile (· ≤ bound)
    _ = (numbers.take count ++ numbers.drop count).takeWhile (· ≤ bound) := by
      rw [List.take_append_drop]
    _ = numbers.take count := by
      rw [List.takeWhile_append_of_pos (by simpa using within), stops, List.append_nil]

/-- The last start that is not past an offset gives its line and its column. -/
theorem lineColumn_of_take {file : SourceFile} {offset index : Nat}
    (within : index < file.lineStarts.length)
    (passed : file.lineStarts.takeWhile (· ≤ offset) = file.lineStarts.take (index + 1)) :
    file.lineColumn offset = (index + 1, offset - file.lineStarts[index]?.getD 0 + 1) := by
  have size : (file.lineStarts.take (index + 1)).length = index + 1 :=
    List.length_take_of_le within
  have last : (file.lineStarts.take (index + 1)).getLastD 0 = file.lineStarts[index]?.getD 0 := by
    rw [List.getLastD_eq_getLast?, List.getLast?_take, if_neg (Nat.succ_ne_zero index),
      Nat.add_sub_cancel, List.getElem?_eq_getElem within]
    rfl
  rw [lineColumn, passed, size, last]

/-- Lines and columns may be looked up by binary search: whatever its answer is, it leads to the
same line and the same column. -/
theorem lineColumn_of_searches {file : SourceFile} {offset : Nat} {answer : Except Nat Nat}
    (searches : Searches file.lineStarts offset answer) :
    file.lineColumn offset =
      (lineIndex answer + 1, offset - file.lineStarts[lineIndex answer]?.getD 0 + 1) := by
  cases searches with
  | @found index member =>
    obtain ⟨within, same⟩ := List.getElem?_eq_some_iff.mp member
    have increasing := file.lineStarts_increasing
    rw [← List.take_append_drop index file.lineStarts, List.drop_eq_getElem_cons within, same,
      List.pairwise_append, List.pairwise_cons] at increasing
    obtain ⟨_, ⟨above, _⟩, below⟩ := increasing
    have upTo : ∀ start ∈ file.lineStarts.take (index + 1), start ≤ offset := by
      intro start earlier
      rw [← List.take_append_getElem within, same] at earlier
      rcases List.mem_append.mp earlier with earlier | here
      · exact (below start earlier offset List.mem_cons_self).le
      · exact (List.mem_singleton.mp here).le
    exact lineColumn_of_take within (takeWhile_le_eq_take upTo above)
  | @absent index within below above =>
    -- The first start is never past an offset, so the offset is not inserted before it.
    obtain ⟨index, rfl⟩ : ∃ fewer, index = fewer + 1 := by
      refine Nat.exists_eq_succ_of_ne_zero fun first => ?_
      subst first
      exact Nat.not_lt_zero _ (above 0 List.mem_cons_self)
    exact lineColumn_of_take within
      (takeWhile_le_eq_take (fun start earlier => (below start earlier).le) above)

/-! ### One line -/

theorem startsAfter_append (offset : Nat) (first second : List Char) :
    startsAfter offset (first ++ second) =
      startsAfter offset first ++ startsAfter (offset + Text.byteLength first) second := by
  induction first generalizing offset with
  | nil => rfl
  | cons char first inductionHypothesis =>
    rw [List.cons_append, startsAfter, startsAfter, inductionHypothesis, Text.byteLength_cons,
      ← Nat.add_assoc]
    split_ifs <;> rfl

theorem length_startsAfter (offset : Nat) (chars : List Char) :
    (startsAfter offset chars).length = chars.count '\n' := by
  induction chars generalizing offset with
  | nil => rfl
  | cons char chars inductionHypothesis =>
    rw [startsAfter]
    split_ifs with isBreak
    · rw [isBreak, List.count_cons_self, List.length_cons, inductionHypothesis]
    · rw [List.count_cons_of_ne isBreak, inductionHypothesis]

/-- No line starts inside a text without line breaks. -/
theorem startsAfter_eq_nil {chars : List Char} (unbroken : '\n' ∉ chars) (offset : Nat) :
    startsAfter offset chars = [] := by
  rw [← List.length_eq_zero_iff, length_startsAfter, List.count_eq_zero_of_not_mem unbroken]

/-- A line break at the end of a text starts one more line, where the text ends. -/
theorem startsAfter_break (front : List Char) :
    startsAfter 0 (front ++ ['\n']) =
      startsAfter 0 front ++ [Text.byteLength (front ++ ['\n'])] := by
  rw [startsAfter_append, Text.byteLength_append, Nat.zero_add]
  rfl

/-- A line and what stands before and after it. A line starts with the text or behind a line break,
has no line break in it, and ends with the text or before a line break. -/
structure IsLine (before line after : List Char) : Prop where
  starts : before = [] ∨ ∃ front, before = front ++ ['\n']
  unbroken : '\n' ∉ line
  ends : after = [] ∨ ∃ rest, after = '\n' :: rest

variable {file : SourceFile} {before line after : List Char}

/-- The table has the start of a line at the number of line breaks before it. -/
theorem lineStarts_start (whole : file.text.toList = before ++ (line ++ after))
    (isLine : IsLine before line after) :
    file.lineStarts[before.count '\n']? = some (Text.byteLength before) := by
  rw [lineStarts, whole, startsAfter_append]
  obtain rfl | ⟨front, rfl⟩ := isLine.starts
  · rfl
  · have count : (front ++ ['\n']).count '\n' = (startsAfter 0 front).length + 1 := by
      rw [List.count_append, length_startsAfter]
      rfl
    rw [startsAfter_break, count, List.getElem?_cons_succ, List.append_assoc,
      List.getElem?_append_right (Nat.le_refl _), Nat.sub_self]
    rfl

/-- After the start of a line the table has the start of the next one, if there is one. -/
theorem lineStarts_next (whole : file.text.toList = before ++ (line ++ after))
    (isLine : IsLine before line after) :
    file.lineStarts[before.count '\n' + 1]? =
      (startsAfter (Text.byteLength (before ++ line)) after).head? := by
  have count : before.count '\n' = (startsAfter 0 before).length := (length_startsAfter _ _).symm
  rw [lineStarts, whole, startsAfter_append, startsAfter_append,
    startsAfter_eq_nil isLine.unbroken, List.nil_append, List.getElem?_cons_succ, count,
    List.getElem?_append_right (Nat.le_refl _), Nat.sub_self, Text.byteLength_append,
    Nat.zero_add, List.head?_eq_getElem?]

/-- What is cut out for a line ends behind its line break, or with the text if it has none. -/
theorem exists_stop (whole : file.text.toList = before ++ (line ++ after))
    (isLine : IsLine before line after) :
    ∃ breaks rest, after = breaks ++ rest ∧ (∀ char ∈ breaks, char = '\n') ∧
      file.lineStarts[before.count '\n' + 1]?.getD file.text.utf8ByteSize =
        Text.byteLength (before ++ (line ++ breaks)) := by
  rw [lineStarts_next whole isLine]
  obtain rfl | ⟨rest, rfl⟩ := isLine.ends
  · refine ⟨[], [], rfl, by simp, ?_⟩
    rw [← Text.byteLength_toList, whole]
    rfl
  · refine ⟨['\n'], rest, rfl, by simp, ?_⟩
    rw [← List.append_assoc, Text.byteLength_append (before ++ line)]
    rfl

/-- Of a line without line breaks inside, only those at its end are taken off. -/
theorem dropLastBreaks_of_unbroken (unbroken : '\n' ∉ line) {breaks : List Char}
    (each : ∀ char ∈ breaks, char = '\n') : Text.dropLastBreaks (line ++ breaks) = line := by
  have dropped : (line.reverse).dropWhile (· = '\n') = line.reverse := by
    refine List.dropWhile_eq_self_iff.mpr fun nonempty isBreak => unbroken ?_
    rw [← of_decide_eq_true isBreak]
    exact List.mem_reverse.mp (List.getElem_mem nonempty)
  rw [Text.dropLastBreaks, List.reverse_append, List.dropWhile_append_of_pos (by simpa using each),
    dropped, List.reverse_reverse]

/-- The text of a line is found by the number of line breaks before it. -/
theorem lineText?_of_isLine (whole : file.text.toList = before ++ (line ++ after))
    (isLine : IsLine before line after) :
    file.lineText? (before.count '\n' + 1) = some (String.ofList line) := by
  obtain ⟨breaks, rest, rfl, each, stop⟩ := exists_stop whole isLine
  have parts : file.text.toList = before ++ (line ++ breaks) ++ rest := by
    rw [whole, List.append_assoc, List.append_assoc]
  rw [lineText?, if_neg (Nat.succ_ne_zero _), Nat.add_sub_cancel, lineStarts_start whole isLine,
    stop, parts]
  show (Text.slice? _ _ _).bind _ = _
  rw [Text.slice?_byteLength]
  show some (String.ofList (Text.dropLastBreaks (line ++ breaks))) = _
  rw [dropLastBreaks_of_unbroken isLine.unbroken each]

/-! ### All lines -/

/-- There are no line breaks in the parts of a text between its line breaks. -/
theorem unbroken_of_mem_splitOn {chars : List Char} (member : line ∈ chars.splitOn '\n') :
    '\n' ∉ line := by
  induction chars generalizing line with
  | nil =>
    rw [List.mem_singleton.mp member]
    exact List.not_mem_nil
  | cons char chars inductionHypothesis =>
    rw [List.splitOn_cons_eq_if_modifyHead] at member
    split_ifs at member with isBreak
    · obtain rfl | later := List.mem_cons.mp member
      · exact List.not_mem_nil
      · exact inductionHypothesis later
    · obtain ⟨first, more, same⟩ := List.exists_cons_of_ne_nil (List.splitOn_ne_nil '\n' chars)
      rw [same, List.modifyHead_cons] at member
      rw [same] at inductionHypothesis
      obtain rfl | later := List.mem_cons.mp member
      · have other : char ≠ '\n' := by simpa using isBreak
        simpa [Ne.symm other] using inductionHypothesis List.mem_cons_self
      · exact inductionHypothesis (List.mem_cons_of_mem _ later)

/-- Among joined lines, each stands behind the lines before it with their breaks. -/
theorem intercalate_append (front : List (List Char)) (line : List Char)
    (back : List (List Char)) :
    ['\n'].intercalate (front ++ line :: back) =
      front.flatMap (· ++ ['\n']) ++ (line ++ back.flatMap ('\n' :: ·)) := by
  induction front with
  | nil =>
    induction back generalizing line with
    | nil => simp
    | cons next back inductionHypothesis =>
      have later := inductionHypothesis next
      simp_all [List.intercalate_cons_cons]
  | cons first front inductionHypothesis =>
    obtain ⟨next, more, same⟩ := List.exists_cons_of_ne_nil
      (List.append_ne_nil_of_right_ne_nil front (List.cons_ne_nil line back))
    rw [same] at inductionHypothesis
    rw [List.cons_append, same, List.intercalate_cons_cons, inductionHypothesis, List.flatMap_cons]
    simp

theorem isLine_of_lines {front back : List (List Char)}
    (unbroken : ∀ other ∈ front ++ line :: back, '\n' ∉ other) :
    IsLine (front.flatMap (· ++ ['\n'])) line (back.flatMap ('\n' :: ·)) := by
  refine ⟨?_, unbroken line (by simp), ?_⟩
  · rcases front.eq_nil_or_concat with rfl | ⟨others, last, rfl⟩
    · exact Or.inl rfl
    · exact Or.inr ⟨others.flatMap (· ++ ['\n']) ++ last, by simp⟩
  · cases back with
    | nil => exact Or.inl rfl
    | cons next back => exact Or.inr ⟨next ++ back.flatMap ('\n' :: ·), rfl⟩

/-- Lines with a break behind each have as many breaks as there are lines. -/
theorem count_flatMap_break {lines : List (List Char)} (unbroken : ∀ line ∈ lines, '\n' ∉ line) :
    (lines.flatMap (· ++ ['\n'])).count '\n' = lines.length := by
  induction lines with
  | nil => rfl
  | cons line lines inductionHypothesis =>
    rw [List.forall_mem_cons] at unbroken
    rw [List.flatMap_cons, List.count_append, List.count_append,
      List.count_eq_zero_of_not_mem unbroken.1, inductionHypothesis unbroken.2, List.length_cons]
    simp [Nat.add_comm]

theorem length_breaks (file : SourceFile) : file.breaks.length = file.text.toList.count '\n' := by
  have lengths := congrArg List.length file.lineStarts_eq
  rw [lineStarts, List.length_cons, List.length_cons, length_startsAfter,
    List.length_map] at lengths
  exact (Nat.succ.inj lengths).symm

/-- The lines of a file: the parts of its text between line breaks. -/
def lines (file : SourceFile) : List (List Char) :=
  file.text.toList.splitOn '\n'

theorem intercalate_lines (file : SourceFile) : ['\n'].intercalate file.lines = file.text.toList :=
  List.intercalate_splitOn '\n'

/-- A file has one line more than line breaks. -/
theorem length_lines (file : SourceFile) : file.lines.length = 1 + file.breaks.length := by
  obtain ⟨front, last, same⟩ := (List.eq_nil_or_concat' file.lines).resolve_left
    (List.splitOn_ne_nil '\n' file.text.toList)
  have unbroken : ∀ line ∈ front ++ [last], '\n' ∉ line :=
    same ▸ fun _ => unbroken_of_mem_splitOn
  rw [List.forall_mem_append, List.forall_mem_singleton] at unbroken
  rw [length_breaks, ← intercalate_lines, same, intercalate_append, List.count_append,
    count_flatMap_break unbroken.1, List.flatMap_nil, List.append_nil,
    List.count_eq_zero_of_not_mem unbroken.2, List.length_append]
  exact Nat.add_comm _ _

/-- The table leads from the numbers of the lines to the lines, and from no other number to any. -/
theorem lineText?_succ (file : SourceFile) (index : Nat) :
    file.lineText? (index + 1) = file.lines[index]?.map String.ofList := by
  by_cases within : index < file.lines.length
  · have split : file.lines = file.lines.take index ++
        file.lines[index] :: file.lines.drop (index + 1) := by
      rw [List.getElem_cons_drop, List.take_append_drop]
    have unbroken : ∀ line ∈ file.lines, '\n' ∉ line := fun _ => unbroken_of_mem_splitOn
    have count : ((file.lines.take index).flatMap (· ++ ['\n'])).count '\n' = index := by
      rw [count_flatMap_break fun line member => unbroken line (List.mem_of_mem_take member),
        List.length_take, Nat.min_eq_left within.le]
    -- The lines before this one, with their breaks, have as many breaks as there are such lines.
    have whole := file.intercalate_lines
    rw [split, intercalate_append] at whole
    rw [split] at unbroken
    have found := lineText?_of_isLine whole.symm (isLine_of_lines unbroken)
    rw [count] at found
    rw [found, List.getElem?_eq_getElem within]
    rfl
  · have size : file.lineStarts.length ≤ index := by
      rw [lineStarts_eq, List.length_cons, List.length_map, Nat.add_comm, ← length_lines]
      exact Nat.le_of_not_lt within
    rw [List.getElem?_eq_none (Nat.le_of_not_lt within), lineText?, if_neg (Nat.succ_ne_zero _),
      Nat.add_sub_cancel, List.getElem?_eq_none size]
    rfl

/-- What is found for the numbers from one on is found in order. -/
theorem filterMap_range'_eq {α : Type} {find : Nat → Option α} {items : List α} {first : Nat}
    (found : ∀ index, find (first + index) = items[index]?) :
    (List.range' first items.length).filterMap find = items := by
  induction items generalizing first with
  | nil => rfl
  | cons item items inductionHypothesis =>
    have head : find first = some item := found 0
    rw [List.length_cons, List.range'_succ, List.filterMap_cons_some head]
    refine congrArg _ (inductionHypothesis fun index => ?_)
    rw [Nat.add_assoc, Nat.add_comm 1, found, List.getElem?_cons_succ]

/-- Lines and columns of a file. The line of an offset is one more than the number of line breaks
before it, and its column is one more than the distance from the last of them, also past the end of
the file. The lines that have a text are as many as the line breaks and one more, counted from one,
and with a line break between each two they are the file. -/
theorem line_table_exact (file : SourceFile) :
    (∀ offset, file.lineColumn offset =
      (1 + (file.breaksBelow offset).length, offset - file.startBelow offset + 1)) ∧
    (∀ line, (file.lineText? line).isSome ↔ 1 ≤ line ∧ line ≤ 1 + file.breaks.length) ∧
    "\n".intercalate ((List.range' 1 (1 + file.breaks.length)).filterMap file.lineText?) =
      file.text := by
  refine ⟨file.lineColumn_eq, fun line => ?_, ?_⟩
  · cases line with
    | zero => simp [lineText?]
    | succ index =>
      rw [lineText?_succ, Option.isSome_map, isSome_getElem?, length_lines]
      omega
  · have numbered : ∀ index,
        file.lineText? (1 + index) = (file.lines.map String.ofList)[index]? := by
      intro index
      rw [Nat.add_comm, lineText?_succ, List.getElem?_map]
    have all := filterMap_range'_eq numbered
    rw [List.length_map, length_lines] at all
    have chars : (file.lines.map String.ofList).map String.toList = file.lines := by
      simp [Function.comp_def]
    rw [all, ← String.toList_inj, String.toList_intercalate, chars]
    exact file.intercalate_lines

end SourceFile

end ArrowCheck
