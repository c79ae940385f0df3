/-
This file defines source files and the two ways of naming a place in one: a byte
offset, and a line with a column. Lines and columns count from one, and columns
count bytes. A table of the offsets at which lines start leads from the first to
the second.
-/

import ArrowCheck.Span
import ArrowCheck.Text.Slice

namespace ArrowCheck

/-- A text together with the path under which it is shown. -/
structure SourceFile where
  path : String
  text : String
deriving DecidableEq, Repr, Inhabited

/-- Where a span begins on its line, where it ends, and the text of that line. -/
structure LineSpan where
  line : Nat
  firstColumn : Nat
  endColumn : Nat
  text : String
deriving DecidableEq, Repr

namespace SourceFile

/-- The offsets just after the line breaks of a text that begins at a given offset. -/
def startsAfter (offset : Nat) : List Char → List Nat
  | [] => []
  | char :: rest =>
    let next := offset + char.utf8Size
    if char = '\n' then next :: startsAfter next rest else startsAfter next rest

/-- The offsets at which the lines of a file start, in increasing order. -/
def lineStarts (file : SourceFile) : List Nat :=
  0 :: startsAfter 0 file.text.toList

/-- The line and column of an offset: the last line that starts at or before it, and the distance
from that start. An offset past the end is placed on the last line. -/
def lineColumn (file : SourceFile) (offset : Nat) : Nat × Nat :=
  let passed := file.lineStarts.takeWhile (· ≤ offset)
  (passed.length, offset - passed.getLastD 0 + 1)

/-- The text of a line, if the file has that line: what stands between its start and the start of
the next line or the end of the file, without the line break. -/
def lineText? (file : SourceFile) (line : Nat) : Option String := do
  if line = 0 then none
  else
    let start ← file.lineStarts[line - 1]?
    let stop := file.lineStarts[line]?.getD file.text.utf8ByteSize
    let chars ← Text.slice? start stop file.text.toList
    pure (String.ofList (Text.dropLastBreaks chars))

/-- The place of a span on the line where it begins. An empty span is taken to be one byte wide. The
end column is counted on the line where the span ends. -/
def spanOnLine? (file : SourceFile) (span : Span) : Option LineSpan :=
  let (line, firstColumn) := file.lineColumn span.lo.toNat
  let (_, endColumn) := file.lineColumn (max span.hi (span.lo + 1)).toNat
  (file.lineText? line).map fun text => ⟨line, firstColumn, endColumn, text⟩

/-- A place in words: path, line and column in a file, the bare position without one. -/
def describe (span : Option Span) (file : Option SourceFile) : String :=
  match span, file with
  | some span, some file =>
    let (line, column) := file.lineColumn span.lo.toNat
    file.path ++ ":" ++ line.repr ++ ":" ++ column.repr
  | some span, none => "position " ++ span.position.repr
  | none, _ => "unknown position"

end SourceFile

end ArrowCheck
