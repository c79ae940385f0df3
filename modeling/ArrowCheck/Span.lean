/-
This file defines spans: the stretches of source text that tokens, tree nodes
and diagnostics stand for. A span is a pair of byte offsets. Offsets are 32-bit
words, so a span describes its stretch faithfully only in a text shorter than
`2 ^ 32` bytes; in a longer one the offsets wrap around.
-/

namespace ArrowCheck

/-- The half-open stretch of text from the byte at `lo` up to the byte at `hi`. -/
structure Span where
  lo : UInt32
  hi : UInt32
deriving DecidableEq, Repr, Inhabited

namespace Span

/-- The span between two byte offsets, each reduced to its low 32 bits. -/
def ofOffsets (lo hi : Nat) : Span :=
  ⟨lo.toUInt32, hi.toUInt32⟩

/-- The smallest span that holds both spans. -/
def cover (first second : Span) : Span :=
  ⟨min first.lo second.lo, max first.hi second.hi⟩

/-- The span over both sides when both are known, and the known side otherwise. -/
def join : Option Span → Option Span → Option Span
  | some first, some second => some (first.cover second)
  | some first, none => some first
  | none, second => second

/-- The offset at which a span is reported. -/
def position (span : Span) : Nat :=
  span.lo.toNat

/-- The two offsets with two points between them. -/
def text (span : Span) : String :=
  span.lo.toNat.repr ++ ".." ++ span.hi.toNat.repr

end Span

end ArrowCheck
