/-
This file says where the tokens of a text stand. In a text that is short enough for
its offsets, no token is empty, each stands after the one before it, and all of
them stand inside the text. The place of several tokens in a row then runs from
the start of the first one to the end of the last one, and the places of parts of
a row are related as the parts are.
-/

import Mathlib.Algebra.Group.Nat.Defs
import Mathlib.Data.List.Infix
import ArrowCheck.Proofs.Lexemes

namespace ArrowCheck

/-! ### The size of a text -/

theorem Text.utf8ByteSize_ofList (chars : List Char) :
    (String.ofList chars).utf8ByteSize = byteLength chars := by
  induction chars with
  | nil => rfl
  | cons char chars inductionHypothesis =>
    rw [String.ofList_cons, String.utf8ByteSize_append, String.utf8ByteSize_singleton,
      inductionHypothesis]
    rfl

theorem Text.byteLength_toList (text : String) : byteLength text.toList = text.utf8ByteSize := by
  rw [← utf8ByteSize_ofList, String.ofList_toList]

/-- A text that is not empty takes bytes. -/
theorem Text.byteLength_pos {chars : List Char} (nonempty : chars ≠ []) : 0 < byteLength chars := by
  obtain ⟨char, rest, rfl⟩ := List.exists_cons_of_ne_nil nonempty
  rw [byteLength_cons]
  exact Nat.add_pos_left char.utf8Size_pos _

/-! ### Spans -/

namespace Span

theorem cover_self (span : Span) : span.cover span = span :=
  congrArg₂ mk (if_pos (UInt32.le_refl _)) (if_pos (UInt32.le_refl _))

/-- A span that starts first and one that ends last are covered from the one to the other. -/
theorem cover_of_le {first second : Span} (lo : first.lo ≤ second.lo) (hi : first.hi ≤ second.hi) :
    first.cover second = ⟨first.lo, second.hi⟩ :=
  congrArg₂ mk (if_pos lo) (if_pos hi)

end Span

namespace Token

/-! ### Tokens in a row -/

/-- No token is empty, and each of them stands after the one before it. -/
structure InOrder (tokens : List Token) : Prop where
  solid : ∀ token ∈ tokens, token.span.lo < token.span.hi
  apart : tokens.Pairwise fun first second => first.span.hi ≤ second.span.lo

/-- A span runs from the start of the first token to the end of the last one. -/
def Extent (tokens : List Token) (span : Span) : Prop :=
  ∃ first last, tokens.head? = some first ∧ tokens.getLast? = some last ∧
    span = ⟨first.span.lo, last.span.hi⟩

variable {tokens inner before between after : List Token} {token first last : Token}
  {span other : Span}

theorem extent_singleton (token : Token) : Extent [token] token.span :=
  ⟨token, token, rfl, rfl, rfl⟩

namespace InOrder

theorem of_infix (ordered : InOrder tokens) (isInfix : inner <:+: tokens) : InOrder inner :=
  ⟨fun token member => ordered.solid token (isInfix.mem member),
    ordered.apart.sublist isInfix.sublist⟩

theorem hi_le_lo (ordered : InOrder (before ++ after)) (early : first ∈ before)
    (late : last ∈ after) : first.span.hi ≤ last.span.lo :=
  (List.pairwise_append.mp ordered.apart).2.2 first early last late

/-- The first token starts before every other one. -/
theorem lo_le (ordered : InOrder tokens) (starts : tokens.head? = some first)
    (member : token ∈ tokens) : first.span.lo ≤ token.span.lo := by
  obtain ⟨rest, rfl⟩ := List.head?_eq_some_iff.mp starts
  obtain rfl | later := List.mem_cons.mp member
  · exact UInt32.le_refl _
  · have apart : first.span.hi ≤ token.span.lo :=
      (List.pairwise_cons.mp ordered.apart).1 token later
    exact UInt32.le_of_lt (UInt32.lt_of_lt_of_le (ordered.solid first List.mem_cons_self) apart)

/-- The last token ends after every other one. -/
theorem le_hi (ordered : InOrder tokens) (ends : tokens.getLast? = some last)
    (member : token ∈ tokens) : token.span.hi ≤ last.span.hi := by
  obtain ⟨rest, rfl⟩ := List.getLast?_eq_some_iff.mp ends
  obtain earlier | same := List.mem_append.mp member
  · have apart := ordered.hi_le_lo earlier (List.mem_singleton_self last)
    have solid := ordered.solid last (List.mem_append_right _ List.mem_cons_self)
    exact UInt32.le_of_lt (UInt32.lt_of_le_of_lt apart solid)
  · rw [List.mem_singleton.mp same]
    exact UInt32.le_refl _

end InOrder

namespace Extent

theorem exists_mem (extent : Extent tokens span) :
    ∃ first ∈ tokens, ∃ last ∈ tokens, span = ⟨first.span.lo, last.span.hi⟩ := by
  obtain ⟨first, last, starts, ends, same⟩ := extent
  exact ⟨first, List.mem_of_mem_head? starts, last, List.mem_of_mem_getLast? ends, same⟩

/-- The places at both ends of a row of tokens cover the place of the row. -/
theorem cover (extent : Extent before span) (extent' : Extent after other)
    (ordered : InOrder (before ++ between ++ after)) :
    Extent (before ++ between ++ after) (span.cover other) := by
  obtain ⟨first, last, starts, ends, rfl⟩ := extent
  obtain ⟨first', last', starts', ends', rfl⟩ := extent'
  have early := List.mem_append_left between (List.mem_of_mem_head? starts)
  have early' := List.mem_append_left between (List.mem_of_mem_getLast? ends)
  have late := List.mem_of_mem_head? starts'
  have late' := List.mem_of_mem_getLast? ends'
  refine ⟨first, last', ?_, ?_, Span.cover_of_le ?_ ?_⟩
  · rw [List.append_assoc, List.head?_append, starts, Option.some_or]
  · rw [List.getLast?_append, ends', Option.some_or]
  · refine ordered.lo_le ?_ (List.mem_append_right _ late)
    rw [List.append_assoc, List.head?_append, starts, Option.some_or]
  · refine ordered.le_hi ?_ (List.mem_append_left _ early')
    rw [List.getLast?_append, ends', Option.some_or]

theorem lo_lt_hi (extent : Extent tokens span) (ordered : InOrder tokens) : span.lo < span.hi := by
  obtain ⟨first, last, starts, ends, rfl⟩ := extent
  have member := List.mem_of_mem_head? starts
  exact UInt32.lt_of_lt_of_le (ordered.solid first member) (ordered.le_hi ends member)

/-- A part of a row of tokens has its place inside that of the row. -/
theorem inside (extent : Extent inner span) (extent' : Extent tokens other)
    (ordered : InOrder tokens) (isInfix : inner <:+: tokens) :
    other.lo ≤ span.lo ∧ span.hi ≤ other.hi := by
  obtain ⟨first, early, last, late, rfl⟩ := extent.exists_mem
  obtain ⟨first', last', starts, ends, rfl⟩ := extent'
  exact ⟨ordered.lo_le starts (isInfix.mem early), ordered.le_hi ends (isInfix.mem late)⟩

/-- Parts of a row of tokens have places one after the other. -/
theorem hi_le_lo (extent : Extent inner span) {inner' : List Token} (extent' : Extent inner' other)
    (ordered : InOrder (before ++ after)) (isInfix : inner <:+: before)
    (isInfix' : inner' <:+: after) : span.hi ≤ other.lo := by
  obtain ⟨_, _, last, late, rfl⟩ := extent.exists_mem
  obtain ⟨first, early, _, _, rfl⟩ := extent'.exists_mem
  exact ordered.hi_le_lo (isInfix.mem late) (isInfix'.mem early)

end Extent

/-! ### The tokens of a text -/

theorem toNat_toUInt32 (offset : Nat) (short : offset < 2 ^ 32) : offset.toUInt32.toNat = offset :=
  UInt32.toNat_ofNat_of_lt' short

/-- The tokens of a short text stand in order, and inside the text. -/
theorem lexFrom_inOrder {offset : Nat} {chars : List Char} {tokens : List Token}
    (lexed : lexFrom offset chars = .ok tokens) (short : offset + Text.byteLength chars < 2 ^ 32) :
    InOrder tokens ∧ ∀ token ∈ tokens, offset ≤ token.span.lo.toNat ∧
      token.span.hi.toNat ≤ offset + Text.byteLength chars := by
  obtain ⟨_, _, rfl⟩ | ⟨blanks, char, rest, kind, lexeme, left, later, skipped, scanned, lexed',
    rfl⟩ := exists_of_lexFrom_eq_ok lexed
  · exact ⟨⟨List.forall_mem_nil _, .nil⟩, List.forall_mem_nil _⟩
  have shorter : left.length < chars.length :=
    (scan_length scanned).trans_le (skip_length skipped)
  obtain ⟨whole, nonempty⟩ := scan_append scanned
  have positive := Text.byteLength_pos nonempty
  have size : Text.byteLength chars =
      Text.byteLength blanks + (Text.byteLength lexeme + Text.byteLength left) := by
    rw [← skip_append skipped, ← whole, Text.byteLength_append, Text.byteLength_append]
  rw [size] at short
  obtain ⟨ordered, inside⟩ := lexFrom_inOrder lexed' (by omega)
  have start := toNat_toUInt32 (offset + Text.byteLength blanks) (by omega)
  have stop := toNat_toUInt32 (offset + Text.byteLength blanks + Text.byteLength lexeme) (by omega)
  refine ⟨⟨List.forall_mem_cons.mpr ⟨?_, ordered.solid⟩, .cons (fun token member => ?_)
    ordered.apart⟩, List.forall_mem_cons.mpr ⟨?_, fun token member => ?_⟩⟩
  · rw [UInt32.lt_iff_toNat_lt]
    show (offset + _).toUInt32.toNat < (offset + _ + _).toUInt32.toNat
    omega
  · rw [UInt32.le_iff_toNat_le]
    show (offset + _ + _).toUInt32.toNat ≤ _
    have after := (inside token member).1
    omega
  · show _ ≤ (offset + _).toUInt32.toNat ∧ (offset + _ + _).toUInt32.toNat ≤ _
    omega
  · have within := inside token member
    omega
termination_by chars.length

theorem lex_inOrder {text : String} {tokens : List Token} (lexed : lex text = .ok tokens)
    (short : text.utf8ByteSize < 2 ^ 32) :
    InOrder tokens ∧ ∀ token ∈ tokens, token.span.hi.toNat ≤ text.utf8ByteSize := by
  rw [← Text.byteLength_toList, ← Nat.zero_add (Text.byteLength _)] at short ⊢
  obtain ⟨ordered, inside⟩ := lexFrom_inOrder lexed short
  exact ⟨ordered, fun token member => (inside token member).2⟩

end Token

end ArrowCheck
