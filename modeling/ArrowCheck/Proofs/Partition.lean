/-
This file proves that splitting a text into tokens loses nothing. The lexeme of
each token is the stretch of the text at the token's place, the places stand one
after the other, and what is left of the text before, between and after them is
nothing but blanks and comments.

Blanks and comments are described without the scanner. A line comment reaches up to
the end of its line, so only the last one of a text may lack a line break, and a
block comment ends where it is closed first.
-/

import ArrowCheck.Proofs.LexemeClasses
import ArrowCheck.Proofs.TokenPlaces

namespace ArrowCheck

/-! ### Stretches of a text -/

/-- The characters of a text from the byte at one offset up to the byte at another one. -/
def Text.Stretch (text : String) (lo hi : Nat) (chars : List Char) : Prop :=
  ∃ before after, text.toList = before ++ chars ++ after ∧ byteLength before = lo ∧
    byteLength (before ++ chars) = hi

namespace Token

/-! ### Blanks and comments -/

/-- A row of blanks and comments. Whether the text ends with it decides whether a line comment may
end without a line break. -/
inductive Trivia : (atEnd : Bool) → List Char → Prop where
  | nil (atEnd : Bool) : Trivia atEnd []
  | blank {atEnd : Bool} {char : Char} {rest : List Char} (isBlank : Text.isBlank char)
      (more : Trivia atEnd rest) : Trivia atEnd (char :: rest)
  | line {atEnd : Bool} {comment rest : List Char} (unbroken : '\n' ∉ comment)
      (more : Trivia atEnd rest) : Trivia atEnd ('/' :: '/' :: comment ++ '\n' :: rest)
  | lastLine {comment : List Char} (unbroken : '\n' ∉ comment) :
      Trivia true ('/' :: '/' :: comment)
  | block {atEnd : Bool} {comment rest : List Char} (unclosed : ¬ ['*', '/'] <:+: comment)
      (more : Trivia atEnd rest) : Trivia atEnd ('/' :: '*' :: comment ++ '*' :: '/' :: rest)

/-- What is skipped in a region of a text before what is left: inside a comment that is the rest of
the comment and what comes after it. -/
def Skipped (left : List Char) : Region → List Char → Prop
  | .between, read => Trivia left.isEmpty read
  | .lineComment, read =>
    (∃ comment rest, read = comment ++ '\n' :: rest ∧ '\n' ∉ comment ∧
      Trivia left.isEmpty rest) ∨ '\n' ∉ read ∧ left = []
  | .blockComment, read =>
    ∃ comment rest, read = comment ++ '*' :: '/' :: rest ∧ ¬ ['*', '/'] <:+: comment ∧
      Trivia left.isEmpty rest

theorem skipped_line {char : Char} {read left : List Char} (unbroken : char ≠ '\n')
    (skipped : Skipped left .lineComment read) : Skipped left .lineComment (char :: read) := by
  rcases skipped with ⟨comment, rest, rfl, unbroken', trivia⟩ | ⟨unbroken', nothing⟩
  · exact Or.inl ⟨char :: comment, rest, rfl, by simp [unbroken.symm, unbroken'], trivia⟩
  · exact Or.inr ⟨by simp [unbroken.symm, unbroken'], nothing⟩

/-- One more character in front of a block comment does not close it, unless it does so together
with the next one. -/
theorem unclosed_cons {char : Char} {comment : List Char}
    (goesOn : ∀ more, char = '*' → comment = '/' :: more → False)
    (unclosed : ¬ ['*', '/'] <:+: comment) : ¬ ['*', '/'] <:+: char :: comment := by
  intro closed
  rcases List.infix_cons_iff.mp closed with atFront | later
  · obtain ⟨same, more, rfl⟩ := List.cons_prefix_cons.mp atFront
    exact goesOn more same.symm rfl
  · exact unclosed later

theorem skipped_block {char : Char} {read left : List Char}
    (goesOn : ∀ more, char = '*' → read = '/' :: more → False)
    (skipped : Skipped left .blockComment read) : Skipped left .blockComment (char :: read) := by
  obtain ⟨comment, rest, rfl, unclosed, trivia⟩ := skipped
  refine ⟨char :: comment, rest, rfl, unclosed_cons (fun more same front => ?_) unclosed, trivia⟩
  rw [front] at goesOn
  exact goesOn _ same rfl

/-- What is skipped is a row of blanks and comments. -/
theorem skip_skipped {region : Region} {chars read left : List Char}
    (skips : skip region chars = some (read, left)) : Skipped left region read := by
  fun_induction skip region chars generalizing read with
  | case1 rest inductionHypothesis =>
    obtain ⟨more, skips', rfl⟩ := exists_of_extend_eq_some skips
    rcases inductionHypothesis skips' with ⟨comment, rest, rfl, unbroken, trivia⟩ | ⟨unbroken, rfl⟩
    · exact .line unbroken trivia
    · exact .lastLine unbroken
  | case2 rest inductionHypothesis =>
    obtain ⟨more, skips', rfl⟩ := exists_of_extend_eq_some skips
    obtain ⟨comment, rest, rfl, unclosed, trivia⟩ := inductionHypothesis skips'
    exact .block unclosed trivia
  | case3 char rest notLine notBlock isBlank inductionHypothesis =>
    obtain ⟨more, skips', rfl⟩ := exists_of_extend_eq_some skips
    exact .blank isBlank (inductionHypothesis skips')
  | case4 char rest notLine notBlock solid =>
    cases skips
    exact .nil _
  | case5 =>
    cases skips
    exact .nil _
  | case6 rest inductionHypothesis =>
    obtain ⟨more, skips', rfl⟩ := exists_of_extend_eq_some skips
    exact Or.inl ⟨[], more, rfl, List.not_mem_nil, inductionHypothesis skips'⟩
  | case7 char rest unbroken inductionHypothesis =>
    obtain ⟨more, skips', rfl⟩ := exists_of_extend_eq_some skips
    exact skipped_line unbroken (inductionHypothesis skips')
  | case8 =>
    cases skips
    exact Or.inr ⟨List.not_mem_nil, rfl⟩
  | case9 rest inductionHypothesis =>
    obtain ⟨more, skips', rfl⟩ := exists_of_extend_eq_some skips
    exact ⟨[], more, rfl, by simp, inductionHypothesis skips'⟩
  | case10 char rest goesOn inductionHypothesis =>
    obtain ⟨more, skips', rfl⟩ := exists_of_extend_eq_some skips
    refine skipped_block (fun more' same front => ?_) (inductionHypothesis skips')
    have front' : more = '/' :: more' := front
    exact goesOn (more' ++ left) same (by rw [← skip_append skips', front']; rfl)
  | case11 => cases skips

/-! ### Partitions -/

/-- The offsets between which there are no tokens: from the end of each token to the start of the
next one, from a first offset on and up to the end of the text. -/
def gaps (start size : Nat) (tokens : List Token) : List (Nat × Nat) :=
  (start :: tokens.map fun token => token.span.hi.toNat).zip
    ((tokens.map fun token => token.span.lo.toNat) ++ [size])

/-- Tokens are what a text consists of, but for blanks and comments. -/
structure Partitions (text : String) (tokens : List Token) : Prop where
  /-- No lexeme is empty, and each is what stands in the text at the place of its token. -/
  lexemes : ∀ token ∈ tokens, token.text ≠ "" ∧
    Text.Stretch text token.span.lo.toNat token.span.hi.toNat token.text.toList
  /-- No place is empty, and each is after the one before it. -/
  ordered : InOrder tokens
  /-- There are only blanks and comments outside the places of the tokens. -/
  trivia : ∀ gap ∈ gaps 0 text.utf8ByteSize tokens, ∃ chars,
    Text.Stretch text gap.1 gap.2 chars ∧ Trivia (gap.2 = text.utf8ByteSize) chars
  /-- Each lexeme is in the class of its kind. -/
  classes : ∀ token ∈ tokens, token.kind.Admits token.text

variable {text : String}

theorem stretch_of_append {before chars left : List Char} {lo hi : Nat}
    (whole : text.toList = before ++ chars ++ left) (starts : Text.byteLength before = lo)
    (ends : lo + Text.byteLength chars = hi) : Text.Stretch text lo hi chars := by
  refine ⟨before, left, whole, starts, ?_⟩
  rw [Text.byteLength_append, starts, ends]

/-- The tokens from an offset on are stretches of the text, with blanks and comments in the gaps. -/
theorem lexFrom_stretches {offset : Nat} {before chars : List Char} {tokens : List Token}
    (lexed : lexFrom offset chars = .ok tokens) (whole : text.toList = before ++ chars)
    (starts : Text.byteLength before = offset) (short : text.utf8ByteSize < 2 ^ 32) :
    (∀ token ∈ tokens, token.text ≠ "" ∧
      Text.Stretch text token.span.lo.toNat token.span.hi.toNat token.text.toList) ∧
    ∀ gap ∈ gaps offset text.utf8ByteSize tokens, ∃ chars,
      Text.Stretch text gap.1 gap.2 chars ∧ Trivia (gap.2 = text.utf8ByteSize) chars := by
  have size : text.utf8ByteSize = offset + Text.byteLength chars := by
    rw [← Text.byteLength_toList, whole, Text.byteLength_append, starts]
  rcases exists_of_lexFrom_eq_ok lexed with ⟨blanks, skipped, rfl⟩ |
    ⟨blanks, char, rest, kind, lexeme, left, later, skipped, scanned, lexed', rfl⟩
  · refine ⟨List.forall_mem_nil _, List.forall_mem_singleton.mpr ⟨blanks, ?_, ?_⟩⟩
    · have read := skip_append skipped
      rw [List.append_nil] at read
      subst read
      exact stretch_of_append (whole.trans (List.append_nil _).symm) starts size.symm
    · have trivia : Trivia true blanks := skip_skipped skipped
      simpa using trivia
  · have shorter : left.length < chars.length :=
      (scan_length scanned).trans_le (skip_length skipped)
    obtain ⟨joined, nonempty⟩ := scan_append scanned
    have split : chars = blanks ++ lexeme ++ left := by
      rw [List.append_assoc, joined, skip_append skipped]
    subst split
    have positive := Text.byteLength_pos nonempty
    simp only [Text.byteLength_append] at size
    have start : (offset + Text.byteLength blanks).toUInt32.toNat =
        offset + Text.byteLength blanks := toNat_toUInt32 _ (by omega)
    have stop : (offset + Text.byteLength blanks + Text.byteLength lexeme).toUInt32.toNat =
        offset + Text.byteLength blanks + Text.byteLength lexeme := toNat_toUInt32 _ (by omega)
    have whole' : text.toList = before ++ blanks ++ lexeme ++ left := by
      rw [whole, List.append_assoc, List.append_assoc, List.append_assoc]
    obtain ⟨lexemes, trivia⟩ := lexFrom_stretches lexed' whole'
      (by rw [Text.byteLength_append, Text.byteLength_append, starts]) short
    refine ⟨List.forall_mem_cons.mpr ⟨⟨?_, ?_⟩, lexemes⟩,
      List.forall_mem_cons.mpr ⟨⟨blanks, ?_, ?_⟩, ?_⟩⟩
    · simpa using nonempty
    · rw [String.toList_ofList]
      refine stretch_of_append whole' ?_ ?_
      · rw [Text.byteLength_append, starts]
        exact start.symm
      · exact (congrArg (· + Text.byteLength lexeme) start).trans stop.symm
    · rw [List.append_assoc] at whole'
      exact stretch_of_append whole' starts start.symm
    · have inside : (offset + Text.byteLength blanks).toUInt32.toNat ≠ text.utf8ByteSize := by
        omega
      show Trivia (decide ((offset + _).toUInt32.toNat = _)) _
      rw [decide_eq_false inside]
      exact skip_skipped skipped
    · show ∀ gap ∈ gaps (offset + _ + _).toUInt32.toNat _ _, _
      rw [stop]
      exact trivia
termination_by chars.length

/-- A text that is short enough for its offsets is partitioned by its tokens. -/
theorem lex_partitions (text : String) (short : text.utf8ByteSize < 2 ^ 32) (tokens : List Token)
    (lexed : lex text = .ok tokens) : Partitions text tokens := by
  obtain ⟨lexemes, trivia⟩ := lexFrom_stretches lexed (List.nil_append _).symm rfl short
  exact ⟨lexemes, (lex_inOrder lexed short).1, trivia, lexFrom_admits lexed⟩

/-- A text with a block comment that has a star and a letter of two bytes in it, a line break after
a backslash, and a line comment at its end. -/
def annotatedSum : String :=
  "/* ** \u00e9 */ a1 = 2.50+'\\\n\\''; // true"

theorem annotatedSum_partitioned :
    ∃ tokens, lex annotatedSum = .ok tokens ∧ tokens.length = 6 ∧
      Partitions annotatedSum tokens := by
  have counted : (lex annotatedSum).toOption.map List.length = some 6 := by
    decide +kernel
  cases lexed : lex annotatedSum with
  | error failure =>
    rw [lexed] at counted
    cases counted
  | ok tokens =>
    rw [lexed] at counted
    exact ⟨tokens, rfl, Option.some.inj counted,
      lex_partitions annotatedSum (by decide) tokens lexed⟩

end Token

end ArrowCheck
