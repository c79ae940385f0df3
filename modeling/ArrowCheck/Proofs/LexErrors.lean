/-
This file says where the splitting of a text into tokens fails. What stands before
the offset of the error can be split. At the offset there begins a quoted literal
that its line does not close, or a character with which nothing begins, or a row of
blanks and comments whose last comment is never closed. The offset is that of the
row: if there are blanks or other comments before the comment that is never closed,
then the error does not point at that comment.

A text is cut at the offset, and the part before it is split as it was split in the
whole text. No scanner looks further than to the first character that it leaves, but
for the point after a numeral, so it does not notice that what follows is gone.
-/

import ArrowCheck.Proofs.Partition

namespace ArrowCheck.Token

/-! ### What stands in the way -/

/-- What can stand where a text cannot be split into tokens. -/
inductive Offends : LexError.Cause → List Char → Prop where
  /-- A quoted literal that its line does not close: it goes on up to a line break or up to the end
  of the text. -/
  | literal {quote : Char} {inner rest : List Char} (isQuote : Quoted.isQuote quote = true)
      (isInner : Quoted.IsInner quote inner)
      (unclosed : rest = [] ∨ rest = ['\\'] ∨ ∃ later, rest = '\n' :: later) :
      Offends .unterminated (quote :: inner ++ rest)
  /-- A block comment that is never closed. -/
  | comment {comment : List Char} (unclosed : ¬ ['*', '/'] <:+: comment) :
      Offends .unterminated ('/' :: '*' :: comment)
  /-- A character with which no blank, no comment and no token begins. -/
  | character {char : Char} {rest : List Char} (solid : Text.isBlank char = false)
      (noQuote : Quoted.isQuote char = false) (noLine : ¬ ['/', '/'] <+: char :: rest)
      (noBlock : ¬ ['/', '*'] <+: char :: rest)
      (noToken : ∀ (kind : Kind) (lexeme : String), kind.Admits lexeme →
        ¬ lexeme.toList <+: char :: rest) :
      Offends .unexpectedCharacter (char :: rest)

/-- The scan for the closing quote fails at the end of the line or of the text. If it starts after a
backslash, then its first character goes with that. -/
theorem unclosed_of_closeQuote {quote : Char} {escaped : Bool} {chars : List Char}
    (failed : closeQuote quote escaped chars = none) :
    ∃ inner rest, (if escaped then '\\' :: chars else chars) = inner ++ rest ∧
      Quoted.IsInner quote inner ∧
      (rest = [] ∨ rest = ['\\'] ∨ ∃ later, rest = '\n' :: later) := by
  fun_induction closeQuote quote escaped chars with
  | case1 escaped =>
    cases escaped
    · exact ⟨[], [], rfl, .nil, Or.inl rfl⟩
    · exact ⟨[], ['\\'], rfl, .nil, Or.inr (Or.inl rfl)⟩
  | case2 char chars inductionHypothesis =>
    obtain ⟨inner, rest, whole, isInner, ends⟩ :=
      inductionHypothesis (Option.map_eq_none_iff.mp failed)
    exact ⟨'\\' :: char :: inner, rest, by simpa using whole, .escaped char isInner, ends⟩
  | case3 chars inductionHypothesis =>
    exact inductionHypothesis (Option.map_eq_none_iff.mp failed)
  | case4 chars => exact ⟨[], '\n' :: chars, rfl, .nil, Or.inr (Or.inr ⟨chars, rfl⟩)⟩
  | case5 => cases failed
  | case6 char chars notEscape notBreak notQuote inductionHypothesis =>
    obtain ⟨inner, rest, whole, isInner, ends⟩ :=
      inductionHypothesis (Option.map_eq_none_iff.mp failed)
    exact ⟨char :: inner, rest, by simpa using whole,
      .plain notEscape notBreak notQuote isInner, ends⟩

/-- A token begins with a quote, a digit, the start of a name, or a symbol. -/
theorem Kind.Admits.begins_with {kind : Kind} {lexeme : String} {char : Char} {rest : List Char}
    (admits : kind.Admits lexeme) (front : lexeme.toList <+: char :: rest) :
    Quoted.isQuote char = true ∨ char.isDigit = true ∨ isNameStart char = true ∨
      (Symbol.leading? (char :: rest)).isSome = true := by
  have word (spelled : isWord lexeme = true) : isNameStart char = true := by
    unfold isWord at spelled
    split at spelled
    · cases spelled
    · next first more same =>
      rw [same, List.cons_prefix_cons] at front
      rw [← front.1]
      exact (Bool.and_eq_true_iff.mp spelled).1
  cases kind with
  | name => exact Or.inr (Or.inr (Or.inl (word (Bool.and_eq_true_iff.mp admits).1)))
  | keyword keyword =>
    rw [show lexeme = keyword.text from admits] at word
    exact Or.inr (Or.inr (Or.inl (word (by cases keyword <;> decide))))
  | number =>
    refine Or.inr (Or.inl ?_)
    have numeral : IsNumeral lexeme.toList := admits
    generalize lexeme.toList = chars at numeral front
    cases numeral with
    | whole nonempty each | fraction nonempty each =>
      obtain ⟨digit, more, rfl⟩ := List.exists_cons_of_ne_nil nonempty
      rw [← (List.cons_prefix_cons.mp front).1]
      exact each digit List.mem_cons_self
  | quoted =>
    obtain ⟨quote, inner, isQuote, -, spelled⟩ := show Quoted.IsLiteral lexeme.toList from admits
    rw [spelled] at front
    rw [← (List.cons_prefix_cons.mp front).1]
    exact Or.inl isQuote
  | symbol symbol =>
    rw [show lexeme = symbol.text from admits] at front
    refine Or.inr (Or.inr (Or.inr (List.find?_isSome.mpr ⟨symbol, ?_, ?_⟩)))
    · rcases symbol with operator | _
      · cases operator <;> decide
      all_goals decide
    · exact List.isPrefixOf_iff_prefix.mpr front

/-- Where the scan for a token fails, a literal is not closed or nothing begins. -/
theorem scan_offends {char : Char} {rest : List Char} {cause : LexError.Cause}
    (failed : scan (char :: rest) = .error cause) (solid : Text.isBlank char = false)
    (noLine : ¬ ['/', '/'] <+: char :: rest) (noBlock : ¬ ['/', '*'] <+: char :: rest) :
    Offends cause (char :: rest) := by
  simp only [scan] at failed
  split_ifs at failed with quotes digit starts
  · split at failed
    · cases failed
    · next unclosed =>
      cases failed
      obtain ⟨inner, later, whole, isInner, ends⟩ := unclosed_of_closeQuote unclosed
      have whole : rest = inner ++ later := whole
      rw [whole]
      exact .literal quotes isInner ends
  · split at failed
    · cases failed
    · next none =>
      cases failed
      refine .character solid (Bool.eq_false_iff.mpr quotes) noLine noBlock ?_
      intro kind lexeme admits front
      rcases admits.begins_with front with quoted | digit' | starts' | leads
      · exact quotes quoted
      · exact digit digit'
      · exact starts starts'
      · rw [none] at leads
        cases leads

/-! ### Blanks and comments -/

/-- What is left after blanks and comments begins with neither. -/
theorem solid_of_skip {region : Region} {chars read rest : List Char} {char : Char}
    (skipped : skip region chars = some (read, char :: rest)) :
    Text.isBlank char = false ∧ ¬ ['/', '/'] <+: char :: rest ∧
      ¬ ['/', '*'] <+: char :: rest := by
  fun_induction skip region chars generalizing read with
  | case1 _ inductionHypothesis | case2 _ inductionHypothesis | case3 _ _ _ _ _ inductionHypothesis
  | case6 _ inductionHypothesis | case7 _ _ _ inductionHypothesis | case9 _ inductionHypothesis
  | case10 _ _ _ inductionHypothesis =>
    obtain ⟨more, skipped', -⟩ := exists_of_extend_eq_some skipped
    exact inductionHypothesis skipped'
  | case4 first later notLine notBlock solid =>
    cases skipped
    refine ⟨Bool.eq_false_iff.mpr solid, ?_, ?_⟩
    · rintro ⟨more, same⟩
      obtain ⟨rfl, rfl⟩ := List.cons.inj same
      exact notLine more rfl rfl
    · rintro ⟨more, same⟩
      obtain ⟨rfl, rfl⟩ := List.cons.inj same
      exact notBlock more rfl rfl
  | case5 | case8 => cases skipped
  | case11 => cases skipped

/-- A row of blanks and comments, and after it a block comment that is never closed. -/
def OpenRow (chars : List Char) : Prop :=
  ∃ blanks comment, chars = blanks ++ '/' :: '*' :: comment ∧ Trivia false blanks ∧
    ¬ ['*', '/'] <:+: comment

/-- Where a comment is not closed, seen from a region of the text: inside a comment that is the same
one, or one after it. -/
def Open : Region → List Char → Prop
  | .between, chars => OpenRow chars
  | .lineComment, chars =>
    ∃ comment rest, chars = comment ++ '\n' :: rest ∧ '\n' ∉ comment ∧ OpenRow rest
  | .blockComment, chars =>
    ¬ ['*', '/'] <:+: chars ∨ ∃ comment rest, chars = comment ++ '*' :: '/' :: rest ∧
      ¬ ['*', '/'] <:+: comment ∧ OpenRow rest

theorem open_block {char : Char} {chars : List Char}
    (goesOn : ∀ more, char = '*' → chars = '/' :: more → False)
    (isOpen : Open .blockComment chars) : Open .blockComment (char :: chars) := by
  rcases isOpen with unclosed | ⟨comment, rest, rfl, unclosed, row⟩
  · exact Or.inl (unclosed_cons goesOn unclosed)
  · refine Or.inr ⟨char :: comment, rest, rfl, unclosed_cons (fun more same front => ?_) unclosed,
      row⟩
    rw [front] at goesOn
    exact goesOn _ same rfl

/-- Blanks and comments can be skipped unless a block comment among them is never closed. -/
theorem open_of_skip {region : Region} {chars : List Char} (failed : skip region chars = none) :
    Open region chars := by
  fun_induction skip region chars with
  | case1 rest inductionHypothesis =>
    obtain ⟨comment, later, rfl, unbroken, blanks, last, rfl, trivia, unclosed⟩ :=
      inductionHypothesis (Option.map_eq_none_iff.mp failed)
    exact ⟨_, last, by simp, .line unbroken trivia, unclosed⟩
  | case2 rest inductionHypothesis =>
    rcases inductionHypothesis (Option.map_eq_none_iff.mp failed) with
      unclosed | ⟨comment, later, rfl, unclosed, blanks, last, rfl, trivia, unclosed'⟩
    · exact ⟨[], rest, rfl, .nil false, unclosed⟩
    · exact ⟨_, last, by simp, .block unclosed trivia, unclosed'⟩
  | case3 char rest notLine notBlock blank inductionHypothesis =>
    obtain ⟨blanks, last, rfl, trivia, unclosed⟩ :=
      inductionHypothesis (Option.map_eq_none_iff.mp failed)
    exact ⟨char :: blanks, last, rfl, .blank blank trivia, unclosed⟩
  | case4 | case5 | case8 => cases failed
  | case6 rest inductionHypothesis =>
    exact ⟨[], rest, rfl, List.not_mem_nil, inductionHypothesis (Option.map_eq_none_iff.mp failed)⟩
  | case7 char rest unbroken inductionHypothesis =>
    obtain ⟨comment, later, rfl, unbroken', row⟩ :=
      inductionHypothesis (Option.map_eq_none_iff.mp failed)
    refine ⟨char :: comment, later, rfl, ?_, row⟩
    rw [List.mem_cons, not_or]
    exact ⟨fun same => unbroken same.symm, unbroken'⟩
  | case9 rest inductionHypothesis =>
    refine Or.inr ⟨[], rest, rfl, by simp, ?_⟩
    exact inductionHypothesis (Option.map_eq_none_iff.mp failed)
  | case10 char rest goesOn inductionHypothesis =>
    exact open_block goesOn (inductionHypothesis (Option.map_eq_none_iff.mp failed))
  | case11 => exact Or.inl (by simp)

/-! ### Texts that are cut -/

theorem extend_eq_some {chars read left : List Char} {split : Option (List Char × List Char)}
    (found : split = some (read, left)) : extend chars split = some (chars ++ read, left) := by
  rw [found]
  rfl

/-- Blanks and comments are skipped as before if something is cut off after them. -/
theorem skip_cut {region : Region} {chars read left kept dropped : List Char}
    (skipped : skip region chars = some (read, left)) (cut : left = kept ++ dropped) :
    skip region (read ++ kept) = some (read, kept) := by
  fun_induction skip region chars generalizing read with
  | case1 _ inductionHypothesis | case2 _ inductionHypothesis | case6 _ inductionHypothesis
  | case9 _ inductionHypothesis =>
    obtain ⟨more, skipped', rfl⟩ := exists_of_extend_eq_some skipped
    exact extend_eq_some (inductionHypothesis skipped')
  | case3 char rest notLine notBlock blank inductionHypothesis =>
    obtain ⟨more, skipped', rfl⟩ := exists_of_extend_eq_some skipped
    have notSlash : char ≠ '/' := by
      rintro rfl
      cases blank
    rw [List.append_assoc, List.singleton_append, skip, if_pos blank]
    · exact extend_eq_some (inductionHypothesis skipped')
    · exact fun _ same => absurd same notSlash
    · exact fun _ same => absurd same notSlash
  | case4 char rest notLine notBlock solid =>
    cases skipped
    cases kept with
    | nil => rfl
    | cons first kept =>
      obtain ⟨rfl, rfl⟩ := List.cons.inj cut
      rw [List.nil_append, skip, if_neg solid]
      · rintro more rfl rfl
        exact notLine _ rfl rfl
      · rintro more rfl rfl
        exact notBlock _ rfl rfl
  | case5 | case8 =>
    cases skipped
    rw [(List.append_eq_nil_iff.mp cut.symm).1]
    rfl
  | case7 char rest unbroken inductionHypothesis =>
    obtain ⟨more, skipped', rfl⟩ := exists_of_extend_eq_some skipped
    rw [List.append_assoc, List.singleton_append, skip]
    · exact extend_eq_some (inductionHypothesis skipped')
    · exact unbroken
  | case10 char rest goesOn inductionHypothesis =>
    obtain ⟨more, skipped', rfl⟩ := exists_of_extend_eq_some skipped
    rw [List.append_assoc, List.singleton_append, skip]
    · exact extend_eq_some (inductionHypothesis skipped')
    · -- The comment is closed in what was read, so the next character is none that was cut off.
      intro next same front
      obtain ⟨comment, later, closed, -, -⟩ := skip_skipped skipped'
      obtain ⟨first, more, rfl⟩ : ∃ first more', more = first :: more' :=
        List.exists_cons_of_ne_nil (by simp [closed])
      obtain ⟨rfl, -⟩ := List.cons.inj front
      exact goesOn _ same (skip_append skipped').symm
  | case11 => cases skipped

/-- A run of members of a class is split off as before if something is cut off after it. -/
theorem run_cut {isMember : Char → Bool} {chars kept dropped : List Char}
    (cut : chars.dropWhile isMember = kept ++ dropped) :
    (chars.takeWhile isMember ++ kept).takeWhile isMember = chars.takeWhile isMember ∧
      (chars.takeWhile isMember ++ kept).dropWhile isMember = kept := by
  refine splitRun (fun char member => List.mem_takeWhile_imp member) fun char first => ?_
  have head : (chars.dropWhile isMember).head? = some char := by
    rw [cut, List.head?_append, first]
    rfl
  have outside := List.head?_dropWhile_not isMember chars
  rw [head] at outside
  exact outside

/-- A numeral is split off as before if something is cut off after it. -/
theorem splitNumeral_cut {chars read kept dropped : List Char}
    (split : splitNumeral chars = (read, kept ++ dropped)) :
    splitNumeral (read ++ kept) = (read, kept) := by
  unfold splitNumeral at split
  split at split
  · next rest point =>
    simp only at split
    by_cases none : (rest.takeWhile Char.isDigit).isEmpty
    · rw [if_pos none] at split
      obtain ⟨rfl, cut⟩ := Prod.mk.inj split
      obtain ⟨taken, left⟩ := run_cut (point.trans cut)
      rw [splitNumeral, taken, left]
      cases kept with
      | nil => rfl
      | cons first kept =>
        obtain ⟨rfl, rfl⟩ := List.cons.inj cut
        have none' : (kept.takeWhile Char.isDigit).isEmpty := by
          cases kept with
          | nil => rfl
          | cons digit kept => simpa [List.takeWhile_cons] using none
        simp only [if_pos none']
    · rw [if_neg none] at split
      obtain ⟨rfl, cut⟩ := Prod.mk.inj split
      have within : ∀ char ∈ chars.takeWhile Char.isDigit, char.isDigit :=
        fun char member => List.mem_takeWhile_imp member
      have outside : ∀ char ∈ ('.' :: rest.takeWhile Char.isDigit ++ kept).head?,
          char.isDigit = false := by simp
      obtain ⟨taken, left⟩ := splitRun within outside
      obtain ⟨taken', left'⟩ := run_cut cut
      rw [List.append_assoc, splitNumeral, taken, left]
      simp only [List.cons_append, taken', left', if_neg none]
  · next noPoint =>
    obtain ⟨rfl, cut⟩ := Prod.mk.inj split
    obtain ⟨taken, left⟩ := run_cut cut
    rw [splitNumeral, taken, left]
    split
    · next rest =>
      exact absurd cut (noPoint _)
    · rfl

/-- The longest symbol is the same if something is cut off after it. -/
theorem leading?_cut {symbol : Symbol} {chars kept dropped : List Char}
    (leads : Symbol.leading? chars = some symbol)
    (cut : chars.drop symbol.text.toList.length = kept ++ dropped) :
    Symbol.leading? (symbol.text.toList ++ kept) = some symbol := by
  have whole := Symbol.leading?_append leads
  rw [cut, ← List.append_assoc] at whole
  obtain ⟨-, before, after, listed, unfit⟩ := List.find?_eq_some_iff_append.mp leads
  refine List.find?_eq_some_iff_append.mpr ⟨?_, before, after, listed, fun other member => ?_⟩
  · exact List.isPrefixOf_iff_prefix.mpr (List.prefix_append _ _)
  · -- A symbol that stands in front of the shorter text stands in front of the longer one.
    have unfit' := unfit other member
    rw [Bool.not_eq_true', Bool.eq_false_iff, ne_eq, List.isPrefixOf_iff_prefix] at unfit' ⊢
    rw [← whole] at unfit'
    exact fun fits => unfit' (fits.trans (List.prefix_append _ _))

/-- A token is split off as before if something is cut off after it. -/
theorem scan_cut {chars lexeme kept dropped : List Char} {kind : Kind}
    (scanned : scan chars = .ok (kind, lexeme, kept ++ dropped)) :
    scan (lexeme ++ kept) = .ok (kind, lexeme, kept) := by
  have admits := scan_admits scanned
  obtain ⟨whole, nonempty⟩ := scan_append scanned
  obtain ⟨char, more, rfl⟩ := List.exists_cons_of_ne_nil nonempty
  rw [← whole] at scanned
  -- The kind is decided by the first character, which is the same.
  simp only [List.cons_append, scan] at scanned ⊢
  split_ifs at scanned ⊢ with quotes digit starts
  · have literal : kind = .quoted := by
      split at scanned <;> cases scanned
      rfl
    subst literal
    have isLiteral : Quoted.IsLiteral (String.ofList (char :: more)).toList := admits
    rw [String.toList_ofList] at isLiteral
    have scans := (isLiteral.begins kept).scans
    simpa only [List.cons_append, scan, if_pos quotes] using scans
  · rw [Except.ok.injEq, Prod.mk.injEq] at scanned
    obtain ⟨rfl, split⟩ := scanned
    have split' := splitNumeral_cut split
    rw [List.cons_append] at split'
    rw [split']
  · obtain ⟨rfl, spelled, left⟩ := by
      simpa only [Except.ok.injEq, Prod.mk.injEq, List.cons.injEq, true_and] using scanned
    obtain ⟨taken, left'⟩ := run_cut left
    rw [spelled] at taken left'
    rw [taken, left', spelled]
  · split at scanned
    · next symbol leads =>
      obtain ⟨rfl, spelled, cut⟩ := by
        simpa only [Except.ok.injEq, Prod.mk.injEq] using scanned
      have leads' := leading?_cut leads cut
      rw [spelled, List.cons_append] at leads'
      rw [leads']
      simp only [spelled, List.length_cons, List.drop_succ_cons, List.drop_left]
    · cases scanned

/-! ### The place of the error -/

theorem LexesTo.of_skip {blanks : List Char} (skipped : skip .between blanks = some (blanks, [])) :
    LexesTo blanks [] :=
  fun _ => ⟨[], lexFrom_of_skip skipped, rfl⟩

/-- Blanks and comments, a token, and what can be split after it can be split together. -/
theorem LexesTo.scanned {blanks lexeme left : List Char} {kind : Kind} {words : List Word}
    (skipped : skip .between (blanks ++ (lexeme ++ left)) = some (blanks, lexeme ++ left))
    (scanned : scan (lexeme ++ left) = .ok (kind, lexeme, left)) (lexes : LexesTo left words) :
    LexesTo (blanks ++ (lexeme ++ left)) ((kind, String.ofList lexeme) :: words) := by
  intro offset
  obtain ⟨char, more, rfl⟩ := List.exists_cons_of_ne_nil (scan_append scanned).2
  obtain ⟨tokens, lexed, rfl⟩ := lexes (offset + _ + _)
  exact ⟨_, lexFrom_of_scan skipped scanned lexed, rfl⟩

/-- Why a text cannot be split: a comment in front of the first token is never closed, or there is
no first token, or what comes after the first token cannot be split. -/
theorem exists_of_lexFrom_eq_error {offset : Nat} {chars : List Char} {error : LexError}
    (failed : lexFrom offset chars = .error error) :
    (skip .between chars = none ∧ error = ⟨offset, .unterminated⟩) ∨
      ∃ blanks char rest, skip .between chars = some (blanks, char :: rest) ∧
        ((∃ cause, scan (char :: rest) = .error cause ∧
          error = ⟨offset + Text.byteLength blanks, cause⟩) ∨
        ∃ kind lexeme left, scan (char :: rest) = .ok (kind, lexeme, left) ∧
          lexFrom (offset + Text.byteLength blanks + Text.byteLength lexeme) left =
            .error error) := by
  rw [lexFrom] at failed
  split at failed
  · next skipped =>
    cases failed
    exact Or.inl ⟨skipped, rfl⟩
  · cases failed
  · next blanks char rest skipped =>
    refine Or.inr ⟨blanks, char, rest, skipped, ?_⟩
    split at failed
    · next cause scanned =>
      cases failed
      exact Or.inl ⟨cause, scanned, rfl⟩
    · next kind lexeme left scanned =>
      simp only at failed
      split at failed
      · next failed' =>
        cases failed
        exact Or.inr ⟨kind, lexeme, left, scanned, failed'⟩
      · cases failed

/-- Splitting fails at the end of what can be split. -/
theorem lexFrom_offends {offset : Nat} {chars : List Char} {error : LexError}
    (failed : lexFrom offset chars = .error error) :
    ∃ before blanks rest words, chars = before ++ (blanks ++ rest) ∧
      error.offset = offset + Text.byteLength before ∧ LexesTo before words ∧
      Trivia false blanks ∧ Offends error.cause rest ∧ (blanks = [] ∨ ['/', '*'] <+: rest) := by
  rcases exists_of_lexFrom_eq_error failed with ⟨skipped, rfl⟩ | ⟨blanks, char, rest, skipped, next⟩
  · obtain ⟨blanks, comment, rfl, trivia, unclosed⟩ := open_of_skip skipped
    exact ⟨[], blanks, _, [], rfl, rfl, lexesTo_nil, trivia, .comment unclosed,
      Or.inr (by simp)⟩
  · have read := skip_append skipped
    rcases next with ⟨cause, scanned, rfl⟩ | ⟨kind, lexeme, left, scanned, failed'⟩
    · have skipped' := skip_cut skipped (List.nil_append _).symm
      rw [List.append_nil] at skipped'
      obtain ⟨solid, noLine, noBlock⟩ := solid_of_skip skipped
      exact ⟨blanks, [], char :: rest, [], read.symm, rfl, .of_skip skipped', .nil false,
        scan_offends scanned solid noLine noBlock, Or.inl rfl⟩
    · have shorter : left.length < chars.length :=
        (scan_length scanned).trans_le (skip_length skipped)
      obtain ⟨before, blanks', rest', words, rfl, place, lexes, trivia, offends, direct⟩ :=
        lexFrom_offends failed'
      obtain ⟨joined, -⟩ := scan_append scanned
      rw [← joined, ← List.append_assoc] at skipped
      refine ⟨blanks ++ (lexeme ++ before), blanks', rest', _, ?_, ?_,
        .scanned (skip_cut skipped rfl) (scan_cut scanned) lexes, trivia, offends, direct⟩
      · rw [← read, ← joined]
        simp only [List.append_assoc]
      · rw [place]
        simp only [Text.byteLength_append, Nat.add_assoc]
termination_by chars.length

/-- If a text cannot be split into tokens, then what stands before the offset of the error can be
split. At the offset there begins a quoted literal that its line does not close, or a character with
which nothing begins, or a row of blanks and comments that goes up to a block comment that is never
closed. -/
theorem lex_error_offends (text : String) (error : LexError) (failed : lex text = .error error) :
    ∃ before blanks rest, text.toList = before ++ (blanks ++ rest) ∧
      Text.byteLength before = error.offset ∧ (∃ tokens, lex (String.ofList before) = .ok tokens) ∧
      Trivia false blanks ∧ Offends error.cause rest ∧ (blanks = [] ∨ ['/', '*'] <+: rest) := by
  obtain ⟨before, blanks, rest, words, whole, place, lexes, trivia, offends, direct⟩ :=
    lexFrom_offends failed
  obtain ⟨tokens, lexed, -⟩ := lexes 0
  refine ⟨before, blanks, rest, whole, ?_, ⟨tokens, ?_⟩, trivia, offends, direct⟩
  · rw [place, Nat.zero_add]
  · rw [lex, String.toList_ofList]
    exact lexed

/-- A literal whose only further quote on its line is escaped, with a quote on the next line. -/
theorem openLiteral_offends :
    lex "a1 = 'b\\'\n'" = .error ⟨5, .unterminated⟩ ∧
      ∃ before blanks rest, "a1 = 'b\\'\n'".toList = before ++ (blanks ++ rest) ∧
        Text.byteLength before = 5 ∧ (∃ tokens, lex (String.ofList before) = .ok tokens) ∧
        Trivia false blanks ∧ Offends .unterminated rest ∧
        (blanks = [] ∨ ['/', '*'] <+: rest) := by
  have failed : lex "a1 = 'b\\'\n'" = .error ⟨5, .unterminated⟩ := by decide +kernel
  exact ⟨failed, lex_error_offends _ _ failed⟩

/-- A name, and on the line below it a comment that is never closed. -/
def distantComment : String :=
  "x\n  /*"

/-- The error of a comment that is never closed does not point at the comment if there are blanks
before it, but at the blanks. Neither a literal nor a comment begins there, and a blank does. -/
theorem distantComment_misplaced :
    lex distantComment = .error ⟨1, .unterminated⟩ ∧
      ¬ ∃ before rest cause, distantComment.toList = before ++ rest ∧
        Text.byteLength before = 1 ∧ Offends cause rest := by
  refine ⟨by decide +kernel, ?_⟩
  rintro ⟨before, rest, cause, whole, size, offends⟩
  have spelled : distantComment.toList = ['x', '\n', ' ', ' ', '/', '*'] := by decide +kernel
  rw [spelled] at whole
  rcases before with _ | ⟨first, _ | ⟨second, before⟩⟩
  · cases size
  · obtain ⟨-, rfl⟩ := List.cons.inj whole
    generalize same : ['\n', ' ', ' ', '/', '*'] = chars at offends
    cases offends with
    | literal isQuote =>
      obtain ⟨rfl, -⟩ := List.cons.inj same
      cases isQuote
    | comment => cases same
    | character solid =>
      obtain ⟨rfl, -⟩ := List.cons.inj same
      cases solid
  · obtain ⟨rfl, later⟩ := List.cons.inj whole
    obtain ⟨rfl, -⟩ := List.cons.inj later
    simp only [Text.byteLength_cons] at size
    have one : 'x'.utf8Size = 1 := rfl
    have one' : '\n'.utf8Size = 1 := rfl
    omega

end ArrowCheck.Token
