/-
This file says which lexemes each kind of token has. The classes of lexemes are
described without the scanner: a name is a word that is no keyword, a quoted text
has no line break and no quote in it but after a backslash, and so on.

The classes fit the scanner from both sides. Every lexeme that the scanner splits
off is in the class of its kind, and a lexeme of a class is split off whole if what
stands after it cannot be taken for a part of it. So the lexemes of a text can be
put together again with single spaces between them, and are split as before.
-/

import ArrowCheck.Proofs.Lexemes

namespace ArrowCheck

theorem Token.exists_of_extend_eq_some {chars read left : List Char}
    {split : Option (List Char × List Char)} (extended : extend chars split = some (read, left)) :
    ∃ more, split = some (more, left) ∧ read = chars ++ more := by
  rcases split with _ | ⟨more, left'⟩
  · cases extended
  · cases extended
    exact ⟨more, rfl, rfl⟩

/-! ### Quoted texts -/

namespace Quoted

/-- What may stand between two quotes: a backslash goes with the next character, whatever that is,
and all other characters are neither the quote nor a line break. -/
inductive IsInner (quote : Char) : List Char → Prop where
  | nil : IsInner quote []
  | plain {char : Char} {rest : List Char} (notEscape : char ≠ '\\') (notBreak : char ≠ '\n')
      (notQuote : char ≠ quote) (more : IsInner quote rest) : IsInner quote (char :: rest)
  | escaped (char : Char) {rest : List Char} (more : IsInner quote rest) :
      IsInner quote ('\\' :: char :: rest)

/-- The literals of the language: a text between two quotes of the same kind. -/
def IsLiteral (lexeme : List Char) : Prop :=
  ∃ quote inner, isQuote quote ∧ IsInner quote inner ∧ lexeme = quote :: inner ++ [quote]

variable {quote : Char} {chars inner read left : List Char}

/-- What is read up to the closing quote may stand between quotes. If the scan starts after a
backslash, then its first character goes with that. -/
theorem isInner_of_closeQuote {escaped : Bool}
    (closed : Token.closeQuote quote escaped chars = some (read, left)) :
    ∃ inner, read = inner ++ [quote] ∧
      IsInner quote (if escaped then '\\' :: inner else inner) := by
  fun_induction Token.closeQuote quote escaped chars generalizing read with
  | case1 => cases closed
  | case2 char rest inductionHypothesis =>
    obtain ⟨more, closed', rfl⟩ := Token.exists_of_extend_eq_some closed
    obtain ⟨inner, rfl, isInner⟩ := inductionHypothesis closed'
    exact ⟨char :: inner, rfl, .escaped char isInner⟩
  | case3 rest inductionHypothesis =>
    obtain ⟨more, closed', rfl⟩ := Token.exists_of_extend_eq_some closed
    obtain ⟨inner, rfl, isInner⟩ := inductionHypothesis closed'
    exact ⟨'\\' :: inner, rfl, isInner⟩
  | case4 => cases closed
  | case5 =>
    cases closed
    exact ⟨[], rfl, .nil⟩
  | case6 char rest notEscape notBreak notQuote inductionHypothesis =>
    obtain ⟨more, closed', rfl⟩ := Token.exists_of_extend_eq_some closed
    obtain ⟨inner, rfl, isInner⟩ := inductionHypothesis closed'
    exact ⟨char :: inner, rfl, .plain notEscape notBreak notQuote isInner⟩

/-- The scan for the closing quote goes through what may stand between quotes. -/
theorem IsInner.closeQuote (isQuote : isQuote quote = true) (isInner : IsInner quote inner)
    (left : List Char) :
    Token.closeQuote quote false (inner ++ quote :: left) = some (inner ++ [quote], left) := by
  have kinds : quote ≠ '\\' ∧ quote ≠ '\n' := by
    rcases isQuote_iff.mp isQuote with rfl | rfl <;> decide
  induction isInner with
  | nil => simp [Token.closeQuote, kinds]
  | plain notEscape notBreak notQuote _ inductionHypothesis =>
    simp [Token.closeQuote, notEscape, notBreak, notQuote, inductionHypothesis, Token.extend]
  | escaped char _ inductionHypothesis =>
    simp [Token.closeQuote, inductionHypothesis, Token.extend]

/-- A literal is split off whatever stands after it. -/
theorem IsLiteral.begins {lexeme : List Char} (isLiteral : IsLiteral lexeme) (left : List Char) :
    Token.Begins .quoted lexeme left := by
  obtain ⟨quote, inner, isQuote, isInner, rfl⟩ := isLiteral
  have closed := isInner.closeQuote isQuote left
  refine ⟨List.cons_ne_nil _ _, ?_, ?_⟩
  · rcases isQuote_iff.mp isQuote with rfl | rfl <;>
      exact Token.skip_of_solid (by decide) fun same => absurd same (by decide)
  · simp only [List.cons_append, List.append_assoc, List.nil_append, Token.scan]
    rcases isQuote_iff.mp isQuote with rfl | rfl <;> simp [closed]

end Quoted

namespace Token

/-! ### Numerals and words -/

/-- A scan that starts with a digit splits off a numeral. -/
theorem isNumeral_splitNumeral {char : Char} (digit : char.isDigit = true) (rest : List Char) :
    IsNumeral (splitNumeral (char :: rest)).1 := by
  have nonempty : (char :: rest).takeWhile Char.isDigit ≠ [] := by
    simp [digit]
  have each (chars : List Char) : ∀ char ∈ chars.takeWhile Char.isDigit, char.isDigit :=
    fun char member => List.mem_takeWhile_imp member
  unfold splitNumeral
  split
  · next rest' point =>
    simp only
    split
    · exact .whole nonempty (each _)
    · next fraction =>
      refine .fraction nonempty (each _) ?_ (each _)
      simpa using fraction
  · exact .whole nonempty (each _)

theorem text_of_ofText? {text : String} {keyword : Keyword}
    (found : Keyword.ofText? text = some keyword) : text = keyword.text := by
  have spelled := List.find?_some found
  exact (beq_iff_eq.mp spelled).symm

/-! ### The class of a kind -/

/-- The lexemes that tokens of a kind can have. -/
def Kind.Admits : Kind → String → Prop
  | .name, lexeme => isName lexeme
  | .number, lexeme => IsNumeral lexeme.toList
  | .quoted, lexeme => Quoted.IsLiteral lexeme.toList
  | .symbol mark, lexeme => lexeme = mark.text
  | .keyword reserved, lexeme => lexeme = reserved.text

variable {chars lexeme left : List Char} {kind : Kind}

theorem wordKind_admits {text : String} (spelled : isWord text = true) :
    (wordKind text.toList).Admits text := by
  rw [wordKind, String.ofList_toList]
  split
  · next keyword found => exact text_of_ofText? found
  · next absent =>
    show isName text = true
    rw [isName, spelled, absent]
    rfl

/-- Every lexeme that is split off is in the class of its kind. -/
theorem scan_admits (scanned : scan chars = .ok (kind, lexeme, left)) :
    kind.Admits (String.ofList lexeme) := by
  rcases chars with _ | ⟨char, rest⟩
  · cases scanned
  simp only [scan] at scanned
  split_ifs at scanned with quotes digit starts
  · split at scanned
    · next read left' closed =>
      cases scanned
      obtain ⟨inner, rfl, isInner⟩ := Quoted.isInner_of_closeQuote closed
      show Quoted.IsLiteral (String.ofList _).toList
      rw [String.toList_ofList]
      exact ⟨char, inner, quotes, isInner, rfl⟩
    · cases scanned
  · cases scanned
    show IsNumeral (String.ofList _).toList
    rw [String.toList_ofList]
    exact isNumeral_splitNumeral digit rest
  · cases scanned
    have spelled : isWord (String.ofList (char :: rest.takeWhile isNameRest)) = true := by
      rw [isWord, String.toList_ofList]
      refine Bool.and_eq_true_iff.mpr ⟨starts, List.all_eq_true.mpr fun _ member => ?_⟩
      exact List.mem_takeWhile_imp member
    have admits := wordKind_admits spelled
    rwa [String.toList_ofList] at admits
  · split at scanned
    · next symbol leading =>
      cases scanned
      exact String.ofList_toList
    · cases scanned

/-- A lexeme of a class is split off before anything that cannot go on with it. -/
theorem Kind.Admits.begins {lexeme : String} (admits : kind.Admits lexeme) (apart : Apart left) :
    Begins kind lexeme.toList left := by
  cases kind with
  | name => exact begins_name admits apart
  | number => exact begins_numeral admits apart
  | quoted => exact Quoted.IsLiteral.begins admits left
  | symbol symbol =>
    rw [show lexeme = symbol.text from admits]
    exact begins_symbol symbol apart
  | keyword keyword =>
    rw [show lexeme = keyword.text from admits]
    exact begins_keyword keyword apart

/-- The tokens of a text have lexemes of their classes. -/
theorem lexFrom_admits {offset : Nat} {chars : List Char} {tokens : List Token}
    (lexed : lexFrom offset chars = .ok tokens) :
    ∀ token ∈ tokens, token.kind.Admits token.text := by
  rcases exists_of_lexFrom_eq_ok lexed with ⟨_, _, rfl⟩ |
    ⟨blanks, char, rest, kind, lexeme, left, later, skipped, scanned, lexed', rfl⟩
  · exact List.forall_mem_nil _
  · have shorter : left.length < chars.length :=
      (scan_length scanned).trans_le (skip_length skipped)
    exact List.forall_mem_cons.mpr ⟨scan_admits scanned, lexFrom_admits lexed'⟩
termination_by chars.length

/-! ### Single spaces -/

/-- The lexemes of tokens with single spaces between them. -/
def respaced (tokens : List Token) : String :=
  " ".intercalate (tokens.map text)

/-- Lexemes with single spaces between them are split as before. -/
theorem respaced_lexesTo {tokens : List Token}
    (admits : ∀ token ∈ tokens, token.kind.Admits token.text) :
    LexesTo (respaced tokens).toList (tokens.map word) := by
  match tokens with
  | [] => simpa [respaced] using lexesTo_nil
  | [last] =>
    have nothing : Apart [] := fun _ absent => absurd absent (by simp)
    have whole := lexesTo_nil.token ((admits last (by simp)).begins nothing)
    simpa [respaced, word] using whole
  | head :: next :: tail =>
    obtain ⟨admitsHead, admitsTail⟩ := List.forall_mem_cons.mp admits
    have apart : Apart (' ' :: (respaced (next :: tail)).toList) := by
      intro char first
      exact Or.inl (Option.some.inj first).symm
    have whole := (respaced_lexesTo admitsTail).blank.token (admitsHead.begins apart)
    simpa [respaced, word, String.intercalate_cons_cons] using whole

end Token

end ArrowCheck
