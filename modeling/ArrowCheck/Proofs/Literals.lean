/-
This file proves that quoted literals can stand for every text, and that the
scanner and the decoder of literals agree on where an escape ends.

A text can be written between two quotes if a backslash is put before each
character that could not stand there alone. The scanner then finds the closing
quote behind the last character, and the decoder takes the backslashes off again.

The decoder has two ways out: a backslash with nothing after it stands for itself,
and a lexeme without a first and a last character of one byte each stands for the
empty text. Decoding that gives up in these places gives up on no token.
-/

import ArrowCheck.Proofs.LexemeClasses
import ArrowCheck.Proofs.Parsing

namespace ArrowCheck.Quoted

/-! ### Guarded texts -/

/-- Characters with a backslash before each one that could not stand between quotes alone: before
each backslash, each quote of the kind around them, and each line break. -/
def guardChars (quote : Char) : List Char → List Char
  | [] => []
  | char :: rest =>
    if char = '\\' ∨ char = quote ∨ char = '\n' then '\\' :: char :: guardChars quote rest
    else char :: guardChars quote rest

/-- A text between quotes, with a backslash where one is needed. -/
def guarded (quote : Char) (text : String) : String :=
  String.ofList (quote :: guardChars quote text.toList ++ [quote])

variable {quote : Char}

theorem isInner_guardChars (chars : List Char) : IsInner quote (guardChars quote chars) := by
  induction chars with
  | nil => exact .nil
  | cons char chars inductionHypothesis =>
    rw [guardChars]
    by_cases special : char = '\\' ∨ char = quote ∨ char = '\n'
    · rw [if_pos special]
      exact .escaped char inductionHypothesis
    · rw [if_neg special]
      obtain ⟨notEscape, notQuote, notBreak⟩ := by simpa only [not_or] using special
      exact .plain notEscape notBreak notQuote inductionHypothesis

theorem isLiteral_guarded (isQuote : isQuote quote = true) (text : String) :
    IsLiteral (guarded quote text).toList := by
  rw [guarded, String.toList_ofList]
  exact ⟨quote, _, isQuote, isInner_guardChars _, rfl⟩

/-- A backslash before a character that is guarded stands for nothing but that character. -/
theorem escaped_of_guarded (isQuote : isQuote quote = true) {char : Char}
    (special : char = '\\' ∨ char = quote ∨ char = '\n') : escaped char = char := by
  rcases special with rfl | rfl | rfl
  · rfl
  · rcases isQuote_iff.mp isQuote with rfl | rfl <;> rfl
  · rfl

theorem decodeChars_guardChars (isQuote : isQuote quote = true) (chars : List Char) :
    decodeChars (guardChars quote chars) = chars := by
  induction chars with
  | nil => rfl
  | cons char chars inductionHypothesis =>
    rw [guardChars]
    by_cases special : char = '\\' ∨ char = quote ∨ char = '\n'
    · rw [if_pos special, decodeChars, escaped_of_guarded isQuote special, inductionHypothesis]
    · have plain : char ≠ '\\' := fun same => special (Or.inl same)
      rw [if_neg special, decodeChars, inductionHypothesis]
      · exact fun same => absurd same plain
      · exact fun _ _ same => absurd same plain

/-! ### Decoding that gives up -/

/-- Characters with the escapes among them replaced, unless a backslash is left with nothing after
it. -/
def unescape? : List Char → Option (List Char)
  | [] => some []
  | ['\\'] => none
  | '\\' :: char :: rest => (unescape? rest).map (escaped char :: ·)
  | char :: rest => (unescape? rest).map (char :: ·)

/-- The characters between the first and the last byte of a text, unless there are no two bytes or
one of them is only a part of its character. -/
def between? : List Char → Option (List Char)
  | [] => none
  | first :: rest =>
    match rest.getLast? with
    | some last => if first.utf8Size = 1 && last.utf8Size = 1 then some rest.dropLast else none
    | none => none

/-- The text that a quoted literal stands for, if it can be decoded without a way out. -/
def decode? (lexeme : String) : Option String := do
  let body ← between? lexeme.toList
  let chars ← unescape? body
  pure (String.ofList chars)

theorem isQuote_utf8Size (isQuote : isQuote quote = true) : quote.utf8Size = 1 := by
  rcases isQuote_iff.mp isQuote with rfl | rfl <;> rfl

/-- Between two quotes there is what was put there. -/
theorem between?_quotes (isQuote : isQuote quote = true) (inner : List Char) :
    between? (quote :: inner ++ [quote]) = some inner ∧
      inside (quote :: inner ++ [quote]) = inner := by
  simp [between?, inside, isQuote_utf8Size isQuote]

/-- What the scanner takes for the inside of a literal is decoded to its end: both take a backslash
together with the character after it. -/
theorem IsInner.unescape? {inner : List Char} (isInner : IsInner quote inner) :
    Quoted.unescape? inner = some (decodeChars inner) := by
  induction isInner with
  | nil => rfl
  | @plain char rest notEscape notBreak notQuote more inductionHypothesis =>
    have notLast : char = '\\' → rest = [] → False := fun same => absurd same notEscape
    have notBefore : ∀ next later, char = '\\' → rest = next :: later → False :=
      fun _ _ same => absurd same notEscape
    rw [Quoted.unescape?, decodeChars, inductionHypothesis, Option.map_some]
    all_goals assumption
  | escaped char more inductionHypothesis =>
    rw [Quoted.unescape?, decodeChars, inductionHypothesis, Option.map_some]

theorem IsLiteral.decode?_eq {lexeme : String} (isLiteral : IsLiteral lexeme.toList) :
    decode? lexeme = some (decode lexeme) := by
  obtain ⟨quote, inner, isQuote, isInner, spelled⟩ := isLiteral
  obtain ⟨between, inside⟩ := between?_quotes isQuote inner
  rw [decode?, decode, spelled, between, inside]
  show (Quoted.unescape? inner >>= _) = _
  rw [isInner.unescape?]
  rfl

theorem decode_guarded (isQuote : isQuote quote = true) (text : String) :
    decode (guarded quote text) = text := by
  rw [decode, guarded, String.toList_ofList, (between?_quotes isQuote _).2,
    decodeChars_guardChars isQuote, String.ofList_toList]

/-! ### Literals as whole texts -/

/-- A literal that is a whole text is its only token. -/
theorem IsLiteral.lex_eq {lexeme : String} (isLiteral : IsLiteral lexeme.toList) :
    Token.lex lexeme =
      .ok [⟨.quoted, lexeme, .ofOffsets 0 (Text.byteLength lexeme.toList)⟩] := by
  have begins := isLiteral.begins []
  obtain ⟨char, more, spelled⟩ := List.exists_cons_of_ne_nil begins.nonempty
  have skips := begins.skips
  have scans := begins.scans
  rw [List.append_nil, spelled] at skips scans
  have nothing (offset : Nat) : Token.lexFrom offset [] = .ok [] := Token.lexFrom_of_skip rfl
  have lexed := Token.lexFrom_of_scan skips scans (nothing (0 + _ + _))
  rw [← spelled] at lexed
  simpa [Token.lex] using lexed

/-- A literal that is a whole text is read as the text that it stands for. -/
theorem IsLiteral.parse_eq {lexeme : String} (isLiteral : IsLiteral lexeme.toList) :
    Expr.parse lexeme = .ok (.string (decode lexeme)
      { span := some (.ofOffsets 0 (Text.byteLength lexeme.toList)) }) := by
  rw [Expr.parse, Token.ofText, isLiteral.lex_eq]
  rfl

/-- Every text is what some literal stands for: written between two quotes, with a backslash before
each backslash, each such quote and each line break, it is split into one token and read as a string
with that value. And every quoted token of every text is decoded without a way out. -/
theorem scanner_decoder_agree :
    (∀ quote, isQuote quote = true → ∀ text,
      (∃ token, Token.lex (guarded quote text) = .ok [token] ∧ token.kind = .quoted ∧
        token.text = guarded quote text) ∧
      ∃ info, Expr.parse (guarded quote text) = .ok (.string text info)) ∧
    ∀ source tokens, Token.lex source = .ok tokens → ∀ token ∈ tokens, token.kind = .quoted →
      decode? token.text = some (decode token.text) := by
  refine ⟨fun quote isQuote text => ?_, fun source tokens lexed token member kind => ?_⟩
  · have isLiteral := isLiteral_guarded isQuote text
    have parsed := isLiteral.parse_eq
    rw [decode_guarded isQuote] at parsed
    exact ⟨⟨_, isLiteral.lex_eq, rfl, rfl⟩, _, parsed⟩
  · have admits := Token.lexFrom_admits lexed token member
    rw [kind] at admits
    exact IsLiteral.decode?_eq admits

/-- A text with a quote, a line break and a letter of two bytes in it and a backslash at its end is
written with three more backslashes. -/
theorem endingBackslash_agrees :
    guarded '\'' "it's\n\u00e9\\" = "'it\\'s\\\n\u00e9\\\\'" ∧
      (∃ info, Expr.parse "'it\\'s\\\n\u00e9\\\\'" = .ok (.string "it's\n\u00e9\\" info)) ∧
      decode? "'it\\'s\\\n\u00e9\\\\'" = some "it's\n\u00e9\\" := by
  have spelled : guarded '\'' "it's\n\u00e9\\" = "'it\\'s\\\n\u00e9\\\\'" := by decide +kernel
  obtain ⟨agree, complete⟩ := scanner_decoder_agree
  obtain ⟨⟨token, lexed, kind, text⟩, parsed⟩ := agree '\'' rfl "it's\n\u00e9\\"
  have decoded := complete _ _ lexed token (List.mem_singleton_self token) kind
  rw [text, decode_guarded rfl, spelled] at decoded
  rw [spelled] at parsed
  exact ⟨spelled, parsed, decoded⟩

end ArrowCheck.Quoted
