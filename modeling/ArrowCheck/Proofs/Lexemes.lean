/-
This file describes the splitting of texts that are put together from lexemes. A
lexeme is read back as the token it is if what stands after it cannot be taken for
a part of it: a space, a comma, a closing parenthesis or an opening bracket never
can be. Kinds and lexemes are what a text determines wherever it stands; the places
of the tokens depend on what stands before the text.
-/

import Mathlib.Data.List.Basic
import Mathlib.Data.List.TakeWhile
import ArrowCheck.Token.Lexer
import ArrowCheck.Token.Quoted

namespace ArrowCheck

namespace Token

/-- What a token is but for its place: its kind and its lexeme. -/
abbrev Word := Kind × String

/-- The kind and the lexeme of a token. -/
def word (token : Token) : Word :=
  (token.kind, token.text)

/-- A text is split into words, wherever it stands. -/
def LexesTo (chars : List Char) (words : List Word) : Prop :=
  ∀ offset, ∃ tokens, lexFrom offset chars = .ok tokens ∧ tokens.map word = words

/-! ### One token at a time -/

variable {offset : Nat} {chars blanks lexeme left : List Char} {kind : Kind}
  {tokens : List Token} {words : List Word}

theorem lexFrom_of_skip (skipped : skip .between chars = some (blanks, [])) :
    lexFrom offset chars = .ok [] := by
  rw [lexFrom]
  split
  · next skipped' => simp [skipped] at skipped'
  · rfl
  · next skipped' => simp [skipped] at skipped'

theorem lexFrom_of_scan {char : Char} {rest : List Char}
    (skipped : skip .between chars = some (blanks, char :: rest))
    (scanned : scan (char :: rest) = .ok (kind, lexeme, left))
    (lexed : lexFrom (offset + Text.byteLength blanks + Text.byteLength lexeme) left = .ok tokens) :
    lexFrom offset chars = .ok (⟨kind, String.ofList lexeme, .ofOffsets
      (offset + Text.byteLength blanks)
      (offset + Text.byteLength blanks + Text.byteLength lexeme)⟩ :: tokens) := by
  rw [lexFrom]
  split
  · next skipped' => simp [skipped] at skipped'
  · next skipped' => simp [skipped] at skipped'
  · next skipped' =>
    rw [skipped] at skipped'
    cases skipped'
    split
    · next scanned' => simp [scanned] at scanned'
    · next scanned' =>
      rw [scanned] at scanned'
      cases scanned'
      simp only [lexed]

/-- A text that can be split either holds nothing but blanks and comments or has a first token. -/
theorem exists_of_lexFrom_eq_ok (lexed : lexFrom offset chars = .ok tokens) :
    (∃ blanks, skip .between chars = some (blanks, []) ∧ tokens = []) ∨
      ∃ blanks char rest kind lexeme left later,
        skip .between chars = some (blanks, char :: rest) ∧
        scan (char :: rest) = .ok (kind, lexeme, left) ∧
        lexFrom (offset + Text.byteLength blanks + Text.byteLength lexeme) left = .ok later ∧
        tokens = ⟨kind, String.ofList lexeme, .ofOffsets (offset + Text.byteLength blanks)
          (offset + Text.byteLength blanks + Text.byteLength lexeme)⟩ :: later := by
  rw [lexFrom] at lexed
  split at lexed
  · cases lexed
  · next blanks skipped =>
    cases lexed
    exact Or.inl ⟨blanks, skipped, rfl⟩
  · next blanks char rest skipped =>
    split at lexed
    · cases lexed
    · next kind lexeme left scanned =>
      simp only at lexed
      split at lexed
      · cases lexed
      · next later lexed' =>
        cases lexed
        exact Or.inr ⟨blanks, char, rest, kind, lexeme, left, later, skipped, scanned, lexed', rfl⟩

/-! ### Texts put together -/

theorem lexesTo_nil : LexesTo [] [] :=
  fun _ => ⟨[], lexFrom_of_skip rfl, rfl⟩

/-- A space separates and is not read. -/
theorem LexesTo.blank (lexes : LexesTo chars words) : LexesTo (' ' :: chars) words := by
  intro offset
  obtain ⟨tokens, lexed, same⟩ := lexes (offset + 1)
  refine ⟨tokens, ?_, same⟩
  have skips : skip .between (' ' :: chars) = extend [' '] (skip .between chars) := rfl
  obtain ⟨blanks, skipped, rfl⟩ | ⟨blanks, char, rest, kind, lexeme, left, later, skipped, scanned,
    lexed', rfl⟩ := exists_of_lexFrom_eq_ok lexed
  · rw [skipped] at skips
    exact lexFrom_of_skip skips
  · rw [skipped] at skips
    have moved : offset + 1 + Text.byteLength blanks =
        offset + Text.byteLength ([' '] ++ blanks) := by
      rw [Text.byteLength_append, ← Nat.add_assoc]
      rfl
    rw [moved] at lexed' ⊢
    exact lexFrom_of_scan skips scanned lexed'

/-- A lexeme of a kind can be split off from what stands after it. -/
structure Begins (kind : Kind) (lexeme left : List Char) : Prop where
  nonempty : lexeme ≠ []
  skips : skip .between (lexeme ++ left) = some ([], lexeme ++ left)
  scans : scan (lexeme ++ left) = .ok (kind, lexeme, left)

/-- A lexeme that can be split off is the first word. -/
theorem LexesTo.token (begins : Begins kind lexeme left) (lexes : LexesTo left words) :
    LexesTo (lexeme ++ left) ((kind, String.ofList lexeme) :: words) := by
  intro offset
  obtain ⟨tokens, lexed, rfl⟩ := lexes (offset + Text.byteLength [] + Text.byteLength lexeme)
  obtain ⟨char, more, rfl⟩ := List.exists_cons_of_ne_nil begins.nonempty
  exact ⟨_, lexFrom_of_scan begins.skips begins.scans lexed, rfl⟩

/-- Nothing is skipped before a character that is not blank and starts no comment. -/
theorem skip_of_solid {char : Char} {rest : List Char} (solid : Text.isBlank char = false)
    (noComment : char = '/' → ∀ next ∈ rest.head?, next ≠ '/' ∧ next ≠ '*') :
    skip .between (char :: rest) = some ([], char :: rest) := by
  rw [skip, if_neg (by simp [solid])]
  · rintro more rfl rfl
    exact (noComment rfl '/' rfl).1 rfl
  · rintro more rfl rfl
    exact (noComment rfl '*' rfl).2 rfl

/-- The characters that no lexeme goes on with may stand after it. -/
def Apart (chars : List Char) : Prop :=
  ∀ char ∈ chars.head?, char = ' ' ∨ char = ',' ∨ char = ')' ∨ char = '['

/-- A run of members of a class ends where a member of another class stands. -/
theorem splitRun {α : Type} {isMember : α → Bool} {run rest : List α}
    (within : ∀ item ∈ run, isMember item) (outside : ∀ item ∈ rest.head?, isMember item = false) :
    (run ++ rest).takeWhile isMember = run ∧ (run ++ rest).dropWhile isMember = rest := by
  rw [List.takeWhile_append_of_pos within, List.dropWhile_append_of_pos within]
  cases rest with
  | nil => simp
  | cons item rest => simp [outside item rfl]

/-! ### Words -/

theorem nameStart_range {char : Char} (starts : isNameStart char = true) :
    char = '_' ∨ char = '$' ∨ 65 ≤ char.toNat ∧ char.toNat ≤ 90 ∨
      97 ≤ char.toNat ∧ char.toNat ≤ 122 := by
  simp only [isNameStart, Bool.or_eq_true, decide_eq_true_eq] at starts
  obtain (same | same) | letter := starts
  · exact Or.inl same
  · exact Or.inr (Or.inl same)
  · obtain upper | lower := Bool.or_eq_true_iff.mp letter
    · exact Or.inr (Or.inr (Or.inl (of_decide_eq_true upper)))
    · obtain ⟨least, most⟩ := Bool.and_eq_true_iff.mp lower
      exact Or.inr (Or.inr (Or.inr ⟨of_decide_eq_true least, of_decide_eq_true most⟩))

theorem isBlank_of_isNameStart {char : Char} (starts : isNameStart char = true) :
    Text.isBlank char = false := by
  obtain rfl | rfl | upper | lower := nameStart_range starts
  · decide
  · decide
  · simp [Text.isBlank, Text.blankRanges]
    omega
  · simp [Text.isBlank, Text.blankRanges]
    omega

theorem isDigit_of_isNameStart {char : Char} (starts : isNameStart char = true) :
    char.isDigit = false := by
  obtain rfl | rfl | upper | lower := nameStart_range starts
  · decide
  · decide
  · rw [Bool.eq_false_iff, ne_eq, Char.isDigit_iff_toNat]
    exact fun digit => absurd digit.2 (Nat.not_le.mpr (Nat.lt_of_lt_of_le (by decide) upper.1))
  · rw [Bool.eq_false_iff, ne_eq, Char.isDigit_iff_toNat]
    exact fun digit => absurd digit.2 (Nat.not_le.mpr (Nat.lt_of_lt_of_le (by decide) lower.1))

theorem ne_of_isNameStart {char other : Char} (starts : isNameStart char = true)
    (cannot : isNameStart other = false) : char ≠ other := by
  rintro rfl
  rw [starts] at cannot
  cases cannot

/-- Whether a text is written like a name or a keyword. -/
def isWord (text : String) : Bool :=
  match text.toList with
  | [] => false
  | char :: more => isNameStart char && more.all isNameRest

/-- Whether a text is a name: it is written like one and is no keyword. -/
def isName (text : String) : Bool :=
  isWord text && (Keyword.ofText? text).isNone

theorem Apart.isNameRest {chars : List Char} (apart : Apart chars) :
    ∀ char ∈ chars.head?, isNameRest char = false := by
  intro char member
  obtain rfl | rfl | rfl | rfl := apart char member <;> decide

theorem begins_word {text : String} (spelled : isWord text = true) {left : List Char}
    (apart : Apart left) : Begins (wordKind text.toList) text.toList left := by
  unfold isWord at spelled
  split at spelled
  · cases spelled
  · next char more same =>
    rw [same]
    simp only [Bool.and_eq_true, List.all_eq_true] at spelled
    obtain ⟨starts, goesOn⟩ := spelled
    obtain ⟨taken, dropped⟩ := splitRun goesOn apart.isNameRest
    have double : char ≠ '"' := ne_of_isNameStart starts rfl
    have single : char ≠ '\'' := ne_of_isNameStart starts rfl
    refine ⟨List.cons_ne_nil char more, ?_, ?_⟩
    · exact skip_of_solid (isBlank_of_isNameStart starts) fun same =>
        absurd same (ne_of_isNameStart starts rfl)
    · simp [scan, double, single, isDigit_of_isNameStart starts, starts, taken, dropped]

theorem begins_name {name : String} (named : isName name = true) {left : List Char}
    (apart : Apart left) : Begins .name name.toList left := by
  simp only [isName, Bool.and_eq_true, Option.isNone_iff_eq_none] at named
  have begins := begins_word named.1 apart
  rwa [wordKind, String.ofList_toList, named.2] at begins

theorem begins_keyword (keyword : Keyword) {left : List Char} (apart : Apart left) :
    Begins (.keyword keyword) keyword.text.toList left := by
  have spelled : isWord keyword.text = true := by cases keyword <;> decide
  have kind : wordKind keyword.text.toList = .keyword keyword := by cases keyword <;> decide
  rw [← kind]
  exact begins_word spelled apart

/-! ### Numerals -/

/-- The numerals of the language: digits, and perhaps a point and more digits. -/
inductive IsNumeral : List Char → Prop where
  | whole {digits : List Char} (nonempty : digits ≠ []) (each : ∀ char ∈ digits, char.isDigit) :
      IsNumeral digits
  | fraction {digits more : List Char} (nonempty : digits ≠ [])
      (each : ∀ char ∈ digits, char.isDigit) (nonempty' : more ≠ [])
      (each' : ∀ char ∈ more, char.isDigit) : IsNumeral (digits ++ '.' :: more)

theorem isBlank_of_isDigit {char : Char} (digit : char.isDigit = true) :
    Text.isBlank char = false := by
  rw [Char.isDigit_iff_toNat] at digit
  have low : 48 ≤ char.toNat := digit.1
  have high : char.toNat ≤ 57 := digit.2
  simp [Text.isBlank, Text.blankRanges]
  omega

theorem ne_of_isDigit {char other : Char} (digit : char.isDigit = true)
    (cannot : other.isDigit = false) : char ≠ other := by
  rintro rfl
  rw [digit] at cannot
  cases cannot

theorem Apart.isDigit {chars : List Char} (apart : Apart chars) :
    ∀ char ∈ chars.head?, char.isDigit = false := by
  intro char member
  obtain rfl | rfl | rfl | rfl := apart char member <;> decide

theorem splitNumeral_of_isNumeral {numeral left : List Char} (isNumeral : IsNumeral numeral)
    (apart : Apart left) : splitNumeral (numeral ++ left) = (numeral, left) := by
  cases isNumeral with
  | whole nonempty each =>
    obtain ⟨taken, dropped⟩ := splitRun each apart.isDigit
    rw [splitNumeral, taken, dropped]
    split
    · next rest same => simpa using apart '.' (by simp)
    · rfl
  | @fraction digits more nonempty each nonempty' each' =>
    have point : ∀ char ∈ ('.' :: more ++ left).head?, char.isDigit = false := by
      simp
    obtain ⟨taken, dropped⟩ := splitRun each point
    obtain ⟨taken', dropped'⟩ := splitRun each' apart.isDigit
    rw [List.append_assoc, splitNumeral, taken, dropped]
    simp [taken', dropped', nonempty']

theorem begins_numeral {numeral left : List Char} (isNumeral : IsNumeral numeral)
    (apart : Apart left) : Begins .number numeral left := by
  obtain ⟨char, more, rfl, digit⟩ : ∃ char more, numeral = char :: more ∧ char.isDigit := by
    cases isNumeral with
    | whole nonempty each =>
      obtain ⟨char, more, rfl⟩ := List.exists_cons_of_ne_nil nonempty
      exact ⟨char, more, rfl, each char (by simp)⟩
    | fraction nonempty each _ _ =>
      obtain ⟨char, more, rfl⟩ := List.exists_cons_of_ne_nil nonempty
      exact ⟨char, _, rfl, each char (by simp)⟩
  have double : char ≠ '"' := ne_of_isDigit digit rfl
  have single : char ≠ '\'' := ne_of_isDigit digit rfl
  have split := splitNumeral_of_isNumeral isNumeral apart
  refine ⟨List.cons_ne_nil char more, ?_, ?_⟩
  · exact skip_of_solid (isBlank_of_isDigit digit) fun same =>
      absurd same (ne_of_isDigit digit rfl)
  · rw [List.cons_append] at split ⊢
    simp [scan, double, single, digit, split]

/-! ### Symbols -/

theorem begins_symbol (symbol : Symbol) {left : List Char} (apart : Apart left) :
    Begins (.symbol symbol) symbol.text.toList left := by
  rcases left with _ | ⟨char, left⟩
  case' cons => obtain rfl | rfl | rfl | rfl := apart char rfl
  all_goals
    rcases symbol with operator | _
    · cases operator <;> exact ⟨Symbol.text_ne_nil _, rfl, rfl⟩
    all_goals exact ⟨Symbol.text_ne_nil _, rfl, rfl⟩

/-- The symbols that are split off whatever stands after them, since no symbol is longer. -/
def isFirm : Symbol → Bool
  | .arrow | .comma | .openParen | .closeParen | .openBracket | .closeBracket => true
  | _ => false

theorem begins_firm {symbol : Symbol} (firm : isFirm symbol = true) (left : List Char) :
    Begins (.symbol symbol) symbol.text.toList left := by
  cases symbol with
  | arrow | comma | openParen | closeParen | openBracket | closeBracket =>
    exact ⟨Symbol.text_ne_nil _, rfl, rfl⟩
  | _ => cases firm

end Token

/-! ### Quoted texts -/

namespace Quoted

/-- Characters as they stand between quotes: those that would not stand for themselves there are
written with a backslash. -/
def encodeChars (quote : Char) : List Char → List Char
  | [] => []
  | char :: rest =>
    if char = '\n' then '\\' :: 'n' :: encodeChars quote rest
    else if char = '\\' ∨ char = quote then '\\' :: char :: encodeChars quote rest
    else char :: encodeChars quote rest

/-- The literal that stands for a text. -/
def encode (quote : Char) (text : String) : String :=
  String.ofList (quote :: encodeChars quote text.toList ++ [quote])

/-- Whether a character can quote a text. -/
def isQuote (char : Char) : Bool :=
  char = '"' || char = '\''

variable {quote : Char}

theorem isQuote_iff : isQuote quote = true ↔ quote = '"' ∨ quote = '\'' := by
  simp [isQuote]

theorem closeQuote_encodeChars (isQuote : isQuote quote = true) (chars left : List Char) :
    Token.closeQuote quote false (encodeChars quote chars ++ quote :: left) =
      some (encodeChars quote chars ++ [quote], left) := by
  have kinds : quote ≠ '\\' ∧ quote ≠ '\n' := by
    obtain rfl | rfl := isQuote_iff.mp isQuote <;> decide
  induction chars with
  | nil => simp [encodeChars, Token.closeQuote, kinds]
  | cons char chars inductionHypothesis =>
    rw [encodeChars]
    split_ifs with breaks special
    · simp [Token.closeQuote, inductionHypothesis, Token.extend]
    · simp [Token.closeQuote, inductionHypothesis, Token.extend]
    · obtain ⟨notEscape, notQuote⟩ := not_or.mp special
      simp [Token.closeQuote, notEscape, notQuote, breaks, inductionHypothesis, Token.extend]

theorem decodeChars_encodeChars (isQuote : isQuote quote = true) (chars : List Char) :
    decodeChars (encodeChars quote chars) = chars := by
  induction chars with
  | nil => rfl
  | cons char chars inductionHypothesis =>
    rw [encodeChars]
    split_ifs with breaks special
    · rw [decodeChars, inductionHypothesis, breaks]
      rfl
    · have itself : escaped char = char := by
        obtain rfl | rfl := special
        · decide
        · obtain rfl | rfl := isQuote_iff.mp isQuote <;> decide
      rw [decodeChars, itself, inductionHypothesis]
    · have plain : char ≠ '\\' := fun same => special (Or.inl same)
      rw [decodeChars, inductionHypothesis]
      · exact fun same => absurd same plain
      · exact fun _ _ same => absurd same plain

theorem decode_encode (isQuote : isQuote quote = true) (text : String) :
    decode (encode quote text) = text := by
  have size : quote.utf8Size = 1 := by
    obtain rfl | rfl := isQuote_iff.mp isQuote <;> decide
  have body : inside (quote :: encodeChars quote text.toList ++ [quote]) =
      encodeChars quote text.toList := by
    simp [inside, size]
  rw [decode, encode, String.toList_ofList, body, decodeChars_encodeChars isQuote,
    String.ofList_toList]

/-- The literal that stands for a text is split off whatever stands after it. -/
theorem begins_encode (isQuote : isQuote quote = true) (text : String) (left : List Char) :
    Token.Begins .quoted (encode quote text).toList left := by
  rw [encode, String.toList_ofList]
  refine ⟨List.cons_ne_nil _ _, ?_, ?_⟩
  · obtain rfl | rfl := isQuote_iff.mp isQuote <;>
      exact Token.skip_of_solid (by decide) fun same => absurd same (by decide)
  · have closed := closeQuote_encodeChars isQuote text.toList left
    simp only [List.cons_append, List.append_assoc, List.nil_append, Token.scan]
    obtain rfl | rfl := isQuote_iff.mp isQuote <;> simp [closed]

end Quoted

end ArrowCheck
