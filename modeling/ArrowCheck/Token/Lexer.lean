/-
This file splits a text into tokens. Blanks and comments separate tokens and are
skipped. Every scanner below splits its input in two, what it read and what is
left, so that nothing is lost: what was read, put before what is left, is the
input again.
-/

import ArrowCheck.Text.Blank
import ArrowCheck.Token.Basic

namespace ArrowCheck

/-- Why a text cannot be split into tokens. -/
inductive LexError.Cause where
  | unexpectedCharacter
  | unterminated
deriving DecidableEq, Repr, Inhabited

/-- A place where a text cannot be split into tokens, and why. -/
structure LexError where
  offset : Nat
  cause : LexError.Cause
deriving DecidableEq, Repr, Inhabited

namespace LexError

/-- The wording of a cause. -/
def Cause.text : Cause → String
  | .unexpectedCharacter => "unexpected character"
  | .unterminated => "unterminated literal or comment"

/-- The wording of an error. -/
def message (error : LexError) : String :=
  "lexer error at offset " ++ error.offset.repr ++ ": " ++ error.cause.text

end LexError

namespace Token

/-- The two parts of a split input, with more characters counted as read. -/
def extend (chars : List Char) (split : Option (List Char × List Char)) :
    Option (List Char × List Char) :=
  split.map fun (read, left) => (chars ++ read, left)

/-! ### Blanks and comments -/

/-- Where a scan of blanks and comments stands. -/
inductive Region where
  | between
  | lineComment
  | blockComment
deriving DecidableEq, Repr

/-- Splits off the blanks and comments at the start of a text. A line comment ends with its line,
and a block comment has to be closed. -/
def skip : Region → List Char → Option (List Char × List Char)
  | .between, '/' :: '/' :: rest => extend ['/', '/'] (skip .lineComment rest)
  | .between, '/' :: '*' :: rest => extend ['/', '*'] (skip .blockComment rest)
  | .between, char :: rest =>
    if Text.isBlank char then extend [char] (skip .between rest) else some ([], char :: rest)
  | .between, [] => some ([], [])
  | .lineComment, '\n' :: rest => extend ['\n'] (skip .between rest)
  | .lineComment, char :: rest => extend [char] (skip .lineComment rest)
  | .lineComment, [] => some ([], [])
  | .blockComment, '*' :: '/' :: rest => extend ['*', '/'] (skip .between rest)
  | .blockComment, char :: rest => extend [char] (skip .blockComment rest)
  | .blockComment, [] => none

/-! ### Tokens -/

/-- Whether a name can start with a character. -/
def isNameStart (char : Char) : Bool :=
  char = '_' || char = '$' || char.isAlpha

/-- Whether a name can go on with a character. -/
def isNameRest (char : Char) : Bool :=
  char = '_' || char = '$' || char.isAlphanum

/-- Splits a quoted text after its closing quote. A backslash takes the next character with it,
whatever that is, and a line break that is not taken so ends the search. -/
def closeQuote (quote : Char) : (escaped : Bool) → List Char → Option (List Char × List Char)
  | _, [] => none
  | true, char :: rest => extend [char] (closeQuote quote false rest)
  | false, char :: rest =>
    if char = '\\' then extend [char] (closeQuote quote true rest)
    else if char = '\n' then none
    else if char = quote then some ([char], rest)
    else extend [char] (closeQuote quote false rest)

/-- Splits off a numeral: digits, and a fraction if a point has a digit after it. -/
def splitNumeral (chars : List Char) : List Char × List Char :=
  let whole := chars.takeWhile Char.isDigit
  match chars.dropWhile Char.isDigit with
  | '.' :: rest =>
    let fraction := rest.takeWhile Char.isDigit
    if fraction.isEmpty then (whole, '.' :: rest)
    else (whole ++ '.' :: fraction, rest.dropWhile Char.isDigit)
  | rest => (whole, rest)

/-- What a word is: a keyword, or a name if it is none. -/
def wordKind (chars : List Char) : Kind :=
  match Keyword.ofText? (String.ofList chars) with
  | some keyword => .keyword keyword
  | none => .name

/-- Splits off the token at the start of a text. -/
def scan : List Char → Except LexError.Cause (Kind × List Char × List Char)
  | [] => .error .unexpectedCharacter
  | char :: rest =>
    if char = '"' || char = '\'' then
      match closeQuote char false rest with
      | some (read, left) => .ok (.quoted, char :: read, left)
      | none => .error .unterminated
    else if char.isDigit then
      let (read, left) := splitNumeral (char :: rest)
      .ok (.number, read, left)
    else if isNameStart char then
      let read := char :: rest.takeWhile isNameRest
      .ok (wordKind read, read, rest.dropWhile isNameRest)
    else
      match Symbol.leading? (char :: rest) with
      | some symbol =>
        .ok (.symbol symbol, symbol.text.toList, (char :: rest).drop symbol.text.toList.length)
      | none => .error .unexpectedCharacter

/-! ### Nothing is lost -/

theorem extend_append {chars rest read left : List Char} {split : Option (List Char × List Char)}
    (whole : ∀ read, split = some (read, left) → read ++ left = rest)
    (extended : extend chars split = some (read, left)) : read ++ left = chars ++ rest := by
  obtain _ | ⟨inner, left'⟩ := split
  · cases extended
  · cases extended
    rw [List.append_assoc, whole inner rfl]

/-- What is skipped, put before what is left, is the input. -/
theorem skip_append {region : Region} {chars read left : List Char}
    (skipped : skip region chars = some (read, left)) : read ++ left = chars := by
  fun_induction skip region chars generalizing read with
  | case1 rest whole => exact extend_append (fun _ => whole) skipped
  | case2 rest whole => exact extend_append (fun _ => whole) skipped
  | case3 char rest notLine notBlock blank whole => exact extend_append (fun _ => whole) skipped
  | case4 char rest notLine notBlock notBlank => cases skipped; rfl
  | case5 => cases skipped; rfl
  | case6 rest whole => exact extend_append (fun _ => whole) skipped
  | case7 char rest inLine whole => exact extend_append (fun _ => whole) skipped
  | case8 => cases skipped; rfl
  | case9 rest whole => exact extend_append (fun _ => whole) skipped
  | case10 char rest inBlock whole => exact extend_append (fun _ => whole) skipped
  | case11 => cases skipped

theorem closeQuote_append {quote : Char} {escaped : Bool} {chars read left : List Char}
    (closed : closeQuote quote escaped chars = some (read, left)) : read ++ left = chars := by
  fun_induction closeQuote quote escaped chars generalizing read with
  | case1 => cases closed
  | case2 char rest whole => exact extend_append (fun _ => whole) closed
  | case3 rest whole => exact extend_append (fun _ => whole) closed
  | case4 => cases closed
  | case5 => cases closed; rfl
  | case6 char rest notEscape notBreak notQuote whole => exact extend_append (fun _ => whole) closed

theorem splitNumeral_append (chars : List Char) :
    (splitNumeral chars).1 ++ (splitNumeral chars).2 = chars := by
  have whole := List.takeWhile_append_dropWhile (p := Char.isDigit) (l := chars)
  unfold splitNumeral
  split
  · rename_i rest point
    have fraction := List.takeWhile_append_dropWhile (p := Char.isDigit) (l := rest)
    rw [point] at whole
    simp only
    split
    · exact whole
    · simp only [List.append_assoc, List.cons_append, fraction]
      exact whole
  · exact whole

theorem splitNumeral_ne_nil {char : Char} {rest : List Char} (digit : char.isDigit = true) :
    (splitNumeral (char :: rest)).1 ≠ [] := by
  unfold splitNumeral
  split
  · simp only
    split <;> simp [digit]
  · simp [digit]

/-- The lexeme of a token, put before what is left, is the input, and no lexeme is empty. -/
theorem scan_append {chars lexeme left : List Char} {kind : Kind}
    (scanned : scan chars = .ok (kind, lexeme, left)) : lexeme ++ left = chars ∧ lexeme ≠ [] := by
  obtain _ | ⟨char, rest⟩ := chars
  · simp [scan] at scanned
  · simp only [scan] at scanned
    split at scanned
    · split at scanned
      · rename_i read left' closed
        cases scanned
        simp [closeQuote_append closed]
      · cases scanned
    · split at scanned
      · rename_i digit
        cases scanned
        exact ⟨splitNumeral_append _, splitNumeral_ne_nil digit⟩
      · split at scanned
        · cases scanned
          simp [List.takeWhile_append_dropWhile]
        · split at scanned
          · rename_i symbol leading
            cases scanned
            exact ⟨Symbol.leading?_append leading, Symbol.text_ne_nil symbol⟩
          · cases scanned

theorem scan_length {chars lexeme left : List Char} {kind : Kind}
    (scanned : scan chars = .ok (kind, lexeme, left)) : left.length < chars.length := by
  obtain ⟨whole, nonempty⟩ := scan_append scanned
  have positive := List.length_pos_iff.mpr nonempty
  rw [← whole, List.length_append]
  omega

theorem skip_length {chars read left : List Char}
    (skipped : skip .between chars = some (read, left)) : left.length ≤ chars.length := by
  rw [← skip_append skipped, List.length_append]
  omega

/-! ### The tokens of a text -/

/-- The tokens of a text that begins at a given offset. A comment that is not closed is reported
where the blanks before it begin. -/
def lexFrom (offset : Nat) (chars : List Char) : Except LexError (List Token) :=
  match skipped : skip .between chars with
  | none => .error ⟨offset, .unterminated⟩
  | some (_, []) => .ok []
  | some (blanks, char :: rest) =>
    let start := offset + Text.byteLength blanks
    match scanned : scan (char :: rest) with
    | .error cause => .error ⟨start, cause⟩
    | .ok (kind, lexeme, left) =>
      have : left.length < chars.length :=
        Nat.lt_of_lt_of_le (scan_length scanned) (skip_length skipped)
      let stop := start + Text.byteLength lexeme
      match lexFrom stop left with
      | .error error => .error error
      | .ok tokens => .ok (⟨kind, String.ofList lexeme, .ofOffsets start stop⟩ :: tokens)
termination_by chars.length

/-- The tokens of a text. -/
def lex (text : String) : Except LexError (List Token) :=
  lexFrom 0 text.toList

end Token

end ArrowCheck
