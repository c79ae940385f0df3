/-
This file defines the errors of the parser and the elementary steps that every
parser takes: to look for one symbol or name at the front of the tokens.
-/

import ArrowCheck.Token.Lexer

namespace ArrowCheck

/-- What a parser was looking for. -/
inductive Expected where
  | symbol (symbol : Symbol)
  | name
  | expression
  | endOfInput
deriving DecidableEq, Repr, Inhabited

/-- The wording of what was looked for. -/
def Expected.text : Expected → String
  | .symbol wanted => "'" ++ wanted.text ++ "'"
  | .name => "identifier"
  | .expression => "expression"
  | .endOfInput => "end of input"

/-- Why a text is not a program. -/
inductive ParseError where
  /-- The text cannot be split into tokens. -/
  | lexical (error : LexError)
  /-- Another token stands where something was looked for. -/
  | unexpected (expected : Expected) (found : Token)
  /-- The tokens end where something was looked for. -/
  | endOfInput (expected : Expected)
  /-- The parser was called with too small a bound on its depth. -/
  | tooDeep
deriving DecidableEq, Repr, Inhabited

namespace ParseError

/-- The wording of an error. -/
def message : ParseError → String
  | .lexical error => "lex error: " ++ error.message
  | .unexpected expected found =>
    "expected " ++ expected.text ++ " at " ++ found.span.text ++ ", found '" ++ found.text ++ "'"
  | .endOfInput expected => "unexpected end of input, expected " ++ expected.text
  | .tooDeep => "the text is nested too deeply"

/-- The place of an error, if it has one. -/
def span : ParseError → Option Span
  | .lexical error => some ⟨error.offset.toUInt32, error.offset.toUInt32 + 1⟩
  | .unexpected _ found => some found.span
  | .endOfInput _ => none
  | .tooDeep => none

/-- The error of looking for something at the front of the tokens. -/
def missing (expected : Expected) : List Token → ParseError
  | token :: _ => .unexpected expected token
  | [] => .endOfInput expected

end ParseError

namespace Token

/-- The place of a symbol at the front of the tokens, and the tokens after it. -/
def takeSymbol? (symbol : Symbol) : List Token → Option (Span × List Token)
  | ⟨.symbol found, _, span⟩ :: rest => if found = symbol then some (span, rest) else none
  | _ => none

/-- The place of a symbol that has to stand at the front of the tokens. -/
def takeSymbol (symbol : Symbol) (tokens : List Token) : Except ParseError (Span × List Token) :=
  match takeSymbol? symbol tokens with
  | some found => .ok found
  | none => .error (.missing (.symbol symbol) tokens)

/-- The name that has to stand at the front of the tokens, and its place. -/
def takeName : List Token → Except ParseError ((String × Span) × List Token)
  | ⟨.name, text, span⟩ :: rest => .ok ((text, span), rest)
  | tokens => .error (.missing .name tokens)

/-- What stands in parentheses, after the opening one. The parser that is given reads up to the
closing one what is not empty. -/
def takeParens {Value : Type}
    (takeFilled : List Token → Except ParseError (List Value × List Token)) (tokens : List Token) :
    Except ParseError (List Value × List Token) :=
  match takeSymbol? .closeParen tokens with
  | some (_, rest) => .ok ([], rest)
  | none => takeFilled tokens

/-- A bound on the depth of calls that no parser reaches on these tokens: between two tokens that a
parser takes there are fewer than ten calls. -/
def depthBound (tokens : List Token) : Nat :=
  10 * (tokens.length + 1)

end Token

end ArrowCheck
