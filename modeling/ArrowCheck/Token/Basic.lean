/-
This file defines tokens: the words, numerals, quoted texts and symbols that a
program is made of, each with the text it was read from and its place.
-/

import ArrowCheck.Operator
import ArrowCheck.Span

namespace ArrowCheck

/-- The words with a meaning of their own. -/
inductive Keyword where
  | const
  | return
  | true
  | false
deriving DecidableEq, Repr, Inhabited

namespace Keyword

/-- How a keyword is written. -/
def text : Keyword → String
  | .const => "const"
  | .return => "return"
  | .true => "true"
  | .false => "false"

/-- All keywords. -/
def all : List Keyword :=
  [.const, .return, .true, .false]

/-- The keyword that is written in a given way. -/
def ofText? (text : String) : Option Keyword :=
  all.find? fun keyword => keyword.text == text

end Keyword

/-- The symbols: operators and punctuation. -/
inductive Symbol where
  | binary (operator : Operator)
  | arrow
  | assign
  | bang
  | question
  | colon
  | semicolon
  | comma
  | dot
  | openParen
  | closeParen
  | openBracket
  | closeBracket
  | openBrace
  | closeBrace
deriving DecidableEq, Repr, Inhabited

namespace Symbol

/-- How a symbol is written. -/
def text : Symbol → String
  | .binary operator => operator.text
  | .arrow => "=>"
  | .assign => "="
  | .bang => "!"
  | .question => "?"
  | .colon => ":"
  | .semicolon => ";"
  | .comma => ","
  | .dot => "."
  | .openParen => "("
  | .closeParen => ")"
  | .openBracket => "["
  | .closeBracket => "]"
  | .openBrace => "\x7b"
  | .closeBrace => "\x7d"

/-- All symbols, longer ones first. The first of them that a text starts with is the longest one
that the text starts with. -/
def all : List Symbol :=
  [.binary .strictEqual, .binary .strictUnequal,
    .arrow, .binary .equal, .binary .unequal, .binary .lessEqual, .binary .greaterEqual,
    .binary .and, .binary .or,
    .assign, .binary .add, .binary .sub, .binary .mul, .binary .div, .binary .mod, .bang,
    .binary .less, .binary .greater, .question, .colon, .semicolon, .comma, .dot, .openParen,
    .closeParen, .openBracket, .closeBracket, .openBrace, .closeBrace]

/-- The longest symbol that a text starts with. -/
def leading? (chars : List Char) : Option Symbol :=
  all.find? fun symbol => symbol.text.toList.isPrefixOf chars

theorem leading?_append {chars : List Char} {symbol : Symbol}
    (leading : leading? chars = some symbol) :
    symbol.text.toList ++ chars.drop symbol.text.toList.length = chars := by
  have found := List.find?_some leading
  obtain ⟨rest, rfl⟩ := List.isPrefixOf_iff_prefix.mp found
  simp

theorem text_ne_nil (symbol : Symbol) : symbol.text.toList ≠ [] := by
  rcases symbol with operator | _
  · cases operator <;> decide
  all_goals decide

end Symbol

/-- What a token is. -/
inductive Token.Kind where
  | name
  | number
  | quoted
  | symbol (symbol : Symbol)
  | keyword (keyword : Keyword)
deriving DecidableEq, Repr, Inhabited

/-- A token with the text it was read from. -/
structure Token where
  kind : Token.Kind
  text : String
  span : Span
deriving DecidableEq, Repr, Inhabited

end ArrowCheck
