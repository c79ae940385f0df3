/-
This file prints trees. A printed program is a list of pieces with single spaces
between them; a piece is a token, or a written type as it is displayed. An
expression stands in parentheses only where it would be read differently without
them: as an operand, as a callee, as an indexed object or as the test of a
conditional expression, if it does not bind as tightly as its surroundings ask.

The text of pieces that are spelled as the language has it is split into the words
of the pieces. How a number is written is a parameter, since a number has many
numerals.
-/

import ArrowCheck.Numeric.Decimal
import ArrowCheck.Proofs.WrittenTexts
import ArrowCheck.Tree.Basic

namespace ArrowCheck

open Token

/-- A piece of a printed program. -/
inductive Piece where
  | symbol (mark : Symbol)
  | keyword (reserved : Keyword)
  | name (spelling : String)
  | number (value : Binary64)
  | string (value : String)
  | type (written : WrittenType)

namespace Piece

section

variable (numeral : Binary64 → String)

/-- How a piece is written. -/
def text : Piece → String
  | .symbol mark => mark.text
  | .keyword reserved => reserved.text
  | .name spelling => spelling
  | .number value => numeral value
  | .string value => Quoted.encode '"' value
  | .type written => written.text

/-- The words that a piece is split into. -/
def words : Piece → List Word
  | .symbol mark => [mark.word]
  | .keyword reserved => [(.keyword reserved, reserved.text)]
  | .name spelling => [(.name, spelling)]
  | .number value => [(.number, numeral value)]
  | .string value => [(.quoted, Quoted.encode '"' value)]
  | .type written => written.words

/-- A piece is spelled as the language has it: names are names, and a number is written as a
numeral that is read as this number. -/
def Proper : Piece → Prop
  | .name spelling => isName spelling
  | .number value => IsNumeral (numeral value).toList ∧ Decimal.ofNumeral (numeral value) = value
  | .type written => written.Named
  | _ => True

/-- The text of pieces with single spaces between them. -/
def print (pieces : List Piece) : String :=
  " ".intercalate (pieces.map (text numeral))

end

variable {numeral : Binary64 → String}

/-- A proper piece is split into its words, before anything that cannot go on with it. -/
theorem Proper.lexesTo {piece : Piece} (proper : piece.Proper numeral) {chars : List Char}
    {words : List Word} (apart : Apart chars) (lexes : LexesTo chars words) :
    LexesTo ((piece.text numeral).toList ++ chars) (piece.words numeral ++ words) := by
  have single {kind : Kind} {lexeme : String} (begins : Begins kind lexeme.toList chars) :
      LexesTo (lexeme.toList ++ chars) ((kind, lexeme) :: words) := by
    have whole := lexes.token begins
    rwa [String.ofList_toList] at whole
  match piece with
  | .symbol mark => exact single (begins_symbol mark apart)
  | .keyword reserved => exact single (begins_keyword reserved apart)
  | .name _ => exact single (begins_name proper apart)
  | .number value => exact single (begins_numeral proper.1 apart)
  | .string value => exact single (Quoted.begins_encode rfl value chars)
  | .type written => exact written.text_lexesTo proper apart lexes

/-- The text of proper pieces is split into their words. -/
theorem print_lexesTo {pieces : List Piece} (proper : ∀ piece ∈ pieces, piece.Proper numeral) :
    LexesTo (print numeral pieces).toList (pieces.flatMap (words numeral)) := by
  match pieces with
  | [] => simpa [print] using lexesTo_nil
  | [last] =>
    have nothing : Apart [] := fun _ none => absurd none (by simp)
    simpa [print] using (proper last (by simp)).lexesTo nothing lexesTo_nil
  | head :: next :: tail =>
    obtain ⟨properHead, properTail⟩ := List.forall_mem_cons.mp proper
    have rest := print_lexesTo properTail
    have whole := properHead.lexesTo (WrittenType.apart_cons (by simp)) rest.blank
    simpa [print, String.intercalate_cons_cons] using whole

end Piece

/-! ### The pieces of a tree -/

/-- How tightly an expression binds: a binary operation as its operator does, what reaches as far to
the right as it can not at all, and everything else tighter than any operator. -/
def Expr.strength : Expr → Nat
  | .binary operator _ _ _ => operator.precedence
  | .conditional _ _ _ _ | .arrow _ _ _ _ => 0
  | _ => 7

/-- The pieces of an expression where nothing weaker than a given strength may stand: in parentheses
if it is weaker. -/
def Expr.enclose (least : Nat) (expr : Expr) (pieces : List Piece) : List Piece :=
  if expr.strength < least then .symbol .openParen :: pieces ++ [.symbol .closeParen] else pieces

/-- Lists of pieces with commas between them. -/
def Piece.separate (items : List (List Piece)) : List Piece :=
  [Piece.symbol .comma].intercalate items

/-- The pieces of a stated type, if there is one. -/
def WrittenType.declaredPieces : Option WrittenType → List Piece
  | none => []
  | some written => [.symbol .colon, .type written]

/-- The pieces of a parameter. -/
def Param.pieces (param : Param) : List Piece :=
  .name param.name :: WrittenType.declaredPieces param.declared

mutual

/-- The pieces of an expression. -/
def Expr.pieces : Expr → List Piece
  | .number value _ => [.number value]
  | .string value _ => [.string value]
  | .bool value _ => [.keyword (if value then .true else .false)]
  | .ident name _ => [.name name]
  | .binary operator left right _ =>
    left.enclose operator.precedence left.pieces ++
      .symbol (.binary operator) :: right.enclose (operator.precedence + 1) right.pieces
  | .conditional test consequent alternate _ =>
    test.enclose 1 test.pieces ++
      .symbol .question :: consequent.pieces ++ .symbol .colon :: alternate.pieces
  | .arrow params result body _ =>
    .symbol .openParen :: Piece.separate (params.map Param.pieces) ++
      .symbol .closeParen :: WrittenType.declaredPieces result ++ .symbol .arrow :: body.pieces
  | .call callee arguments _ =>
    callee.enclose 7 callee.pieces ++
      .symbol .openParen :: Piece.separate (Expr.piecesAll arguments) ++ [.symbol .closeParen]
  | .array elements _ =>
    .symbol .openBracket :: Piece.separate (Expr.piecesAll elements) ++ [.symbol .closeBracket]
  | .index object position _ =>
    object.enclose 7 object.pieces ++
      .symbol .openBracket :: position.pieces ++ [.symbol .closeBracket]

/-- The pieces of each of several expressions. -/
def Expr.piecesAll : List Expr → List (List Piece)
  | [] => []
  | head :: tail => head.pieces :: Expr.piecesAll tail

/-- The pieces of the body of an arrow function. -/
def Body.pieces : Body → List Piece
  | .value value => value.pieces
  | .block statements =>
    .symbol .openBrace :: Stmt.piecesAll statements ++ [.symbol .closeBrace]

/-- The pieces of a statement, which ends with a semicolon. -/
def Stmt.pieces : Stmt → List Piece
  | .const name declared init _ =>
    .keyword .const :: .name name :: WrittenType.declaredPieces declared ++
      .symbol .assign :: init.pieces ++ [.symbol .semicolon]
  | .return none _ => [.keyword .return, .symbol .semicolon]
  | .return (some argument) _ => .keyword .return :: argument.pieces ++ [.symbol .semicolon]
  | .expr value => value.pieces ++ [.symbol .semicolon]

/-- The pieces of statements. -/
def Stmt.piecesAll : List Stmt → List Piece
  | [] => []
  | head :: tail => head.pieces ++ Stmt.piecesAll tail

end

namespace Program

variable (numeral : Binary64 → String)

/-- The text of a program, with numbers written in a given way. -/
def print (program : Program) : String :=
  Piece.print numeral (Stmt.piecesAll program.body)

/-- The names in a program and in its written types are names of the language, and its numbers are
written as numerals that are read as these numbers. -/
def Printable (program : Program) : Prop :=
  ∀ piece ∈ Stmt.piecesAll program.body, piece.Proper numeral

end Program

end ArrowCheck
