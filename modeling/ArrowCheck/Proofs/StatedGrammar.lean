/-
This file defines the grammar of expressions as it is stated: which lists of tokens
are phrases of each part of the language, whatever trees they stand for. Here types
are not put into parentheses, all parameters of function types have names, and a
semicolon ends every statement of a block.

The grammar has a parameter: which two branches a conditional expression may have.
As the grammar is stated, it may have any two. The parser asks for more, because a
name in parentheses before a colon can start an arrow function, whose result type
then stands after the colon.
-/

import ArrowCheck.Proofs.Grammar

namespace ArrowCheck.Stated

/-- The parts of the language. -/
inductive Part where
  /-- A type. -/
  | type
  /-- The parameters of a function type. -/
  | typeParams
  /-- The type that may be declared after a colon. -/
  | declared
  /-- The parameters of an arrow function. -/
  | params
  /-- An expression. -/
  | expr
  /-- The body of an arrow function. -/
  | body
  /-- The statements of a block. -/
  | block
  /-- Operands with operators between them. -/
  | chain
  /-- Operators, each with the operand after it. -/
  | operators
  /-- A primary expression with calls and indices after it. -/
  | operand
  /-- Calls and indices. -/
  | suffixes
  /-- Arguments or elements. A comma may also stand after the last one. -/
  | items
  /-- A literal, a name, an array, or an expression in parentheses. -/
  | primary

/-- The phrases of each part, if conditional expressions may have some branches only. -/
inductive Phrase (Admits : List Token → List Token → Prop) : Part → List Token → Prop where
  -- types
  | typeName {name : Token} (isName : name.kind = .name) : Phrase Admits .type [name]
  | arrayType {name opening closing : Token} {inner : List Token} (isName : name.kind = .name)
      (isArray : name.text = "Array") (opens : opening.kind = .symbol (.binary .less))
      (element : Phrase Admits .type inner) (closes : closing.kind = .symbol (.binary .greater)) :
      Phrase Admits .type (name :: opening :: inner ++ [closing])
  | brackets {opening closing : Token} {inner : List Token} (element : Phrase Admits .type inner)
      (opens : opening.kind = .symbol .openBracket)
      (closes : closing.kind = .symbol .closeBracket) :
      Phrase Admits .type (inner ++ [opening, closing])
  | functionType {opening closing arrow : Token} {inner after : List Token}
      (opens : opening.kind = .symbol .openParen) (params : Phrase Admits .typeParams inner)
      (closes : closing.kind = .symbol .closeParen) (points : arrow.kind = .symbol .arrow)
      (result : Phrase Admits .type after) :
      Phrase Admits .type (opening :: inner ++ closing :: arrow :: after)
  | noTypeParams : Phrase Admits .typeParams []
  | lastTypeParam {name colon : Token} {inner : List Token} (isName : name.kind = .name)
      (separates : colon.kind = .symbol .colon) (type : Phrase Admits .type inner) :
      Phrase Admits .typeParams (name :: colon :: inner)
  | typeParam {name colon comma : Token} {inner rest : List Token} (isName : name.kind = .name)
      (separates : colon.kind = .symbol .colon) (type : Phrase Admits .type inner)
      (goesOn : comma.kind = .symbol .comma) (more : Phrase Admits .typeParams rest)
      (nonempty : rest ≠ []) :
      Phrase Admits .typeParams (name :: colon :: inner ++ comma :: rest)
  | undeclared : Phrase Admits .declared []
  | declared {colon : Token} {inner : List Token} (separates : colon.kind = .symbol .colon)
      (type : Phrase Admits .type inner) : Phrase Admits .declared (colon :: inner)
  -- arrow functions
  | noParams : Phrase Admits .params []
  | lastParam {name : Token} {declaration : List Token} (isName : name.kind = .name)
      (declared : Phrase Admits .declared declaration) :
      Phrase Admits .params (name :: declaration)
  | param {name comma : Token} {declaration rest : List Token} (isName : name.kind = .name)
      (declared : Phrase Admits .declared declaration) (goesOn : comma.kind = .symbol .comma)
      (more : Phrase Admits .params rest) (nonempty : rest ≠ []) :
      Phrase Admits .params (name :: declaration ++ comma :: rest)
  | nameArrow {name arrow : Token} {after : List Token} (isName : name.kind = .name)
      (points : arrow.kind = .symbol .arrow) (body : Phrase Admits .body after) :
      Phrase Admits .expr (name :: arrow :: after)
  | paramsArrow {opening closing arrow : Token} {inner declaration after : List Token}
      (opens : opening.kind = .symbol .openParen) (params : Phrase Admits .params inner)
      (closes : closing.kind = .symbol .closeParen)
      (declared : Phrase Admits .declared declaration) (points : arrow.kind = .symbol .arrow)
      (body : Phrase Admits .body after) :
      Phrase Admits .expr (opening :: inner ++ closing :: declaration ++ arrow :: after)
  | blockBody {opening closing : Token} {inner : List Token}
      (opens : opening.kind = .symbol .openBrace) (block : Phrase Admits .block inner)
      (closes : closing.kind = .symbol .closeBrace) :
      Phrase Admits .body (opening :: inner ++ [closing])
  | valueBody {inner : List Token} (value : Phrase Admits .expr inner) : Phrase Admits .body inner
  -- statements
  | noStatement : Phrase Admits .block []
  | const {keyword name assign semicolon : Token} {declaration inner rest : List Token}
      (declares : keyword.kind = .keyword .const) (isName : name.kind = .name)
      (declared : Phrase Admits .declared declaration) (assigns : assign.kind = .symbol .assign)
      (init : Phrase Admits .expr inner) (ends : semicolon.kind = .symbol .semicolon)
      (more : Phrase Admits .block rest) :
      Phrase Admits .block
        (keyword :: name :: declaration ++ assign :: inner ++ semicolon :: rest)
  | returnNothing {keyword semicolon : Token} {rest : List Token}
      (returns : keyword.kind = .keyword .return) (ends : semicolon.kind = .symbol .semicolon)
      (more : Phrase Admits .block rest) : Phrase Admits .block (keyword :: semicolon :: rest)
  | returnValue {keyword semicolon : Token} {inner rest : List Token}
      (returns : keyword.kind = .keyword .return) (argument : Phrase Admits .expr inner)
      (ends : semicolon.kind = .symbol .semicolon) (more : Phrase Admits .block rest) :
      Phrase Admits .block (keyword :: inner ++ semicolon :: rest)
  | statement {semicolon : Token} {inner rest : List Token} (value : Phrase Admits .expr inner)
      (ends : semicolon.kind = .symbol .semicolon) (more : Phrase Admits .block rest) :
      Phrase Admits .block (inner ++ semicolon :: rest)
  -- conditional expressions and operators
  | conditional {question colon : Token} {before inner after : List Token}
      (test : Phrase Admits .chain before) (asks : question.kind = .symbol .question)
      (consequent : Phrase Admits .expr inner) (separates : colon.kind = .symbol .colon)
      (alternate : Phrase Admits .expr after) (admits : Admits inner after) :
      Phrase Admits .expr (before ++ question :: inner ++ colon :: after)
  | unconditional {inner : List Token} (chain : Phrase Admits .chain inner) :
      Phrase Admits .expr inner
  | chain {before after : List Token} (operand : Phrase Admits .operand before)
      (operators : Phrase Admits .operators after) : Phrase Admits .chain (before ++ after)
  | noOperator : Phrase Admits .operators []
  | operator {symbol : Token} {operator : Operator} {inner rest : List Token}
      (joins : symbol.kind = .symbol (.binary operator)) (operand : Phrase Admits .operand inner)
      (more : Phrase Admits .operators rest) :
      Phrase Admits .operators (symbol :: inner ++ rest)
  -- operands
  | operand {before after : List Token} (primary : Phrase Admits .primary before)
      (suffixes : Phrase Admits .suffixes after) : Phrase Admits .operand (before ++ after)
  | noSuffix : Phrase Admits .suffixes []
  | call {opening closing : Token} {inner rest : List Token}
      (opens : opening.kind = .symbol .openParen) (arguments : Phrase Admits .items inner)
      (closes : closing.kind = .symbol .closeParen) (more : Phrase Admits .suffixes rest) :
      Phrase Admits .suffixes (opening :: inner ++ closing :: rest)
  | index {opening closing : Token} {inner rest : List Token}
      (opens : opening.kind = .symbol .openBracket) (position : Phrase Admits .expr inner)
      (closes : closing.kind = .symbol .closeBracket) (more : Phrase Admits .suffixes rest) :
      Phrase Admits .suffixes (opening :: inner ++ closing :: rest)
  | noItem : Phrase Admits .items []
  | lastItem {inner : List Token} (item : Phrase Admits .expr inner) : Phrase Admits .items inner
  | item {comma : Token} {inner rest : List Token} (item : Phrase Admits .expr inner)
      (goesOn : comma.kind = .symbol .comma) (more : Phrase Admits .items rest) :
      Phrase Admits .items (inner ++ comma :: rest)
  | literal {token : Token} (isLiteral : token.kind = .number ∨ token.kind = .quoted ∨
      token.kind = .keyword .true ∨ token.kind = .keyword .false) : Phrase Admits .primary [token]
  | name {token : Token} (isName : token.kind = .name) : Phrase Admits .primary [token]
  | array {opening closing : Token} {inner : List Token}
      (opens : opening.kind = .symbol .openBracket) (elements : Phrase Admits .items inner)
      (closes : closing.kind = .symbol .closeBracket) :
      Phrase Admits .primary (opening :: inner ++ [closing])
  | group {opening closing : Token} {inner : List Token}
      (opens : opening.kind = .symbol .openParen) (value : Phrase Admits .expr inner)
      (closes : closing.kind = .symbol .closeParen) :
      Phrase Admits .primary (opening :: inner ++ [closing])

/-- Any two branches. -/
def AnyBranches (_consequent _alternate : List Token) : Prop :=
  True

/-- A name in parentheses. -/
def Grouped (tokens : List Token) : Prop :=
  ∃ opening name closing : Token, tokens = [opening, name, closing] ∧
    opening.kind = .symbol .openParen ∧ name.kind = .name ∧ closing.kind = .symbol .closeParen

/-- An expression that is, or ends in, an expression that is only a name in parentheses: a branch
after a colon, or a body after an arrow. -/
def EndsGrouped (tokens : List Token) : Prop :=
  ∃ before group, tokens = before ++ group ∧ Grouped group ∧
    ∀ token ∈ before.getLast?, token.kind = .symbol .colon ∨ token.kind = .symbol .arrow

/-- Tokens that start with what is read as a type, and an arrow after it. A type that ends in a
parenthesis is not read as such before an arrow, which makes a function type of it. -/
def StartsTyped (tokens : List Token) : Prop :=
  ∃ (read : List Token) (written : WrittenType) (arrow : Token) (left : List Token),
    tokens = read ++ arrow :: left ∧ Grammar.TypePhrase .labelled read written ∧
      (∀ token ∈ read.getLast?, token.kind ≠ .symbol .closeParen) ∧ arrow.kind = .symbol .arrow

/-- Two branches that the parser can tell apart: the colon between them cannot be that of a result
type, which needs a name in parentheses before it, and a type and an arrow after it. -/
def Apart (consequent alternate : List Token) : Prop :=
  ¬(EndsGrouped consequent ∧ StartsTyped alternate)

end ArrowCheck.Stated
