/-
This file defines the grammar of the language: which lists of tokens are phrases
of a kind, and which tree each of them stands for. A phrase says nothing about the
places that its tree carries, and leaves every slot for a type empty.

Parentheses, the semicolon after a statement, the comma after a last argument or
element, and the names in front of the parameters of a function type leave no
trace in the tree. Every other token of a phrase does, in its order.
-/

import ArrowCheck.Numeric.Decimal
import ArrowCheck.Token.Quoted
import ArrowCheck.Tree.Basic

namespace ArrowCheck.Grammar

/-! ### Written types -/

/-- The name in front of a parameter of a function type, which may be left out. -/
inductive LabelPhrase : List Token → Prop where
  | absent : LabelPhrase []
  | present {name colon : Token} (named : name.kind = .name)
      (separates : colon.kind = .symbol .colon) : LabelPhrase [name, colon]

/-- What may stand in front of a type inside parentheses that only group it. -/
inductive Grouping where
  /-- Nothing may. -/
  | plain
  /-- A name may, as in front of a parameter. -/
  | labelled

/-- Whether tokens may stand in front of a type that is only grouped. -/
def Grouping.Allows : Grouping → List Token → Prop
  | .plain, label => label = []
  | .labelled, label => LabelPhrase label

section

variable (grouping : Grouping)

mutual

/-- A written type. -/
inductive TypePhrase : List Token → WrittenType → Prop where
  | named {name : Token} (isName : name.kind = .name) (span : Option Span) :
      TypePhrase [name] (.named name.text span)
  | applied {name opening closing : Token} {inner : List Token} {element : WrittenType}
      (isName : name.kind = .name) (isArray : name.text = "Array")
      (opens : opening.kind = .symbol (.binary .less)) (phrase : TypePhrase inner element)
      (closes : closing.kind = .symbol (.binary .greater)) (span : Option Span) :
      TypePhrase (name :: opening :: inner ++ [closing]) (.array element span)
  | brackets {opening closing : Token} {inner : List Token} {element : WrittenType}
      (phrase : TypePhrase inner element) (opens : opening.kind = .symbol .openBracket)
      (closes : closing.kind = .symbol .closeBracket) (span : Option Span) :
      TypePhrase (inner ++ [opening, closing]) (.array element span)
  | function {opening closing arrow : Token} {inner after : List Token}
      {params : List WrittenType} {result : WrittenType}
      (opens : opening.kind = .symbol .openParen) (paramsPhrase : TypesPhrase inner params)
      (closes : closing.kind = .symbol .closeParen) (points : arrow.kind = .symbol .arrow)
      (resultPhrase : TypePhrase after result) (span : Option Span) :
      TypePhrase (opening :: inner ++ closing :: arrow :: after) (.function params result span)
  | group {opening closing : Token} {label inner : List Token} {written : WrittenType}
      (opens : opening.kind = .symbol .openParen) (allowed : grouping.Allows label)
      (phrase : TypePhrase inner written) (closes : closing.kind = .symbol .closeParen) :
      TypePhrase (opening :: label ++ inner ++ [closing]) written

/-- The parameters of a function type, with commas between them. -/
inductive TypesPhrase : List Token → List WrittenType → Prop where
  | none : TypesPhrase [] []
  | last {label inner : List Token} {written : WrittenType} (labelled : LabelPhrase label)
      (phrase : TypePhrase inner written) : TypesPhrase (label ++ inner) [written]
  | cons {comma : Token} {label inner rest : List Token} {head next : WrittenType}
      {tail : List WrittenType} (labelled : LabelPhrase label) (phrase : TypePhrase inner head)
      (separates : comma.kind = .symbol .comma) (more : TypesPhrase rest (next :: tail)) :
      TypesPhrase (label ++ inner ++ comma :: rest) (head :: next :: tail)

end

/-- The type that may be declared after a colon. -/
inductive DeclaredPhrase : List Token → Option WrittenType → Prop where
  | absent : DeclaredPhrase [] none
  | present {colon : Token} {inner : List Token} {written : WrittenType}
      (separates : colon.kind = .symbol .colon) (phrase : TypePhrase grouping inner written) :
      DeclaredPhrase (colon :: inner) (some written)

/-! ### Heads of arrow functions -/

/-- A parameter with the type that it may be declared with. -/
inductive ParamPhrase : List Token → Param → Prop where
  | mk {name : Token} {after : List Token} {declared : Option WrittenType}
      (isName : name.kind = .name) (declaredPhrase : DeclaredPhrase grouping after declared)
      (span : Option Span) :
      ParamPhrase (name :: after)
        { name := name.text, declared := declared, info := { span := span } }

/-- The parameters of an arrow function, with commas between them. -/
inductive ParamsPhrase : List Token → List Param → Prop where
  | none : ParamsPhrase [] []
  | last {inner : List Token} {param : Param} (phrase : ParamPhrase grouping inner param) :
      ParamsPhrase inner [param]
  | cons {comma : Token} {inner rest : List Token} {head next : Param} {tail : List Param}
      (phrase : ParamPhrase grouping inner head) (separates : comma.kind = .symbol .comma)
      (more : ParamsPhrase rest (next :: tail)) :
      ParamsPhrase (inner ++ comma :: rest) (head :: next :: tail)

/-- What stands before the arrow of an arrow function: a lone name, or parameters in parentheses and
the type that the result may be declared with. -/
inductive HeadPhrase : List Token → List Param → Option WrittenType → Prop where
  | lone {name : Token} (isName : name.kind = .name) (span : Option Span) :
      HeadPhrase [name] [{ name := name.text, info := { span := span } }] none
  | params {opening closing : Token} {inner after : List Token} {params : List Param}
      {result : Option WrittenType} (opens : opening.kind = .symbol .openParen)
      (paramsPhrase : ParamsPhrase grouping inner params)
      (closes : closing.kind = .symbol .closeParen)
      (resultPhrase : DeclaredPhrase grouping after result) :
      HeadPhrase (opening :: inner ++ closing :: after) params result

/-! ### Expressions and statements -/

/-- The semicolon that may end a statement. -/
inductive EndPhrase : List Token → Prop where
  | absent : EndPhrase []
  | present {semicolon : Token} (ends : semicolon.kind = .symbol .semicolon) :
      EndPhrase [semicolon]

mutual

/-- A statement. -/
inductive StmtPhrase : List Token → Stmt → Prop where
  | const {keyword name assign : Token} {middle inner ending : List Token}
      {declared : Option WrittenType} {init : Expr} (declares : keyword.kind = .keyword .const)
      (isName : name.kind = .name) (declaredPhrase : DeclaredPhrase grouping middle declared)
      (assigns : assign.kind = .symbol .assign) (phrase : ExprPhrase inner init)
      (ends : EndPhrase ending) (span : Option Span) :
      StmtPhrase (keyword :: name :: middle ++ assign :: inner ++ ending)
        (.const name.text declared init { span := span })
  | returnNothing {keyword : Token} {ending : List Token}
      (returns : keyword.kind = .keyword .return) (ends : EndPhrase ending) (span : Option Span) :
      StmtPhrase (keyword :: ending) (.return none { span := span })
  | returnValue {keyword : Token} {inner ending : List Token} {argument : Expr}
      (returns : keyword.kind = .keyword .return) (phrase : ExprPhrase inner argument)
      (ends : EndPhrase ending) (span : Option Span) :
      StmtPhrase (keyword :: inner ++ ending) (.return (some argument) { span := span })
  | expr {inner ending : List Token} {value : Expr} (phrase : ExprPhrase inner value)
      (ends : EndPhrase ending) (span : Option Span) :
      StmtPhrase (inner ++ ending) (.expr (value.withSpan span))

/-- Statements one after the other. -/
inductive StmtsPhrase : List Token → List Stmt → Prop where
  | nil : StmtsPhrase [] []
  | cons {inner rest : List Token} {head : Stmt} {tail : List Stmt} (phrase : StmtPhrase inner head)
      (more : StmtsPhrase rest tail) : StmtsPhrase (inner ++ rest) (head :: tail)

/-- An expression. -/
inductive ExprPhrase : List Token → Expr → Prop where
  | arrow {arrow : Token} {before after : List Token} {params : List Param}
      {result : Option WrittenType} {body : Body}
      (headPhrase : HeadPhrase grouping before params result)
      (points : arrow.kind = .symbol .arrow) (bodyPhrase : BodyPhrase after body)
      (span : Option Span) :
      ExprPhrase (before ++ arrow :: after) (.arrow params result body { span := span })
  | conditional {question colon : Token} {before inner after : List Token}
      {test consequent alternate : Expr} {top : Option Operator}
      (testPhrase : ChainPhrase top before test) (asks : question.kind = .symbol .question)
      (consequentPhrase : ExprPhrase inner consequent) (separates : colon.kind = .symbol .colon)
      (alternatePhrase : ExprPhrase after alternate) (span : Option Span) :
      ExprPhrase (before ++ question :: inner ++ colon :: after)
        (.conditional test consequent alternate { span := span })
  | chain {inner : List Token} {value : Expr} {top : Option Operator}
      (phrase : ChainPhrase top inner value) : ExprPhrase inner value

/-- The body of an arrow function. -/
inductive BodyPhrase : List Token → Body → Prop where
  | block {opening closing : Token} {inner : List Token} {statements : List Stmt}
      (opens : opening.kind = .symbol .openBrace) (phrase : StmtsPhrase inner statements)
      (closes : closing.kind = .symbol .closeBrace) :
      BodyPhrase (opening :: inner ++ [closing]) (.block statements)
  | value {inner : List Token} {value : Expr} (phrase : ExprPhrase inner value) :
      BodyPhrase inner (.value value)

/-- Operands with operators between them, given with the outermost operator that stands outside all
parentheses. A left operand binds at least as tightly as the operator after it, and a right operand
more tightly than the operator before it. -/
inductive ChainPhrase : Option Operator → List Token → Expr → Prop where
  | operand {inner : List Token} {value : Expr} (phrase : OperandPhrase inner value) :
      ChainPhrase none inner value
  | binary {symbol : Token} {operator : Operator} {leftTop rightTop : Option Operator}
      {before after : List Token} {left right : Expr} (leftPhrase : ChainPhrase leftTop before left)
      (leftBinds : ∀ inner ∈ leftTop, operator.precedence ≤ inner.precedence)
      (joins : symbol.kind = .symbol (.binary operator))
      (rightPhrase : ChainPhrase rightTop after right)
      (rightBinds : ∀ inner ∈ rightTop, operator.precedence < inner.precedence)
      (span : Option Span) :
      ChainPhrase (some operator) (before ++ symbol :: after)
        (.binary operator left right { span := span })

/-- A primary expression with calls and indices after it. -/
inductive OperandPhrase : List Token → Expr → Prop where
  | primary {inner : List Token} {value : Expr} (phrase : PrimaryPhrase inner value) :
      OperandPhrase inner value
  | call {opening closing : Token} {before inner : List Token} {callee : Expr}
      {arguments : List Expr} (calleePhrase : OperandPhrase before callee)
      (opens : opening.kind = .symbol .openParen) (argumentsPhrase : ItemsPhrase inner arguments)
      (closes : closing.kind = .symbol .closeParen) (span : Option Span) :
      OperandPhrase (before ++ opening :: inner ++ [closing])
        (.call callee arguments { span := span })
  | index {opening closing : Token} {before inner : List Token} {object position : Expr}
      (objectPhrase : OperandPhrase before object) (opens : opening.kind = .symbol .openBracket)
      (positionPhrase : ExprPhrase inner position)
      (closes : closing.kind = .symbol .closeBracket) (span : Option Span) :
      OperandPhrase (before ++ opening :: inner ++ [closing])
        (.index object position { span := span })

/-- Arguments or elements with commas between them, and perhaps one more comma at the end. -/
inductive ItemsPhrase : List Token → List Expr → Prop where
  | none : ItemsPhrase [] []
  | last {inner : List Token} {item : Expr} (phrase : ExprPhrase inner item) :
      ItemsPhrase inner [item]
  | cons {comma : Token} {inner rest : List Token} {item : Expr} {items : List Expr}
      (phrase : ExprPhrase inner item) (separates : comma.kind = .symbol .comma)
      (more : ItemsPhrase rest items) : ItemsPhrase (inner ++ comma :: rest) (item :: items)

/-- A literal, a name, an array, or an expression in parentheses. -/
inductive PrimaryPhrase : List Token → Expr → Prop where
  | number {literal : Token} (isNumber : literal.kind = .number) (span : Option Span) :
      PrimaryPhrase [literal] (.number (Decimal.ofNumeral literal.text) { span := span })
  | string {literal : Token} (isQuoted : literal.kind = .quoted) (span : Option Span) :
      PrimaryPhrase [literal] (.string (Quoted.decode literal.text) { span := span })
  | true {keyword : Token} (isTrue : keyword.kind = .keyword .true) (span : Option Span) :
      PrimaryPhrase [keyword] (.bool true { span := span })
  | false {keyword : Token} (isFalse : keyword.kind = .keyword .false) (span : Option Span) :
      PrimaryPhrase [keyword] (.bool false { span := span })
  | ident {name : Token} (isName : name.kind = .name) (span : Option Span) :
      PrimaryPhrase [name] (.ident name.text { span := span })
  | array {opening closing : Token} {inner : List Token} {elements : List Expr}
      (opens : opening.kind = .symbol .openBracket) (phrase : ItemsPhrase inner elements)
      (closes : closing.kind = .symbol .closeBracket) (span : Option Span) :
      PrimaryPhrase (opening :: inner ++ [closing]) (.array elements { span := span })
  | group {opening closing : Token} {inner : List Token} {value : Expr}
      (opens : opening.kind = .symbol .openParen) (phrase : ExprPhrase inner value)
      (closes : closing.kind = .symbol .closeParen) (span : Option Span) :
      PrimaryPhrase (opening :: inner ++ [closing]) (value.withSpan span)

end

end

end ArrowCheck.Grammar
