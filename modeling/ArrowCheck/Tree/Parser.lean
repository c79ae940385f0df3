/-
This file parses programs. An arrow function and a parenthesised expression can
start alike, so the head of an arrow function is read first on trial: if it is
not complete up to its arrow, the same tokens are read as another expression.
Binary operators are read by precedence, each operator taking as its right
operand only what binds tighter than itself.

Every parser takes a bound on the depth of its calls. The bound that is computed
from the number of tokens is never reached.
-/

import ArrowCheck.Numeric.Decimal
import ArrowCheck.Token.Quoted
import ArrowCheck.Tree.Basic
import ArrowCheck.WrittenType.Parser

namespace ArrowCheck.Tree

/-! ### The head of an arrow function -/

/-- What stands before the body of an arrow function, and where it starts. -/
structure ArrowHead where
  start : Span
  params : List Param
  result : Option WrittenType

/-- The written type after a colon at the front of the tokens, if there is a colon. -/
def parseDeclared (tokens : List Token) : Except ParseError (Option WrittenType × List Token) :=
  match Token.takeSymbol? .colon tokens with
  | some (_, rest) => do
    let (written, rest) ← WrittenType.parse rest
    pure (some written, rest)
  | none => pure (none, tokens)

/-- The parameters of an arrow function up to the closing parenthesis, of which there is at least
one. -/
def parseParams : (depth : Nat) → List Token → Except ParseError (List Param × List Token)
  | 0, _ => .error .tooDeep
  | depth + 1, tokens => do
    let ((name, span), rest) ← Token.takeName tokens
    let (declared, rest) ← parseDeclared rest
    let span := Span.join (some span) (declared.bind WrittenType.span)
    let param : Param := { name := name, declared := declared, info := { span := span } }
    match Token.takeSymbol? .comma rest with
    | some (_, rest) => do
      let (params, rest) ← parseParams depth rest
      pure (param :: params, rest)
    | none => do
      let (_, rest) ← Token.takeSymbol .closeParen rest
      pure ([param], rest)

/-- The parameters of an arrow function after the opening parenthesis. -/
def parseParens (tokens : List Token) : Except ParseError (List Param × List Token) :=
  Token.takeParens (parseParams (Token.depthBound tokens)) tokens

/-- What stands after the parameters of an arrow function, up to its arrow. -/
def parseAfterParams (start : Span) (params : List Param) (tokens : List Token) :
    Except ParseError (ArrowHead × List Token) := do
  let (result, rest) ← parseDeclared tokens
  let (_, rest) ← Token.takeSymbol .arrow rest
  pure (⟨start, params, result⟩, rest)

/-- The head of an arrow function whose parameters stand in parentheses, after the opening one. -/
def parseHead (start : Span) (tokens : List Token) :
    Except ParseError (ArrowHead × List Token) := do
  let (params, rest) ← parseParens tokens
  parseAfterParams start params rest

/-- The head of the arrow function at the front of the tokens, if one stands there. -/
def arrowHead? : List Token → Option (ArrowHead × List Token)
  | ⟨.name, name, span⟩ :: ⟨.symbol .arrow, _, _⟩ :: rest =>
    some (⟨span, [{ name := name, info := { span := some span } }], none⟩, rest)
  | ⟨.symbol .openParen, _, opening⟩ :: rest => (parseHead opening rest).toOption
  | _ => none

/-- The attempt to read an arrow function. If no complete head stands at the front of the tokens,
then none of them is taken. -/
def tryArrow (parseBody : ArrowHead → List Token → Except ParseError (Expr × List Token))
    (tokens : List Token) : Except ParseError (Option Expr × List Token) :=
  match arrowHead? tokens with
  | some (head, rest) => do
    let (value, rest) ← parseBody head rest
    pure (some value, rest)
  | none => pure (none, tokens)

/-! ### Statements around their expressions -/

/-- Whether a return without an argument ends here. -/
def atStatementEnd : List Token → Bool
  | [] => true
  | ⟨.symbol .semicolon, _, _⟩ :: _ => true
  | ⟨.symbol .closeBrace, _, _⟩ :: _ => true
  | _ => false

section

variable (parseValue : List Token → Except ParseError (Expr × List Token))

/-- A declaration after its keyword, with the semicolon that may end it. -/
def parseConst (start : Span) (tokens : List Token) : Except ParseError (Stmt × List Token) := do
  let ((name, nameSpan), rest) ← Token.takeName tokens
  let (declared, rest) ← parseDeclared rest
  let (_, rest) ← Token.takeSymbol .assign rest
  let (init, rest) ← parseValue rest
  let (stop, rest) := (Token.takeSymbol? .semicolon rest).getD (init.span.getD nameSpan, rest)
  pure (.const name declared init { span := some (start.cover stop) }, rest)

/-- A return after its keyword, with the semicolon that may end it. -/
def parseReturn (start : Span) (tokens : List Token) : Except ParseError (Stmt × List Token) := do
  let (argument, rest) ←
    if atStatementEnd tokens then pure (none, tokens)
    else do
      let (argument, rest) ← parseValue tokens
      pure (some argument, rest)
  let (stop, rest) :=
    (Token.takeSymbol? .semicolon rest).getD ((argument.bind Expr.span).getD start, rest)
  pure (.return argument { span := some (start.cover stop) }, rest)

/-- An expression as a statement, which takes the semicolon that may end it into its place. -/
def parseExprStmt (tokens : List Token) : Except ParseError (Stmt × List Token) := do
  let (value, rest) ← parseValue tokens
  match Token.takeSymbol? .semicolon rest with
  | some (semicolon, rest) =>
    pure (.expr (value.withSpan (Span.join value.span (some semicolon))), rest)
  | none => pure (.expr value, rest)

end

/-! ### Expressions and statements -/

/-- The binary operator at the front of the tokens. -/
def takeOperator? : List Token → Option (Operator × List Token)
  | ⟨.symbol (.binary operator), _, _⟩ :: rest => some (operator, rest)
  | _ => none

mutual

/-- A statement, with the semicolon that may end it. -/
def parseStmt : (depth : Nat) → List Token → Except ParseError (Stmt × List Token)
  | 0, _ => .error .tooDeep
  | depth + 1, ⟨.keyword .const, _, start⟩ :: rest => parseConst (parseExpr depth) start rest
  | depth + 1, ⟨.keyword .return, _, start⟩ :: rest => parseReturn (parseExpr depth) start rest
  | depth + 1, tokens => parseExprStmt (parseExpr depth) tokens

/-- An expression. -/
def parseExpr : (depth : Nat) → List Token → Except ParseError (Expr × List Token)
  | 0, _ => .error .tooDeep
  | depth + 1, tokens => do
    let (arrow, rest) ← tryArrow (parseArrow depth) tokens
    match arrow with
    | some value => pure (value, rest)
    | none => parseConditional depth rest

/-- The arrow function with a given head, from its body on. -/
def parseArrow : (depth : Nat) → ArrowHead → List Token → Except ParseError (Expr × List Token)
  | 0, _, _ => .error .tooDeep
  | depth + 1, head, tokens =>
    match Token.takeSymbol? .openBrace tokens with
    | some (opening, rest) => do
      let ((statements, close), rest) ← parseBlock depth rest
      pure (.arrow head.params head.result (.block statements)
        { span := some (head.start.cover (opening.cover close)) }, rest)
    | none => do
      let (value, rest) ← parseExpr depth tokens
      pure (.arrow head.params head.result (.value value)
        { span := some (head.start.cover (value.span.getD head.start)) }, rest)

/-- The statements of a block up to its closing brace, and the place of that brace. -/
def parseBlock : (depth : Nat) → List Token → Except ParseError ((List Stmt × Span) × List Token)
  | 0, _ => .error .tooDeep
  | depth + 1, tokens =>
    match Token.takeSymbol? .closeBrace tokens with
    | some (close, rest) => pure (([], close), rest)
    | none =>
      if tokens.isEmpty then .error (.endOfInput (.symbol .closeBrace))
      else do
        let (statement, rest) ← parseStmt depth tokens
        let ((statements, close), rest) ← parseBlock depth rest
        pure ((statement :: statements, close), rest)

/-- An expression that is not an arrow function. -/
def parseConditional : (depth : Nat) → List Token → Except ParseError (Expr × List Token)
  | 0, _ => .error .tooDeep
  | depth + 1, tokens => do
    let (test, rest) ← parseBinary depth 1 tokens
    match Token.takeSymbol? .question rest with
    | some (_, rest) => do
      let (consequent, rest) ← parseExpr depth rest
      let (_, rest) ← Token.takeSymbol .colon rest
      let (alternate, rest) ← parseExpr depth rest
      pure (.conditional test consequent alternate
        { span := Span.join test.span alternate.span }, rest)
    | none => pure (test, rest)

/-- Operands joined by operators of at least a given precedence. -/
def parseBinary :
    (depth : Nat) → (least : Nat) → List Token → Except ParseError (Expr × List Token)
  | 0, _, _ => .error .tooDeep
  | depth + 1, least, tokens => do
    let (left, rest) ← parseOperand depth tokens
    parseOperators depth least left rest

/-- The operators of at least a given precedence after a left operand, with their right operands. -/
def parseOperators :
    (depth : Nat) → (least : Nat) → Expr → List Token → Except ParseError (Expr × List Token)
  | 0, _, _, _ => .error .tooDeep
  | depth + 1, least, left, tokens =>
    match takeOperator? tokens with
    | some (operator, rest) =>
      if operator.precedence < least then pure (left, tokens)
      else do
        let (right, rest) ← parseBinary depth (operator.precedence + 1) rest
        parseOperators depth least
          (.binary operator left right { span := Span.join left.span right.span }) rest
    | none => pure (left, tokens)

/-- A primary expression with the calls and indices after it. -/
def parseOperand : (depth : Nat) → List Token → Except ParseError (Expr × List Token)
  | 0, _ => .error .tooDeep
  | depth + 1, tokens => do
    let (primary, rest) ← parsePrimary depth tokens
    parseSuffixes depth primary rest

/-- The calls and indices after an expression. -/
def parseSuffixes : (depth : Nat) → Expr → List Token → Except ParseError (Expr × List Token)
  | 0, _, _ => .error .tooDeep
  | depth + 1, callee, ⟨.symbol .openParen, _, _⟩ :: rest => do
    let ((arguments, close), rest) ← parseItems depth .closeParen rest
    parseSuffixes depth
      (.call callee arguments { span := Span.join callee.span (some close) }) rest
  | depth + 1, object, ⟨.symbol .openBracket, _, _⟩ :: rest => do
    let (position, rest) ← parseExpr depth rest
    let (close, rest) ← Token.takeSymbol .closeBracket rest
    parseSuffixes depth (.index object position { span := Span.join object.span (some close) }) rest
  | _ + 1, value, tokens => pure (value, tokens)

/-- Expressions with commas between them up to a closing symbol, and the place of that symbol. A
comma may also stand before the closing symbol. -/
def parseItems :
    (depth : Nat) → (closing : Symbol) → List Token →
      Except ParseError ((List Expr × Span) × List Token)
  | 0, _, _ => .error .tooDeep
  | depth + 1, closing, tokens =>
    match Token.takeSymbol? closing tokens with
    | some (close, rest) => pure (([], close), rest)
    | none => do
      let (item, rest) ← parseExpr depth tokens
      match Token.takeSymbol? .comma rest with
      | some (_, rest) => do
        let ((items, close), rest) ← parseItems depth closing rest
        pure ((item :: items, close), rest)
      | none => do
        let (close, rest) ← Token.takeSymbol closing rest
        pure (([item], close), rest)

/-- A literal, a name, an array, or an expression in parentheses, which takes the place of its
parentheses. -/
def parsePrimary : (depth : Nat) → List Token → Except ParseError (Expr × List Token)
  | 0, _ => .error .tooDeep
  | _ + 1, ⟨.number, text, span⟩ :: rest =>
    pure (.number (Decimal.ofNumeral text) { span := some span }, rest)
  | _ + 1, ⟨.quoted, text, span⟩ :: rest =>
    pure (.string (Quoted.decode text) { span := some span }, rest)
  | _ + 1, ⟨.keyword .true, _, span⟩ :: rest => pure (.bool true { span := some span }, rest)
  | _ + 1, ⟨.keyword .false, _, span⟩ :: rest => pure (.bool false { span := some span }, rest)
  | _ + 1, ⟨.name, text, span⟩ :: rest => pure (.ident text { span := some span }, rest)
  | depth + 1, ⟨.symbol .openBracket, _, opening⟩ :: rest => do
    let ((elements, close), rest) ← parseItems depth .closeBracket rest
    pure (.array elements { span := some (opening.cover close) }, rest)
  | depth + 1, ⟨.symbol .openParen, _, opening⟩ :: rest => do
    let (inner, rest) ← parseExpr depth rest
    let (close, rest) ← Token.takeSymbol .closeParen rest
    pure (inner.withSpan (some (opening.cover close)), rest)
  | _ + 1, tokens => .error (.missing .expression tokens)

end

theorem parseExpr_eq_conditional {tokens : List Token} (headless : arrowHead? tokens = none)
    (depth : Nat) : parseExpr (depth + 1) tokens = parseConditional depth tokens := by
  rw [parseExpr, tryArrow, headless]
  rfl

theorem parseExpr_eq_arrow {tokens rest : List Token} {head : ArrowHead}
    (headed : arrowHead? tokens = some (head, rest)) (depth : Nat) :
    parseExpr (depth + 1) tokens = parseArrow depth head rest := by
  rw [parseExpr, tryArrow, headed]
  show ((parseArrow depth head rest >>= _) >>= _) = _
  cases parseArrow depth head rest <;> rfl

/-! ### Whole texts -/

/-- Statements up to the end of the tokens. -/
def parseStmts : (depth : Nat) → List Token → Except ParseError (List Stmt)
  | 0, _ => .error .tooDeep
  | _ + 1, [] => .ok []
  | depth + 1, tokens => do
    let (statement, rest) ← parseStmt depth tokens
    let statements ← parseStmts depth rest
    pure (statement :: statements)

end Tree

/-- The tokens of a text, with the error of the parser. -/
def Token.ofText (text : String) : Except ParseError (List Token) :=
  match Token.lex text with
  | .ok tokens => .ok tokens
  | .error error => .error (.lexical error)

/-- The program that a text stands for. It takes the place of the whole text. -/
def Program.parse (text : String) : Except ParseError Program := do
  let tokens ← Token.ofText text
  let statements ← Tree.parseStmts (Token.depthBound tokens) tokens
  pure { body := statements, info := { span := some (.ofOffsets 0 text.utf8ByteSize) } }

/-- The expression that a whole text stands for. -/
def Expr.parse (text : String) : Except ParseError Expr := do
  let tokens ← Token.ofText text
  let (value, rest) ← Tree.parseExpr (Token.depthBound tokens) tokens
  match rest with
  | [] => pure value
  | token :: _ => .error (.unexpected .endOfInput token)

end ArrowCheck
