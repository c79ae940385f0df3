/-
This file says what the parsers of expressions and statements do with tokens whose
front is known: one lemma for each way in which a parser can go on. The tokens are
described by their kinds, and what other parsers make of the tokens after them is a
hypothesis, so that the lemmas can be put together along a tree.
-/

import ArrowCheck.Proofs.WrittenTexts
import ArrowCheck.Tree.Parser

namespace ArrowCheck.Tree

open Token

variable {depth least : Nat} {token : Token} {tokens after rest : List Token} {operator : Operator}
  {expr left right test consequent alternate : Expr} {items : List Expr} {close : Span}

/-! ### Heads of arrow functions -/

/-- The parameter that a name and its stated type make. -/
def paramOf (name : Token) (declared : Option WrittenType) : Param :=
  { name := name.text
    declared := declared
    info := { span := Span.join (some name.span) (declared.bind WrittenType.span) } }

section

variable {name : Token} {declared : Option WrittenType} {params : List Param}

theorem parseDeclared_none (avoids : Avoids [.colon] tokens) :
    parseDeclared tokens = .ok (none, tokens) := by
  rw [parseDeclared, takeSymbol?_eq_none avoids (by simp)]
  rfl

theorem parseDeclared_some {written : WrittenType} (separates : token.kind = .symbol .colon)
    (parsed : WrittenType.parse tokens = .ok (written, rest)) :
    parseDeclared (token :: tokens) = .ok (some written, rest) := by
  rw [parseDeclared, takeSymbol?_cons separates]
  show (WrittenType.parse tokens >>= _) = _
  rw [parsed]
  rfl

theorem parseParams_last (isName : name.kind = .name)
    (parsed : parseDeclared tokens = .ok (declared, token :: rest))
    (closes : token.kind = .symbol .closeParen) :
    parseParams (depth + 1) (name :: tokens) = .ok ([paramOf name declared], rest) := by
  show (takeName (name :: tokens) >>= _) = _
  rw [takeName_cons isName]
  show (parseDeclared tokens >>= _) = _
  rw [parsed, ok_bind]
  have noComma : Avoids [.comma] (token :: rest) := avoids_cons closes (by simp)
  have absent : takeSymbol? .comma (token :: rest) = none := takeSymbol?_eq_none noComma (by simp)
  simp only [absent]
  show (takeSymbol .closeParen (token :: rest) >>= _) = _
  rw [takeSymbol_cons closes]
  rfl

theorem parseParams_cons (isName : name.kind = .name)
    (parsed : parseDeclared tokens = .ok (declared, token :: after))
    (separates : token.kind = .symbol .comma)
    (more : parseParams depth after = .ok (params, rest)) :
    parseParams (depth + 1) (name :: tokens) = .ok (paramOf name declared :: params, rest) := by
  show (takeName (name :: tokens) >>= _) = _
  rw [takeName_cons isName]
  show (parseDeclared tokens >>= _) = _
  rw [parsed, ok_bind]
  simp only [takeSymbol?_cons separates]
  show (parseParams depth after >>= _) = _
  rw [more]
  rfl

theorem parseParens_nil (closes : token.kind = .symbol .closeParen) :
    parseParens (token :: rest) = .ok ([], rest) :=
  takeParens_nil closes

/-- Parameters start with a name, so they do not close the list. -/
theorem parseParens_of_params
    (parsed : parseParams (depthBound tokens) tokens = .ok (params, rest)) :
    parseParens tokens = .ok (params, rest) := by
  unfold parseParens takeParens
  split
  · next found =>
    unfold takeSymbol? at found
    split at found
    · next symbol text span more =>
      have failed : parseParams (depthBound (⟨.symbol symbol, text, span⟩ :: more))
          (⟨.symbol symbol, text, span⟩ :: more) = .error (.missing .name _) := rfl
      rw [failed] at parsed
      cases parsed
    · cases found
  · exact parsed

/-- No list of parameters starts with anything but a name or the closing parenthesis. -/
theorem parseParens_of_ne_name (noName : token.kind ≠ .name)
    (filled : token.kind ≠ .symbol .closeParen) :
    parseParens (token :: rest) = .error (.missing .name (token :: rest)) := by
  have avoids : Avoids [.closeParen] (token :: rest) := by
    rintro _ ⟨⟩ symbol member
    rwa [List.mem_singleton.mp member]
  have missing : takeName (token :: rest) = .error (.missing .name (token :: rest)) := by
    unfold takeName
    split
    · next same =>
      cases same
      exact absurd rfl noName
    · rfl
  rw [parseParens, takeParens_eq avoids]
  show (takeName (token :: rest) >>= _) = _
  rw [missing]
  rfl

/-- After the name of a parameter comes a colon, a comma or the closing parenthesis. -/
theorem parseParens_of_name (isName : name.kind = .name)
    (avoids : Avoids [.colon, .comma, .closeParen] rest) :
    parseParens (name :: rest) = .error (.missing (.symbol .closeParen) rest) := by
  have filled : Avoids [.closeParen] (name :: rest) := by
    rintro _ ⟨⟩ symbol _ isSymbol
    rw [isName] at isSymbol
    cases isSymbol
  rw [parseParens, takeParens_eq filled]
  show (takeName (name :: rest) >>= _) = _
  rw [takeName_cons isName]
  show (parseDeclared rest >>= _) = _
  rw [parseDeclared_none (avoids.mono (by simp)), ok_bind]
  have noComma : takeSymbol? .comma rest = none := takeSymbol?_eq_none avoids (by simp)
  simp only [noComma]
  show (takeSymbol .closeParen rest >>= _) = _
  rw [takeSymbol, takeSymbol?_eq_none avoids (by simp)]
  rfl

theorem arrowHead?_parens {arrow : Token} {result : Option WrittenType}
    (opens : token.kind = .symbol .openParen) (parsed : parseParens tokens = .ok (params, after))
    (parsed' : parseDeclared after = .ok (result, arrow :: rest))
    (points : arrow.kind = .symbol .arrow) :
    arrowHead? (token :: tokens) = some (⟨token.span, params, result⟩, rest) := by
  obtain ⟨kind, text, span⟩ := token
  cases opens
  show (parseParens tokens >>= _).toOption = _
  rw [parsed]
  show (parseDeclared after >>= _).toOption = _
  rw [parsed']
  show (takeSymbol .arrow (arrow :: rest) >>= _).toOption = _
  rw [takeSymbol_cons points]
  rfl

theorem arrowHead?_of_error {error : ParseError} (opens : token.kind = .symbol .openParen)
    (failed : parseParens tokens = .error error) : arrowHead? (token :: tokens) = none := by
  obtain ⟨kind, text, span⟩ := token
  cases opens
  show (parseParens tokens >>= _).toOption = _
  rw [failed]
  rfl

theorem arrowHead?_of_ne_openParen (notParen : token.kind ≠ .symbol .openParen)
    (notArrow : token.kind = .name → Avoids [.arrow] rest) : arrowHead? (token :: rest) = none := by
  unfold arrowHead?
  split
  · next same =>
    cases same
    exact absurd rfl (notArrow rfl _ rfl .arrow (by simp))
  · next same =>
    cases same
    exact absurd rfl notParen
  · rfl

end

/-! ### Operands -/

theorem parsePrimary_number (isNumber : token.kind = .number) :
    parsePrimary (depth + 1) (token :: rest) =
      .ok (.number (Decimal.ofNumeral token.text) { span := some token.span }, rest) := by
  obtain ⟨kind, text, span⟩ := token
  cases isNumber
  rfl

theorem parsePrimary_quoted (isQuoted : token.kind = .quoted) :
    parsePrimary (depth + 1) (token :: rest) =
      .ok (.string (Quoted.decode token.text) { span := some token.span }, rest) := by
  obtain ⟨kind, text, span⟩ := token
  cases isQuoted
  rfl

theorem parsePrimary_bool {value : Bool}
    (isKeyword : token.kind = .keyword (if value then .true else .false)) :
    parsePrimary (depth + 1) (token :: rest) =
      .ok (.bool value { span := some token.span }, rest) := by
  obtain ⟨kind, text, span⟩ := token
  cases isKeyword
  cases value <;> rfl

theorem parsePrimary_name (isName : token.kind = .name) :
    parsePrimary (depth + 1) (token :: rest) =
      .ok (.ident token.text { span := some token.span }, rest) := by
  obtain ⟨kind, text, span⟩ := token
  cases isName
  rfl

theorem parsePrimary_array (opens : token.kind = .symbol .openBracket)
    (parsed : parseItems depth .closeBracket tokens = .ok ((items, close), rest)) :
    parsePrimary (depth + 1) (token :: tokens) =
      .ok (.array items { span := some (token.span.cover close) }, rest) := by
  obtain ⟨kind, text, span⟩ := token
  cases opens
  show (parseItems depth .closeBracket tokens >>= _) = _
  rw [parsed]
  rfl

theorem parsePrimary_group {closing : Token} (opens : token.kind = .symbol .openParen)
    (parsed : parseExpr depth tokens = .ok (expr, closing :: rest))
    (closes : closing.kind = .symbol .closeParen) :
    parsePrimary (depth + 1) (token :: tokens) =
      .ok (expr.withSpan (some (token.span.cover closing.span)), rest) := by
  obtain ⟨kind, text, span⟩ := token
  cases opens
  show (parseExpr depth tokens >>= _) = _
  rw [parsed]
  show (takeSymbol .closeParen (closing :: rest) >>= _) = _
  rw [takeSymbol_cons closes]
  rfl

theorem parseOperand_of_primary (parsed : parsePrimary depth tokens = .ok (expr, rest)) :
    parseOperand (depth + 1) tokens = parseSuffixes depth expr rest := by
  show (parsePrimary depth tokens >>= _) = _
  rw [parsed]
  rfl

theorem parseSuffixes_call (opens : token.kind = .symbol .openParen)
    (parsed : parseItems depth .closeParen tokens = .ok ((items, close), rest)) :
    parseSuffixes (depth + 1) expr (token :: tokens) =
      parseSuffixes depth (.call expr items { span := Span.join expr.span (some close) }) rest := by
  obtain ⟨kind, text, span⟩ := token
  cases opens
  show (parseItems depth .closeParen tokens >>= _) = _
  rw [parsed]
  rfl

theorem parseSuffixes_index {closing : Token} {position : Expr}
    (opens : token.kind = .symbol .openBracket)
    (parsed : parseExpr depth tokens = .ok (position, closing :: rest))
    (closes : closing.kind = .symbol .closeBracket) :
    parseSuffixes (depth + 1) expr (token :: tokens) =
      parseSuffixes depth
        (.index expr position { span := Span.join expr.span (some closing.span) }) rest := by
  obtain ⟨kind, text, span⟩ := token
  cases opens
  show (parseExpr depth tokens >>= _) = _
  rw [parsed]
  show (takeSymbol .closeBracket (closing :: rest) >>= _) = _
  rw [takeSymbol_cons closes]
  rfl

theorem parseSuffixes_end (avoids : Avoids [.openParen, .openBracket] rest) :
    parseSuffixes (depth + 1) expr rest = .ok (expr, rest) := by
  unfold parseSuffixes
  split
  · next less => cases less
  · exact absurd rfl (avoids _ rfl .openParen (by simp))
  · exact absurd rfl (avoids _ rfl .openBracket (by simp))
  · rfl

theorem parseItems_nil {closing : Symbol} (closes : token.kind = .symbol closing) :
    parseItems (depth + 1) closing (token :: rest) = .ok (([], token.span), rest) := by
  rw [parseItems, takeSymbol?_cons closes]
  rfl

theorem parseItems_last {closing : Symbol} (opens : Avoids [closing] tokens)
    (parsed : parseExpr depth tokens = .ok (expr, token :: rest))
    (closes : token.kind = .symbol closing) (other : closing ≠ .comma) :
    parseItems (depth + 1) closing tokens = .ok (([expr], token.span), rest) := by
  rw [parseItems, takeSymbol?_eq_none opens (by simp)]
  show (parseExpr depth tokens >>= _) = _
  rw [parsed, ok_bind]
  have noComma : Avoids [.comma] (token :: rest) := avoids_cons closes (by simp [other])
  have absent : takeSymbol? .comma (token :: rest) = none := takeSymbol?_eq_none noComma (by simp)
  simp only [absent]
  show (takeSymbol closing (token :: rest) >>= _) = _
  rw [takeSymbol_cons closes]
  rfl

theorem parseItems_cons {closing : Symbol} (opens : Avoids [closing] tokens)
    (parsed : parseExpr depth tokens = .ok (expr, token :: after))
    (separates : token.kind = .symbol .comma)
    (more : parseItems depth closing after = .ok ((items, close), rest)) :
    parseItems (depth + 1) closing tokens = .ok ((expr :: items, close), rest) := by
  rw [parseItems, takeSymbol?_eq_none opens (by simp)]
  show (parseExpr depth tokens >>= _) = _
  rw [parsed, ok_bind]
  simp only [takeSymbol?_cons separates]
  show (parseItems depth closing after >>= _) = _
  rw [more]
  rfl

/-! ### Operators -/

theorem parseBinary_of_operand (parsed : parseOperand depth tokens = .ok (left, rest)) :
    parseBinary (depth + 1) least tokens = parseOperators depth least left rest := by
  show (parseOperand depth tokens >>= _) = _
  rw [parsed]
  rfl

theorem parseOperators_cons (isOperator : token.kind = .symbol (.binary operator))
    (tight : least ≤ operator.precedence)
    (parsed : parseBinary depth (operator.precedence + 1) tokens = .ok (right, rest)) :
    parseOperators (depth + 1) least left (token :: tokens) =
      parseOperators depth least
        (.binary operator left right { span := Span.join left.span right.span }) rest := by
  obtain ⟨kind, text, span⟩ := token
  cases isOperator
  show (if operator.precedence < least then _ else _) = _
  rw [if_neg (Nat.not_lt.mpr tight)]
  show (parseBinary depth (operator.precedence + 1) tokens >>= _) = _
  rw [parsed]
  rfl

theorem parseOperators_end (loose : ∀ token ∈ rest.head?, ∀ operator,
      token.kind = .symbol (.binary operator) → operator.precedence < least) :
    parseOperators (depth + 1) least left rest = .ok (left, rest) := by
  rw [parseOperators]
  split
  · next found =>
    unfold takeOperator? at found
    split at found
    · cases found
      exact if_pos (loose _ rfl _ rfl)
    · cases found
  · rfl

/-! ### Whole expressions -/

theorem parseConditional_of_binary (parsed : parseBinary depth 1 tokens = .ok (expr, rest))
    (avoids : Avoids [.question] rest) :
    parseConditional (depth + 1) tokens = .ok (expr, rest) := by
  show (parseBinary depth 1 tokens >>= _) = _
  rw [parsed, ok_bind]
  have noBranch : takeSymbol? .question rest = none := takeSymbol?_eq_none avoids (by simp)
  simp only [noBranch]
  rfl

theorem parseConditional_branches {question colon : Token} {after' : List Token}
    (parsed : parseBinary depth 1 tokens = .ok (test, question :: after))
    (asks : question.kind = .symbol .question)
    (parsed' : parseExpr depth after = .ok (consequent, colon :: after'))
    (separates : colon.kind = .symbol .colon)
    (parsed'' : parseExpr depth after' = .ok (alternate, rest)) :
    parseConditional (depth + 1) tokens =
      .ok (.conditional test consequent alternate
        { span := Span.join test.span alternate.span }, rest) := by
  show (parseBinary depth 1 tokens >>= _) = _
  rw [parsed, ok_bind]
  simp only [takeSymbol?_cons asks]
  show (parseExpr depth after >>= _) = _
  rw [parsed']
  show (takeSymbol .colon (colon :: after') >>= _) = _
  rw [takeSymbol_cons separates]
  show (parseExpr depth after' >>= _) = _
  rw [parsed'']
  rfl

theorem parseExpr_of_conditional (headless : arrowHead? tokens = none)
    (parsed : parseConditional depth tokens = .ok (expr, rest)) :
    parseExpr (depth + 1) tokens = .ok (expr, rest) :=
  (parseExpr_eq_conditional headless depth).trans parsed

theorem parseExpr_of_arrow {head : ArrowHead} (headed : arrowHead? tokens = some (head, after))
    (parsed : parseArrow depth head after = .ok (expr, rest)) :
    parseExpr (depth + 1) tokens = .ok (expr, rest) :=
  (parseExpr_eq_arrow headed depth).trans parsed

theorem parseArrow_value {head : ArrowHead} (avoids : Avoids [.openBrace] tokens)
    (parsed : parseExpr depth tokens = .ok (expr, rest)) :
    parseArrow (depth + 1) head tokens =
      .ok (.arrow head.params head.result (.value expr)
        { span := some (head.start.cover (expr.span.getD head.start)) }, rest) := by
  rw [parseArrow, takeSymbol?_eq_none avoids (by simp)]
  show (parseExpr depth tokens >>= _) = _
  rw [parsed]
  rfl

theorem parseArrow_block {head : ArrowHead} {statements : List Stmt}
    (opens : token.kind = .symbol .openBrace)
    (parsed : parseBlock depth tokens = .ok ((statements, close), rest)) :
    parseArrow (depth + 1) head (token :: tokens) =
      .ok (.arrow head.params head.result (.block statements)
        { span := some (head.start.cover (token.span.cover close)) }, rest) := by
  rw [parseArrow, takeSymbol?_cons opens]
  show (parseBlock depth tokens >>= _) = _
  rw [parsed]
  rfl

/-! ### Statements -/

theorem parseBlock_nil (closes : token.kind = .symbol .closeBrace) :
    parseBlock (depth + 1) (token :: rest) = .ok (([], token.span), rest) := by
  rw [parseBlock, takeSymbol?_cons closes]
  rfl

theorem parseBlock_cons {statement : Stmt} {statements : List Stmt}
    (avoids : Avoids [.closeBrace] tokens) (nonempty : tokens ≠ [])
    (parsed : parseStmt depth tokens = .ok (statement, after))
    (more : parseBlock depth after = .ok ((statements, close), rest)) :
    parseBlock (depth + 1) tokens = .ok ((statement :: statements, close), rest) := by
  rw [parseBlock, takeSymbol?_eq_none avoids (by simp)]
  show (if tokens.isEmpty then _ else _) = _
  rw [if_neg (by simpa using nonempty)]
  show (parseStmt depth tokens >>= _) = _
  rw [parsed]
  show (parseBlock depth after >>= _) = _
  rw [more]
  rfl

theorem parseStmt_const {name assign semicolon : Token} {declared : Option WrittenType}
    (isKeyword : token.kind = .keyword .const) (isName : name.kind = .name)
    (parsedType : parseDeclared tokens = .ok (declared, assign :: after))
    (assigns : assign.kind = .symbol .assign)
    (parsed : parseExpr depth after = .ok (expr, semicolon :: rest))
    (ends : semicolon.kind = .symbol .semicolon) :
    parseStmt (depth + 1) (token :: name :: tokens) =
      .ok (.const name.text declared expr
        { span := some (token.span.cover semicolon.span) }, rest) := by
  obtain ⟨kind, text, span⟩ := token
  obtain ⟨kind', text', span'⟩ := semicolon
  cases isKeyword
  cases ends
  show (takeName (name :: tokens) >>= _) = _
  rw [takeName_cons isName]
  show (parseDeclared tokens >>= _) = _
  rw [parsedType]
  show (takeSymbol .assign (assign :: after) >>= _) = _
  rw [takeSymbol_cons assigns]
  show (parseExpr depth after >>= _) = _
  rw [parsed]
  rfl

theorem parseStmt_return {semicolon : Token} (isKeyword : token.kind = .keyword .return)
    (ends : semicolon.kind = .symbol .semicolon) :
    parseStmt (depth + 1) (token :: semicolon :: rest) =
      .ok (.return none { span := some (token.span.cover semicolon.span) }, rest) := by
  obtain ⟨kind, text, span⟩ := token
  obtain ⟨kind', text', span'⟩ := semicolon
  cases isKeyword
  cases ends
  rfl

theorem parseStmt_returnValue {semicolon : Token} (isKeyword : token.kind = .keyword .return)
    (goesOn : atStatementEnd tokens = false)
    (parsed : parseExpr depth tokens = .ok (expr, semicolon :: rest))
    (ends : semicolon.kind = .symbol .semicolon) :
    parseStmt (depth + 1) (token :: tokens) =
      .ok (.return (some expr) { span := some (token.span.cover semicolon.span) }, rest) := by
  obtain ⟨kind, text, span⟩ := token
  obtain ⟨kind', text', span'⟩ := semicolon
  cases isKeyword
  cases ends
  show parseReturn (parseExpr depth) span tokens = _
  rw [parseReturn, goesOn]
  simp only [Bool.false_eq_true, if_false, parsed]
  rfl

theorem parseStmt_expr {semicolon : Token}
    (plain : ∀ token ∈ tokens.head?,
      token.kind ≠ .keyword .const ∧ token.kind ≠ .keyword .return)
    (parsed : parseExpr depth tokens = .ok (expr, semicolon :: rest))
    (ends : semicolon.kind = .symbol .semicolon) :
    parseStmt (depth + 1) tokens =
      .ok (.expr (expr.withSpan (Span.join expr.span (some semicolon.span))), rest) := by
  unfold parseStmt
  split
  · next less => cases less
  · exact absurd rfl (plain _ rfl).1
  · exact absurd rfl (plain _ rfl).2
  · next less _ _ =>
    cases less
    show (parseExpr depth _ >>= _) = _
    rw [parsed, ok_bind]
    simp only [takeSymbol?_cons ends]
    rfl

theorem parseStmts_cons {statement : Stmt} {statements : List Stmt} (nonempty : tokens ≠ [])
    (parsed : parseStmt depth tokens = .ok (statement, after))
    (more : parseStmts depth after = .ok statements) :
    parseStmts (depth + 1) tokens = .ok (statement :: statements) := by
  obtain ⟨token, rest, rfl⟩ := List.exists_cons_of_ne_nil nonempty
  show (parseStmt depth (token :: rest) >>= _) = _
  rw [parsed]
  show (parseStmts depth after >>= _) = _
  rw [more]
  rfl

end ArrowCheck.Tree
