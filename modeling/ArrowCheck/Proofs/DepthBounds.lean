/-
This file proves that parsing ends. Six calls for each token and a few more at the
start are enough for every parser, so that the bound on the depth of calls, which
grows with the number of tokens, is never reached, whether or not the tokens are those
of a program.

Two runs of a parser that differ only in the bound are compared. They give the same,
and it is not the error that the bound is too small. The head of an arrow function is
read on trial under a bound of its own, and the errors of a trial are dropped, so that
bound has to be large enough as well: else a head could be given up for want of depth.
-/

import ArrowCheck.Proofs.Parsing
import ArrowCheck.Proofs.Progress

namespace ArrowCheck

open Token

variable {Failure Value Other : Type}

/-! ### Runs that differ only in the bound -/

/-- Two results are the same, and they are not due to a bound on the depth. -/
structure Concluded (result result' : Except ParseError Value) : Prop where
  same : result = result'
  shallow : result ≠ .error .tooDeep

theorem Concluded.ok (value : Value) :
    Concluded (.ok value : Except ParseError Value) (.ok value) :=
  ⟨rfl, by simp⟩

theorem Concluded.bind {first first' : Except ParseError Value}
    {next next' : Value → Except ParseError Other} (concluded : Concluded first first')
    (goesOn : ∀ value, first = .ok value → Concluded (next value) (next' value)) :
    Concluded (first >>= next) (first' >>= next') := by
  obtain ⟨rfl, shallow⟩ := concluded
  cases first with
  | error failure =>
    refine ⟨rfl, fun stopped => shallow ?_⟩
    rw [Except.error.inj stopped]
  | ok value => exact goesOn value rfl

theorem concluded_missing (expected : Expected) (tokens : List Token) :
    Concluded (.error (.missing expected tokens) : Except ParseError Value)
      (.error (.missing expected tokens)) := by
  refine ⟨rfl, ?_⟩
  cases tokens <;> simp [ParseError.missing]

theorem takeSymbol_concluded (symbol : Symbol) (tokens : List Token) :
    Concluded (takeSymbol symbol tokens) (takeSymbol symbol tokens) := by
  rw [takeSymbol]
  split
  · exact .ok _
  · exact concluded_missing _ tokens

theorem takeName_concluded (tokens : List Token) :
    Concluded (takeName tokens) (takeName tokens) := by
  unfold takeName
  split
  · exact .ok _
  · exact concluded_missing _ _

theorem takeParens_concluded
    {takeFilled takeFilled' : List Token → Except ParseError (List Value × List Token)}
    {tokens : List Token} (concluded : Concluded (takeFilled tokens) (takeFilled' tokens)) :
    Concluded (takeParens takeFilled tokens) (takeParens takeFilled' tokens) := by
  rw [takeParens, takeParens]
  split
  · exact .ok _
  · exact concluded

/-- A bound on the depth suffices for a parser on all tokens for which it allows six calls a token
and some more at the start: the parser ends, and does the same under the next bound. -/
def Suffices (calls : Nat) (parser : Nat → List Token → Except ParseError Value) (depth : Nat) :
    Prop :=
  ∀ ⦃tokens : List Token⦄, 6 * tokens.length + calls ≤ depth →
    Concluded (parser depth tokens) (parser (depth + 1) tokens)

theorem suffices_zero {calls : Nat} (positive : 0 < calls)
    (parser : Nat → List Token → Except ParseError Value) : Suffices calls parser 0 := by
  intro tokens enough
  omega

/-- A parser ends on all tokens before it reaches the bound on the depth that is computed from them,
and larger bounds change nothing. -/
def Concludes (parser : Nat → List Token → Except ParseError Value) : Prop :=
  ∀ ⦃tokens : List Token⦄ ⦃depth : Nat⦄, depthBound tokens ≤ depth →
    parser depth tokens = parser (depthBound tokens) tokens ∧ parser depth tokens ≠ .error .tooDeep

theorem concludes_of_suffices {calls : Nat} (few : calls ≤ 10)
    {parser : Nat → List Token → Except ParseError Value}
    (suffice : ∀ depth, Suffices calls parser depth) : Concludes parser := by
  intro tokens depth enough
  have concluded {depth : Nat} (enough : depthBound tokens ≤ depth) :
      Concluded (parser depth tokens) (parser (depth + 1) tokens) :=
    suffice depth (by rw [depthBound] at enough; omega)
  refine ⟨?_, (concluded enough).shallow⟩
  induction enough with
  | refl => rfl
  | step enough inductionHypothesis => rw [← (concluded enough).same, inductionHypothesis]

/-! ### Written types -/

namespace WrittenType

/-- The calls that the parsers of written types need at the start. -/
structure Bounds (depth : Nat) : Prop where
  type : Suffices 2 parseType depth
  atom : Suffices 1 parseAtom depth
  params : Suffices 3 parseParams depth

variable {depth : Nat}

theorem parseType_suffices (bounds : Bounds depth) : Suffices 2 parseType (depth + 1) := by
  intro tokens enough
  refine (bounds.atom (by omega)).bind ?_
  rintro ⟨atom, rest⟩ _
  exact .ok _

theorem parseParams_suffices (bounds : Bounds depth) : Suffices 3 parseParams (depth + 1) := by
  intro tokens enough
  have shorter := length_dropParamName_le tokens
  refine (bounds.type (by omega)).bind ?_
  rintro ⟨param, left⟩ paramParsed
  have taken := (parseType_progresses depth).length_lt paramParsed
  obtain absent | ⟨comma, left', rfl, _, found⟩ := takeSymbol?_cases .comma left
  · simp only [absent]
    refine (takeSymbol_concluded .closeParen left).bind ?_
    rintro ⟨_, rest⟩ _
    exact .ok _
  · simp only [found]
    rw [List.length_cons] at taken
    refine (bounds.params (by omega)).bind ?_
    rintro ⟨params, rest⟩ _
    exact .ok _

theorem parseAfterParams_concluded (bounds : Bounds depth) (opening : Span)
    (params : List WrittenType) {tokens : List Token} (enough : 6 * tokens.length ≤ depth + 3) :
    Concluded (parseAfterParams (parseType depth) opening params tokens)
      (parseAfterParams (parseType (depth + 1)) opening params tokens) := by
  unfold parseAfterParams
  obtain absent | ⟨arrow, left, rfl, _, found⟩ := takeSymbol?_cases .arrow tokens
  · simp only [absent]
    split
    · exact .ok _
    · exact concluded_missing _ _
  · simp only [found]
    rw [List.length_cons] at enough
    refine (bounds.type (by omega)).bind ?_
    rintro ⟨result, rest⟩ _
    exact .ok _

theorem parseNamed_concluded (bounds : Bounds depth) {tokens : List Token}
    (enough : 6 * tokens.length + 1 ≤ depth + 1) :
    Concluded (parseNamed (parseType depth) tokens)
      (parseNamed (parseType (depth + 1)) tokens) := by
  refine (takeName_concluded tokens).bind ?_
  rintro ⟨⟨name, span⟩, left⟩ nameTaken
  have taken := takeName_progresses.length_lt nameTaken
  simp only
  split_ifs
  · obtain absent | ⟨opening, left', rfl, _, found⟩ := takeSymbol?_cases (.binary .less) left
    · rw [absent]
      exact .ok _
    · rw [found]
      rw [List.length_cons] at taken
      refine (bounds.type (by omega)).bind ?_
      rintro ⟨element, left''⟩ _
      refine (takeSymbol_concluded (.binary .greater) left'').bind ?_
      rintro ⟨close, rest⟩ _
      exact .ok _
  · exact .ok _

theorem parseAtom_suffices (bounds : Bounds depth) : Suffices 1 parseAtom (depth + 1) := by
  intro tokens enough
  have named := parseNamed_concluded bounds enough
  cases tokens with
  | nil => exact named
  | cons token tokens =>
    obtain ⟨kind, text, span⟩ := token
    cases kind with
    | name | number | quoted | keyword _ => exact named
    | symbol mark =>
      cases mark with
      | openParen =>
        rw [List.length_cons] at enough
        refine (takeParens_concluded (bounds.params (by omega))).bind ?_
        rintro ⟨params, left⟩ paramsParsed
        have taken := (parens_progresses depth).length_lt paramsParsed
        exact parseAfterParams_concluded bounds span params (by omega)
      | _ => exact named

theorem bounds (depth : Nat) : Bounds depth := by
  induction depth with
  | zero =>
    exact ⟨suffices_zero (by decide) _, suffices_zero (by decide) _, suffices_zero (by decide) _⟩
  | succ depth inductionHypothesis =>
    exact ⟨parseType_suffices inductionHypothesis, parseAtom_suffices inductionHypothesis,
      parseParams_suffices inductionHypothesis⟩

theorem parse_concluded (tokens : List Token) : Concluded (parse tokens) (parse tokens) :=
  ⟨rfl, ((bounds _).type (by rw [depthBound]; omega)).shallow⟩

end WrittenType

namespace Tree

/-! ### Heads of arrow functions -/

theorem parseDeclared_concluded (tokens : List Token) :
    Concluded (parseDeclared tokens) (parseDeclared tokens) := by
  rw [parseDeclared]
  obtain absent | ⟨colon, left, rfl, _, found⟩ := takeSymbol?_cases .colon tokens
  · rw [absent]
    exact .ok _
  · rw [found]
    refine (WrittenType.parse_concluded left).bind ?_
    rintro ⟨written, rest⟩ _
    exact .ok _

theorem parseParams_suffices (depth : Nat) : Suffices 1 parseParams depth := by
  induction depth with
  | zero => exact suffices_zero (by decide) _
  | succ depth inductionHypothesis =>
    intro tokens enough
    refine (takeName_concluded tokens).bind ?_
    rintro ⟨⟨name, span⟩, left⟩ nameTaken
    have taken := takeName_progresses.length_lt nameTaken
    refine (parseDeclared_concluded left).bind ?_
    rintro ⟨declared, left'⟩ declaredParsed
    have shorter := parseDeclared_length_le declaredParsed
    obtain absent | ⟨comma, left'', rfl, _, found⟩ := takeSymbol?_cases .comma left'
    · simp only [absent]
      refine (takeSymbol_concluded .closeParen left').bind ?_
      rintro ⟨_, rest⟩ _
      exact .ok _
    · simp only [found]
      rw [List.length_cons] at shorter
      refine (inductionHypothesis (by omega)).bind ?_
      rintro ⟨params, rest⟩ _
      exact .ok _

theorem parseParens_concluded (tokens : List Token) :
    Concluded (parseParens tokens) (parseParens tokens) :=
  takeParens_concluded ⟨rfl, (parseParams_suffices _ (by rw [depthBound]; omega)).shallow⟩

/-- A head that is given up is no head. It is not given up because of a bound on the depth. -/
theorem parseHead_concluded (start : Span) (tokens : List Token) :
    Concluded (parseHead start tokens) (parseHead start tokens) := by
  refine (parseParens_concluded tokens).bind ?_
  rintro ⟨params, left⟩ _
  refine (parseDeclared_concluded left).bind ?_
  rintro ⟨result, left'⟩ _
  refine (takeSymbol_concluded .arrow left').bind ?_
  rintro ⟨_, rest⟩ _
  exact .ok _

/-! ### Expressions and statements -/

/-- The calls that the parsers of expressions and statements need at the start. -/
structure Bounds (depth : Nat) : Prop where
  stmt : Suffices 6 parseStmt depth
  expr : Suffices 5 parseExpr depth
  arrow (head : ArrowHead) : Suffices 6 (parseArrow · head) depth
  block : Suffices 7 parseBlock depth
  conditional : Suffices 4 parseConditional depth
  binary (least : Nat) : Suffices 3 (parseBinary · least) depth
  operators (least : Nat) (left : Expr) : Suffices 1 (parseOperators · least left) depth
  operand : Suffices 2 parseOperand depth
  suffixes (value : Expr) : Suffices 1 (parseSuffixes · value) depth
  items (closing : Symbol) : Suffices 6 (parseItems · closing) depth
  primary : Suffices 1 parsePrimary depth

theorem bounds_zero : Bounds 0 where
  stmt := suffices_zero (by decide) _
  expr := suffices_zero (by decide) _
  arrow _ := suffices_zero (by decide) _
  block := suffices_zero (by decide) _
  conditional := suffices_zero (by decide) _
  binary _ := suffices_zero (by decide) _
  operators _ _ := suffices_zero (by decide) _
  operand := suffices_zero (by decide) _
  suffixes _ := suffices_zero (by decide) _
  items _ := suffices_zero (by decide) _
  primary := suffices_zero (by decide) _

variable {depth : Nat}

theorem parseConst_concluded (bounds : Bounds depth) (start : Span) {tokens : List Token}
    (enough : 6 * tokens.length + 5 ≤ depth) :
    Concluded (parseConst (parseExpr depth) start tokens)
      (parseConst (parseExpr (depth + 1)) start tokens) := by
  refine (takeName_concluded tokens).bind ?_
  rintro ⟨⟨name, span⟩, left⟩ nameTaken
  have taken := takeName_progresses.length_lt nameTaken
  refine (parseDeclared_concluded left).bind ?_
  rintro ⟨declared, left'⟩ declaredParsed
  have shorter := parseDeclared_length_le declaredParsed
  refine (takeSymbol_concluded .assign left').bind ?_
  rintro ⟨_, left''⟩ assignTaken
  have taken' := (takeSymbol_progresses .assign).length_lt assignTaken
  refine (bounds.expr (by omega)).bind ?_
  rintro ⟨init, rest⟩ _
  exact .ok _

theorem parseReturn_concluded (bounds : Bounds depth) (start : Span) {tokens : List Token}
    (enough : 6 * tokens.length + 5 ≤ depth) :
    Concluded (parseReturn (parseExpr depth) start tokens)
      (parseReturn (parseExpr (depth + 1)) start tokens) := by
  unfold parseReturn
  simp only
  split_ifs
  · exact .ok _
  · refine (bounds.expr enough).bind ?_
    rintro ⟨argument, rest⟩ _
    exact .ok _

theorem parseExprStmt_concluded (bounds : Bounds depth) {tokens : List Token}
    (enough : 6 * tokens.length + 5 ≤ depth) :
    Concluded (parseExprStmt (parseExpr depth) tokens)
      (parseExprStmt (parseExpr (depth + 1)) tokens) := by
  refine (bounds.expr enough).bind ?_
  rintro ⟨value, left⟩ _
  simp only
  split
  · exact .ok _
  · exact .ok _

theorem parseStmt_suffices (bounds : Bounds depth) : Suffices 6 parseStmt (depth + 1) := by
  intro tokens enough
  have exprStmt := parseExprStmt_concluded bounds (Nat.le_of_succ_le_succ enough)
  cases tokens with
  | nil => exact exprStmt
  | cons token tokens =>
    obtain ⟨kind, text, span⟩ := token
    rw [List.length_cons] at enough
    cases kind with
    | name | number | quoted | symbol _ => exact exprStmt
    | keyword reserved =>
      cases reserved with
      | const => exact parseConst_concluded bounds span (by omega)
      | «return» => exact parseReturn_concluded bounds span (by omega)
      | true | false => exact exprStmt

theorem parseExpr_suffices (bounds : Bounds depth) : Suffices 5 parseExpr (depth + 1) := by
  intro tokens enough
  -- The head is read under a bound of its own, so both runs find the same one.
  cases found : arrowHead? tokens with
  | none =>
    rw [parseExpr_eq_conditional found, parseExpr_eq_conditional found]
    exact bounds.conditional (by omega)
  | some headed =>
    obtain ⟨head, rest⟩ := headed
    have shorter := arrowHead?_length_lt found
    rw [parseExpr_eq_arrow found, parseExpr_eq_arrow found]
    exact bounds.arrow head (by omega)

theorem parseArrow_suffices (bounds : Bounds depth) (head : ArrowHead) :
    Suffices 6 (parseArrow · head) (depth + 1) := by
  intro tokens enough
  simp only [parseArrow]
  obtain absent | ⟨opening, left, rfl, _, found⟩ := takeSymbol?_cases .openBrace tokens
  · rw [absent]
    refine (bounds.expr (by omega)).bind ?_
    rintro ⟨value, rest⟩ _
    exact .ok _
  · rw [found]
    rw [List.length_cons] at enough
    refine (bounds.block (by omega)).bind ?_
    rintro ⟨⟨statements, close⟩, rest⟩ _
    exact .ok _

theorem parseBlock_suffices (bounds : Bounds depth) : Suffices 7 parseBlock (depth + 1) := by
  intro tokens enough
  unfold parseBlock
  split
  · exact .ok _
  · split_ifs
    · exact ⟨rfl, by simp⟩
    · refine (bounds.stmt (by omega)).bind ?_
      rintro ⟨statement, left⟩ statementParsed
      have taken := (parseStmt_progresses depth).length_lt statementParsed
      refine (bounds.block (by omega)).bind ?_
      rintro ⟨⟨statements, close⟩, rest⟩ _
      exact .ok _

theorem parseConditional_suffices (bounds : Bounds depth) :
    Suffices 4 parseConditional (depth + 1) := by
  intro tokens enough
  refine (bounds.binary 1 (by omega)).bind ?_
  rintro ⟨test, left⟩ testParsed
  have taken := (parseBinary_progresses depth 1).length_lt testParsed
  obtain absent | ⟨question, left', rfl, _, found⟩ := takeSymbol?_cases .question left
  · simp only [absent]
    exact .ok _
  · simp only [found]
    rw [List.length_cons] at taken
    refine (bounds.expr (by omega)).bind ?_
    rintro ⟨consequent, after⟩ consequentParsed
    have taken' := (parseExpr_progresses depth).length_lt consequentParsed
    refine (takeSymbol_concluded .colon after).bind ?_
    rintro ⟨colon, after'⟩ colonTaken
    have taken'' := (takeSymbol_progresses .colon).length_lt colonTaken
    have enough' : 6 * after'.length + 5 ≤ depth := by omega
    refine (bounds.expr enough').bind ?_
    rintro ⟨alternate, rest⟩ _
    exact .ok _

theorem parseBinary_suffices (bounds : Bounds depth) (least : Nat) :
    Suffices 3 (parseBinary · least) (depth + 1) := by
  intro tokens enough
  refine (bounds.operand (by omega)).bind ?_
  rintro ⟨left, rest⟩ leftParsed
  have taken := (parseOperand_progresses depth).length_lt leftParsed
  exact bounds.operators least left (by omega)

theorem parseOperators_suffices (bounds : Bounds depth) (least : Nat) (left : Expr) :
    Suffices 1 (parseOperators · least left) (depth + 1) := by
  intro tokens enough
  simp only [parseOperators]
  split
  · next operator after found =>
    obtain ⟨symbol, rfl, _⟩ := exists_of_takeOperator?_eq_some found
    rw [List.length_cons] at enough
    split_ifs
    · exact .ok _
    · refine (bounds.binary _ (by omega)).bind ?_
      rintro ⟨right, rest⟩ rightParsed
      have taken := (parseBinary_progresses depth _).length_lt rightParsed
      have enough' : 6 * rest.length + 1 ≤ depth := by omega
      exact bounds.operators least _ enough'
  · exact .ok _

theorem parseOperand_suffices (bounds : Bounds depth) : Suffices 2 parseOperand (depth + 1) := by
  intro tokens enough
  refine (bounds.primary (by omega)).bind ?_
  rintro ⟨primary, rest⟩ primaryParsed
  have taken := (parsePrimary_progresses depth).length_lt primaryParsed
  exact bounds.suffixes primary (by omega)

theorem parseSuffixes_suffices (bounds : Bounds depth) (value : Expr) :
    Suffices 1 (parseSuffixes · value) (depth + 1) := by
  intro tokens enough
  cases tokens with
  | nil => exact .ok _
  | cons token tokens =>
    obtain ⟨kind, text, span⟩ := token
    rw [List.length_cons] at enough
    cases kind with
    | name | number | quoted | keyword _ => exact .ok _
    | symbol mark =>
      cases mark with
      | openParen =>
        refine (bounds.items .closeParen (by omega)).bind ?_
        rintro ⟨⟨arguments, close⟩, rest⟩ argumentsParsed
        have taken := (parseItems_progresses depth .closeParen).length_lt argumentsParsed
        exact bounds.suffixes _ (by omega)
      | openBracket =>
        refine (bounds.expr (by omega)).bind ?_
        rintro ⟨position, left⟩ positionParsed
        have taken := (parseExpr_progresses depth).length_lt positionParsed
        refine (takeSymbol_concluded .closeBracket left).bind ?_
        rintro ⟨close, rest⟩ closeTaken
        have taken' := (takeSymbol_progresses .closeBracket).length_lt closeTaken
        exact bounds.suffixes _ (by omega)
      | _ => exact .ok _

theorem parseItems_suffices (bounds : Bounds depth) (closing : Symbol) :
    Suffices 6 (parseItems · closing) (depth + 1) := by
  intro tokens enough
  simp only [parseItems]
  split
  · exact .ok _
  · refine (bounds.expr (by omega)).bind ?_
    rintro ⟨item, left⟩ itemParsed
    have taken := (parseExpr_progresses depth).length_lt itemParsed
    obtain absent | ⟨comma, left', rfl, _, found⟩ := takeSymbol?_cases .comma left
    · simp only [absent]
      refine (takeSymbol_concluded closing left).bind ?_
      rintro ⟨close, rest⟩ _
      exact .ok _
    · simp only [found]
      rw [List.length_cons] at taken
      refine (bounds.items closing (by omega)).bind ?_
      rintro ⟨⟨items, close⟩, rest⟩ _
      exact .ok _

theorem parsePrimary_suffices (bounds : Bounds depth) : Suffices 1 parsePrimary (depth + 1) := by
  intro tokens enough
  cases tokens with
  | nil => exact concluded_missing _ _
  | cons token tokens =>
    obtain ⟨kind, text, span⟩ := token
    rw [List.length_cons] at enough
    cases kind with
    | name | number | quoted => exact .ok _
    | keyword reserved =>
      cases reserved with
      | true | false => exact .ok _
      | const | «return» => exact concluded_missing _ _
    | symbol mark =>
      cases mark with
      | openBracket =>
        -- From this bracket to one directly inside it there are six calls, so fewer a token would
        -- not be enough.
        refine (bounds.items .closeBracket (by omega)).bind ?_
        rintro ⟨⟨elements, close⟩, rest⟩ _
        exact .ok _
      | openParen =>
        refine (bounds.expr (by omega)).bind ?_
        rintro ⟨inner, left⟩ _
        refine (takeSymbol_concluded .closeParen left).bind ?_
        rintro ⟨close, rest⟩ _
        exact .ok _
      | _ => exact concluded_missing _ _

theorem bounds (depth : Nat) : Bounds depth := by
  induction depth with
  | zero => exact bounds_zero
  | succ depth inductionHypothesis =>
    exact
      { stmt := parseStmt_suffices inductionHypothesis
        expr := parseExpr_suffices inductionHypothesis
        arrow := parseArrow_suffices inductionHypothesis
        block := parseBlock_suffices inductionHypothesis
        conditional := parseConditional_suffices inductionHypothesis
        binary := parseBinary_suffices inductionHypothesis
        operators := parseOperators_suffices inductionHypothesis
        operand := parseOperand_suffices inductionHypothesis
        suffixes := parseSuffixes_suffices inductionHypothesis
        items := parseItems_suffices inductionHypothesis
        primary := parsePrimary_suffices inductionHypothesis }

theorem parseExpr_concludes : Concludes parseExpr :=
  concludes_of_suffices (by decide) fun depth => (bounds depth).expr

/-! ### Whole texts -/

theorem parseStmts_suffices (depth : Nat) : Suffices 7 parseStmts depth := by
  induction depth with
  | zero => exact suffices_zero (by decide) _
  | succ depth inductionHypothesis =>
    intro tokens enough
    cases tokens with
    | nil => exact .ok _
    | cons token tokens =>
      refine ((bounds depth).stmt (by omega)).bind ?_
      rintro ⟨statement, left⟩ statementParsed
      have taken := (parseStmt_progresses depth).length_lt statementParsed
      refine (inductionHypothesis (by omega)).bind ?_
      rintro statements _
      exact .ok _

theorem parseStmts_concludes : Concludes parseStmts :=
  concludes_of_suffices (by decide) parseStmts_suffices

end Tree

theorem Token.ofText_concluded (text : String) :
    Concluded (Token.ofText text) (Token.ofText text) := by
  rw [Token.ofText]
  split
  · exact .ok _
  · exact ⟨rfl, by simp⟩

theorem Program.parse_concluded (text : String) :
    Concluded (Program.parse text) (Program.parse text) := by
  refine (Token.ofText_concluded text).bind fun tokens _ => ?_
  have shallow := (Tree.parseStmts_concludes (Nat.le_refl (depthBound tokens))).2
  exact Concluded.bind ⟨rfl, shallow⟩ fun _ _ => .ok _

theorem Expr.parse_concluded (text : String) :
    Concluded (Expr.parse text) (Expr.parse text) := by
  refine (Token.ofText_concluded text).bind fun tokens _ => ?_
  have shallow := (Tree.parseExpr_concludes (Nat.le_refl (depthBound tokens))).2
  refine Concluded.bind ⟨rfl, shallow⟩ ?_
  rintro ⟨value, rest⟩ _
  cases rest with
  | nil => exact .ok _
  | cons token rest => exact ⟨rfl, by simp⟩

theorem eq_ok_of_toOption_eq_some {result : Except Failure Value} {value : Value}
    (same : result.toOption = some value) : result = .ok value := by
  cases result with
  | error failure => cases same
  | ok value' => exact congrArg Except.ok (Option.some.inj same)

/-- Parsing advances and ends. A parser that succeeds leaves a proper suffix of its tokens, and an
attempt that finds no arrow function leaves all of them. So every loop and every parser ends on all
tokens before it reaches the bound on the depth that is computed from their number, and larger
bounds change nothing. -/
theorem parsing_advances_and_ends :
    (∀ depth, Progresses (Tree.parseStmt depth) ∧ Progresses (Tree.parseExpr depth) ∧
      Progresses (Tree.parseConditional depth) ∧
      (∀ least, Progresses (Tree.parseBinary depth least)) ∧
      Progresses (Tree.parseOperand depth) ∧ Progresses (Tree.parsePrimary depth) ∧
      (∀ closing, Progresses (Tree.parseItems depth closing)) ∧
      Progresses (WrittenType.parseType depth) ∧ Progresses (WrittenType.parseAtom depth)) ∧
    (∀ depth tokens,
      (Tree.parseExpr (depth + 1) tokens =
        Tree.tryArrow (Tree.parseArrow depth) tokens >>= fun result =>
          result.1.elim (Tree.parseConditional depth result.2) fun value =>
            .ok (value, result.2)) ∧
      (∀ rest, Tree.tryArrow (Tree.parseArrow depth) tokens = .ok (none, rest) → rest = tokens) ∧
      ∀ value rest, Tree.tryArrow (Tree.parseArrow depth) tokens = .ok (some value, rest) →
        rest <:+ tokens ∧ rest ≠ tokens) ∧
    (Concludes Tree.parseStmts ∧ Concludes Tree.parseBlock ∧
      (∀ closing, Concludes (Tree.parseItems · closing)) ∧
      (∀ value, Concludes (Tree.parseSuffixes · value)) ∧
      (∀ least left, Concludes (Tree.parseOperators · least left)) ∧
      Concludes Tree.parseParams ∧ Concludes WrittenType.parseParams ∧
      ∀ element tokens, (WrittenType.brackets element tokens).2 <:+ tokens ∧
        WrittenType.brackets (WrittenType.brackets element tokens).1
          (WrittenType.brackets element tokens).2 = WrittenType.brackets element tokens) ∧
    (Concludes Tree.parseStmt ∧ Concludes Tree.parseExpr ∧
      (∀ head, Concludes (Tree.parseArrow · head)) ∧ Concludes Tree.parseConditional ∧
      (∀ least, Concludes (Tree.parseBinary · least)) ∧ Concludes Tree.parseOperand ∧
      Concludes Tree.parsePrimary ∧ Concludes WrittenType.parseType ∧
      Concludes WrittenType.parseAtom) ∧
    (∀ start tokens, Tree.parseHead start tokens ≠ .error .tooDeep) ∧
    ∀ text, Program.parse text ≠ .error .tooDeep ∧ Expr.parse text ≠ .error .tooDeep := by
  refine ⟨fun depth => ?_, fun depth tokens => ?_, ?_, ?_, ?_, fun text => ?_⟩
  · exact ⟨Tree.parseStmt_progresses depth, Tree.parseExpr_progresses depth,
      Tree.parseConditional_progresses depth, Tree.parseBinary_progresses depth,
      Tree.parseOperand_progresses depth, Tree.parsePrimary_progresses depth,
      Tree.parseItems_progresses depth, WrittenType.parseType_progresses depth,
      WrittenType.parseAtom_progresses depth⟩
  · exact ⟨Tree.parseExpr_eq_tryArrow depth tokens,
      fun _ => Tree.eq_of_tryArrow_eq_none,
      fun _ _ => Tree.suffix_of_tryArrow_eq_some depth⟩
  · exact ⟨Tree.parseStmts_concludes,
      concludes_of_suffices (by decide) fun depth => (Tree.bounds depth).block,
      fun closing => concludes_of_suffices (by decide) fun depth =>
        (Tree.bounds depth).items closing,
      fun value => concludes_of_suffices (by decide) fun depth =>
        (Tree.bounds depth).suffixes value,
      fun least left => concludes_of_suffices (by decide) fun depth =>
        (Tree.bounds depth).operators least left,
      concludes_of_suffices (by decide) Tree.parseParams_suffices,
      concludes_of_suffices (by decide) fun depth => (WrittenType.bounds depth).params,
      WrittenType.brackets_ends⟩
  · exact ⟨concludes_of_suffices (by decide) fun depth => (Tree.bounds depth).stmt,
      Tree.parseExpr_concludes,
      fun head => concludes_of_suffices (by decide) fun depth => (Tree.bounds depth).arrow head,
      concludes_of_suffices (by decide) fun depth => (Tree.bounds depth).conditional,
      fun least => concludes_of_suffices (by decide) fun depth => (Tree.bounds depth).binary least,
      concludes_of_suffices (by decide) fun depth => (Tree.bounds depth).operand,
      concludes_of_suffices (by decide) fun depth => (Tree.bounds depth).primary,
      concludes_of_suffices (by decide) fun depth => (WrittenType.bounds depth).type,
      concludes_of_suffices (by decide) fun depth => (WrittenType.bounds depth).atom⟩
  · exact fun start tokens => (Tree.parseHead_concluded start tokens).shallow
  · exact ⟨(Program.parse_concluded text).shallow, (Expr.parse_concluded text).shallow⟩

/-- An expression that starts like the head of an arrow function, and two tokens after it. -/
def abandonedHead : String :=
  "(a)(b, [c]) ? d : e) ;"

theorem abandonedHead_advances :
    ∃ tokens value rest left, lex abandonedHead = .ok tokens ∧ tokens.length = 16 ∧
      Tree.parseExpr 200 tokens = .ok (value, rest) ∧ rest.length = 2 ∧
      (rest <:+ tokens ∧ rest ≠ tokens) ∧
      Tree.parseExpr 200 tokens = Tree.parseExpr (depthBound tokens) tokens ∧
      Tree.tryArrow (Tree.parseArrow 0) tokens = .ok (none, left) ∧ left = tokens := by
  have read : (lex abandonedHead).toOption.bind (fun tokens =>
      (Tree.parseExpr 200 tokens).toOption.map fun result =>
        (tokens.length, result.2.length)) = some (16, 2) := by
    decide +kernel
  have tried : (lex abandonedHead).toOption.bind (fun tokens =>
      (Tree.tryArrow (Tree.parseArrow 0) tokens).toOption.map fun result =>
        result.1.isNone) = some true := by
    decide +kernel
  obtain ⟨tokens, lexed, readTokens⟩ := Option.bind_eq_some_iff.mp read
  obtain ⟨⟨value, rest⟩, succeeds, lengths⟩ := Option.map_eq_some_iff.mp readTokens
  obtain ⟨_, lexed', triedTokens⟩ := Option.bind_eq_some_iff.mp tried
  obtain rfl := Option.some.inj (lexed.symm.trans lexed')
  obtain ⟨⟨arrow, left⟩, returns, absent⟩ := Option.map_eq_some_iff.mp triedTokens
  obtain rfl := Option.isNone_iff_eq_none.mp absent
  obtain ⟨counted, counted'⟩ := Prod.mk.inj lengths
  have parsed := eq_ok_of_toOption_eq_some succeeds
  have attempted := eq_ok_of_toOption_eq_some returns
  have enough : depthBound tokens ≤ 200 := by
    rw [depthBound, counted]
    decide
  obtain ⟨progress, attempts, _, parsers, _⟩ := parsing_advances_and_ends
  exact ⟨tokens, value, rest, left, eq_ok_of_toOption_eq_some lexed, counted, parsed, counted',
    (progress 200).2.1 parsed, (parsers.2.1 enough).1, attempted,
    (attempts 0 tokens).2.1 left attempted⟩

end ArrowCheck
