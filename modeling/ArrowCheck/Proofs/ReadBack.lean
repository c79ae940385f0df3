/-
This file describes how printed expressions are read back. The parser reads
operators by their strength, so an expression is read in three ways: as an operand
with calls and indices after it, as the left part of a chain of operators of at
least some strength, and as a whole expression. Each way says which tokens may stand
after the expression, and how much of the bound on the depth of calls is left.
-/

import ArrowCheck.Proofs.Spelling

namespace ArrowCheck

open Token ArrowCheck.Tree

/-! ### Trees up to their places -/

/-- What a node carries without its place. -/
def Info.unplaced (info : Info) : Info :=
  { info with span := none }

/-- What a node carries when it has neither a place nor a type. -/
def Info.cleared (_ : Info) : Info :=
  {}

/-- A parameter with a change of what it carries, and with its written type without places. -/
def Param.mapInfo (change : Info → Info) (param : Param) : Param :=
  { name := param.name
    declared := param.declared.map WrittenType.unplaced
    info := change param.info }

mutual

/-- An expression with a change of what its parts carry, and with written types without places. -/
def Expr.mapInfo (change : Info → Info) : Expr → Expr
  | .number value info => .number value (change info)
  | .string value info => .string value (change info)
  | .bool value info => .bool value (change info)
  | .ident name info => .ident name (change info)
  | .binary operator left right info =>
    .binary operator (left.mapInfo change) (right.mapInfo change) (change info)
  | .conditional test consequent alternate info =>
    .conditional (test.mapInfo change) (consequent.mapInfo change) (alternate.mapInfo change)
      (change info)
  | .arrow params result body info =>
    .arrow (params.map (Param.mapInfo change)) (result.map WrittenType.unplaced)
      (body.mapInfo change) (change info)
  | .call callee arguments info =>
    .call (callee.mapInfo change) (Expr.mapInfoAll change arguments) (change info)
  | .array elements info => .array (Expr.mapInfoAll change elements) (change info)
  | .index object position info =>
    .index (object.mapInfo change) (position.mapInfo change) (change info)

/-- Expressions with a change of what their parts carry. -/
def Expr.mapInfoAll (change : Info → Info) : List Expr → List Expr
  | [] => []
  | head :: tail => head.mapInfo change :: Expr.mapInfoAll change tail

/-- The body of an arrow function with a change of what its parts carry. -/
def Body.mapInfo (change : Info → Info) : Body → Body
  | .value value => .value (value.mapInfo change)
  | .block statements => .block (Stmt.mapInfoAll change statements)

/-- A statement with a change of what its parts carry. -/
def Stmt.mapInfo (change : Info → Info) : Stmt → Stmt
  | .const name declared init info =>
    .const name (declared.map WrittenType.unplaced) (init.mapInfo change) (change info)
  | .return none info => .return none (change info)
  | .return (some argument) info => .return (some (argument.mapInfo change)) (change info)
  | .expr value => .expr (value.mapInfo change)

/-- Statements with a change of what their parts carry. -/
def Stmt.mapInfoAll (change : Info → Info) : List Stmt → List Stmt
  | [] => []
  | head :: tail => head.mapInfo change :: Stmt.mapInfoAll change tail

end

/-- A program with a change of what its parts carry. -/
def Program.mapInfo (change : Info → Info) (program : Program) : Program :=
  ⟨Stmt.mapInfoAll change program.body, change program.info⟩

theorem Expr.mapInfo_withSpan (span : Option Span) (expr : Expr) :
    (expr.withSpan span).mapInfo Info.unplaced = expr.mapInfo Info.unplaced := by
  cases expr <;> rfl

/-- A tree that was read is the given one, and no type is known in it. -/
abbrev Expr.Matches (read expr : Expr) : Prop :=
  read.mapInfo Info.unplaced = expr.mapInfo Info.cleared

variable {numeral : Binary64 → String}

/-! ### The three ways of reading an expression -/

namespace Expr

section

variable (numeral)

/-- An expression is read back as an operand, and the calls and indices after it are left. -/
def ReadsOperand (expr : Expr) : Prop :=
  ∀ (tokens tail : List Token) (depth : Nat),
    Spells numeral tokens (expr.enclose 7 expr.pieces) → 10 * tokens.length ≤ depth + 5 →
    ∃ read left, parseOperand depth (tokens ++ tail) = parseSuffixes left read tail ∧
      depth + 8 ≤ left + 10 * tokens.length ∧ read.Matches expr

/-- An expression without parentheses is read back as a primary expression. -/
def ReadsPrimary (expr : Expr) : Prop :=
  ∀ (tokens tail : List Token) (depth : Nat), Spells numeral tokens expr.pieces →
    10 * tokens.length ≤ depth + 6 →
    ∃ read, parsePrimary depth (tokens ++ tail) = .ok (read, tail) ∧ read.Matches expr

/-- An expression is read back before operators that are not stronger than it is. -/
def ReadsChain (expr : Expr) : Prop :=
  ∀ (level least : Nat) (tokens tail : List Token) (depth : Nat), 1 ≤ level →
    level ≤ expr.strength → least ≤ level → Spells numeral tokens expr.pieces → Loose level tail →
    10 * tokens.length ≤ depth + 4 →
    ∃ read left, parseBinary depth least (tokens ++ tail) = parseOperators left least read tail ∧
      depth + 7 ≤ left + 10 * tokens.length ∧ read.Matches expr

/-- An expression is read back as a whole. -/
def ReadsWhole (expr : Expr) : Prop :=
  ∀ (tokens rest : List Token) (depth : Nat), Spells numeral tokens expr.pieces → Ends rest →
    10 * tokens.length ≤ depth →
    ∃ read, parseExpr depth (tokens ++ rest) = .ok (read, rest) ∧ read.Matches expr

/-- An expression is read back wherever it can stand. -/
structure ReadsBack (expr : Expr) : Prop where
  operand : expr.ReadsOperand numeral
  chain : expr.ReadsChain numeral
  whole : expr.ReadsWhole numeral

end

variable {expr : Expr}

theorem length_pos {tokens : List Token} (spells : Spells numeral tokens expr.pieces) :
    1 ≤ tokens.length := by
  obtain ⟨token, rest, rfl, _⟩ := expr.exists_opening spells
  exact Nat.succ_le_succ (Nat.zero_le _)

theorem enclose_length_pos {level : Nat} {tokens : List Token}
    (spells : Spells numeral tokens (expr.enclose level expr.pieces)) : 1 ≤ tokens.length := by
  by_cases weak : expr.strength < level
  · rw [enclose_of_lt weak] at spells
    obtain ⟨token, rest, rfl, _⟩ := spells_symbol spells
    exact Nat.succ_le_succ (Nat.zero_le _)
  · rw [enclose_of_le (Nat.not_lt.mp weak)] at spells
    exact length_pos spells

/-- What is read as a whole is read as an operand in parentheses. -/
theorem ReadsWhole.operand (whole : expr.ReadsWhole numeral) (weak : expr.strength < 7) :
    expr.ReadsOperand numeral := by
  intro tokens tail depth spells enough
  rw [enclose_of_lt weak] at spells
  obtain ⟨opening, _, rfl, opens, spells'⟩ := spells_symbol spells
  obtain ⟨inner, _, rfl, spelled, spells''⟩ := spells_append spells'
  obtain ⟨closing, _, rfl, closes, spells'''⟩ := spells_symbol spells''
  obtain rfl := spells_nil spells'''
  simp only [List.length_cons, List.length_append, List.length_nil] at enough ⊢
  obtain ⟨depth, rfl⟩ : ∃ fewer, depth = fewer + 2 := ⟨depth - 2, by omega⟩
  obtain ⟨read, parsed, same⟩ := whole inner (closing :: tail) depth spelled
    (ends_cons closes (by decide)) (by omega)
  refine ⟨read.withSpan (some (opening.span.cover closing.span)), depth + 1, ?_, by omega, ?_⟩
  · rw [List.cons_append, List.append_assoc]
    exact parseOperand_of_primary (parsePrimary_group opens parsed closes)
  · rw [Matches, mapInfo_withSpan, same]

/-- An operand with neither a call nor an index after it. -/
theorem ReadsOperand.parseBinary (operand : expr.ReadsOperand numeral) {tokens tail : List Token}
    {depth : Nat} (spells : Spells numeral tokens (expr.enclose 7 expr.pieces))
    (avoids : Avoids [.openParen, .openBracket] tail) (enough : 10 * tokens.length ≤ depth + 4)
    (least : Nat) :
    ∃ read left, parseBinary depth least (tokens ++ tail) = parseOperators left least read tail ∧
      depth + 7 ≤ left + 10 * tokens.length ∧ read.Matches expr := by
  have positive := enclose_length_pos spells
  obtain ⟨depth, rfl⟩ : ∃ fewer, depth = fewer + 1 := ⟨depth - 1, by omega⟩
  obtain ⟨read, left, parsed, enough', same⟩ := operand tokens tail depth spells (by omega)
  obtain ⟨left, rfl⟩ : ∃ fewer, left = fewer + 1 := ⟨left - 1, by omega⟩
  rw [parseSuffixes_end avoids] at parsed
  exact ⟨read, depth, parseBinary_of_operand parsed, by omega, same⟩

/-- A chain of operators that ends before a token that does not go on with it is a whole
expression. -/
theorem ReadsChain.whole (chain : expr.ReadsChain numeral) (strong : 1 ≤ expr.strength) :
    expr.ReadsWhole numeral := by
  intro tokens rest depth spells ends enough
  have positive := length_pos spells
  obtain ⟨depth, rfl⟩ : ∃ fewer, depth = fewer + 2 := ⟨depth - 2, by omega⟩
  have headless := arrowHead?_of_headless (expr.headless (isArrow_of_strong strong)) spells
    (ends.avoids (by decide))
  obtain ⟨read, left, parsed, enough', same⟩ := chain 1 1 tokens rest depth (by decide) strong
    (by decide) spells (ends.loose 1) (by omega)
  obtain ⟨left, rfl⟩ : ∃ fewer, left = fewer + 1 := ⟨left - 1, by omega⟩
  rw [(ends.loose 0).parseOperators_end (by decide)] at parsed
  refine ⟨read, parseExpr_of_conditional headless ?_, same⟩
  exact parseConditional_of_binary parsed (ends.avoids (by decide))

/-- An expression is read back in its place before operators that are not stronger than the place
asks. -/
theorem ReadsBack.enclosed (reads : expr.ReadsBack numeral) (level least : Nat)
    (tokens tail : List Token) (depth : Nat) (positive : 1 ≤ level) (bound : level ≤ 7)
    (le : least ≤ level) (spells : Spells numeral tokens (expr.enclose level expr.pieces))
    (loose : Loose level tail) (enough : 10 * tokens.length ≤ depth + 4) :
    ∃ read left, parseBinary depth least (tokens ++ tail) = parseOperators left least read tail ∧
      depth + 7 ≤ left + 10 * tokens.length ∧ read.Matches expr := by
  by_cases weak : expr.strength < level
  · rw [enclose_of_lt weak, ← enclose_of_lt (Nat.lt_of_lt_of_le weak bound)] at spells
    exact reads.operand.parseBinary spells loose.avoids enough least
  · rw [enclose_of_le (Nat.not_lt.mp weak)] at spells
    exact reads.chain level least tokens tail depth positive (Nat.not_lt.mp weak) le spells loose
      enough

/-- An expression that binds tighter than any operator is read back everywhere once it is read back
as an operand. -/
theorem ReadsOperand.readsBack (operand : expr.ReadsOperand numeral) (tight : expr.strength = 7) :
    expr.ReadsBack numeral := by
  have chain : expr.ReadsChain numeral := by
    intro level least tokens tail depth _ _ _ spells loose enough
    rw [← enclose_of_le (Nat.le_of_eq tight.symm) expr.pieces] at spells
    exact operand.parseBinary spells loose.avoids enough least
  exact ⟨operand, chain, chain.whole (by rw [tight]; decide)⟩

theorem ReadsPrimary.readsBack (primary : expr.ReadsPrimary numeral) (tight : expr.strength = 7) :
    expr.ReadsBack numeral := by
  refine ReadsOperand.readsBack ?_ tight
  intro tokens tail depth spells enough
  rw [enclose_of_le (Nat.le_of_eq tight.symm)] at spells
  have positive := length_pos spells
  obtain ⟨depth, rfl⟩ : ∃ fewer, depth = fewer + 1 := ⟨depth - 1, by omega⟩
  obtain ⟨read, parsed, same⟩ := primary tokens tail depth spells enough
  exact ⟨read, depth, parseOperand_of_primary parsed, by omega, same⟩

/-! ### Literals and names -/

theorem number_readsBack {value : Binary64} (proper : (Piece.number value).Proper numeral)
    (info : Info) : (number value info).ReadsBack numeral := by
  refine ReadsPrimary.readsBack ?_ rfl
  intro tokens tail depth spells enough
  obtain ⟨token, _, rfl, kind, text, spells'⟩ := spells_number spells
  obtain rfl := spells_nil spells'
  obtain ⟨depth, rfl⟩ : ∃ fewer, depth = fewer + 1 := ⟨depth - 1, by simp at enough; omega⟩
  refine ⟨_, parsePrimary_number kind, ?_⟩
  rw [text, proper.2]
  rfl

theorem string_readsBack (value : String) (info : Info) :
    (string value info).ReadsBack numeral := by
  refine ReadsPrimary.readsBack ?_ rfl
  intro tokens tail depth spells enough
  obtain ⟨token, _, rfl, kind, text, spells'⟩ := spells_string spells
  obtain rfl := spells_nil spells'
  obtain ⟨depth, rfl⟩ : ∃ fewer, depth = fewer + 1 := ⟨depth - 1, by simp at enough; omega⟩
  refine ⟨_, parsePrimary_quoted kind, ?_⟩
  rw [text]
  rfl

theorem bool_readsBack (value : Bool) (info : Info) : (bool value info).ReadsBack numeral := by
  refine ReadsPrimary.readsBack ?_ rfl
  intro tokens tail depth spells enough
  obtain ⟨token, _, rfl, kind, spells'⟩ := spells_keyword spells
  obtain rfl := spells_nil spells'
  obtain ⟨depth, rfl⟩ : ∃ fewer, depth = fewer + 1 := ⟨depth - 1, by simp at enough; omega⟩
  exact ⟨_, parsePrimary_bool kind, rfl⟩

theorem ident_readsBack (name : String) (info : Info) : (ident name info).ReadsBack numeral := by
  refine ReadsPrimary.readsBack ?_ rfl
  intro tokens tail depth spells enough
  obtain ⟨token, _, rfl, kind, text, spells'⟩ := spells_name spells
  obtain rfl := spells_nil spells'
  obtain ⟨depth, rfl⟩ : ∃ fewer, depth = fewer + 1 := ⟨depth - 1, by simp at enough; omega⟩
  refine ⟨_, parsePrimary_name kind, ?_⟩
  rw [text]
  rfl

/-! ### Operators and branches -/

section

variable {left right test consequent alternate : Expr}

/-- The left operand is read first; the operator is not weaker than what is asked for, and the right
operand ends where what comes next is not stronger than the operator. -/
theorem binary_readsChain (readsLeft : left.ReadsBack numeral)
    (readsRight : right.ReadsBack numeral) (operator : Operator) (info : Info) :
    (binary operator left right info).ReadsChain numeral := by
  intro level least tokens tail depth positive strong le spells loose enough
  change level ≤ operator.precedence at strong
  have bound := precedence_lt operator
  obtain ⟨front, _, rfl, spellsLeft, spells'⟩ := spells_append spells
  obtain ⟨token, back, rfl, isOperator, spellsRight⟩ := spells_symbol spells'
  simp only [List.length_append, List.length_cons] at enough ⊢
  obtain ⟨readLeft, left₁, parsedLeft, enough₁, sameLeft⟩ := readsLeft.enclosed
    operator.precedence least front (token :: (back ++ tail)) depth (by omega)
    (Nat.le_of_lt bound) (by omega) spellsLeft (loose_operator isOperator (Nat.le_refl _))
    (by omega)
  obtain ⟨left₁, rfl⟩ : ∃ fewer, left₁ = fewer + 1 := ⟨left₁ - 1, by omega⟩
  obtain ⟨readRight, left₂, parsedRight, enough₂, sameRight⟩ := readsRight.enclosed
    (operator.precedence + 1) (operator.precedence + 1) back tail left₁ (by omega) bound
    (Nat.le_refl _) spellsRight (loose.mono (by omega)) (by omega)
  obtain ⟨left₂, rfl⟩ : ∃ fewer, left₂ = fewer + 1 := ⟨left₂ - 1, by omega⟩
  rw [loose.parseOperators_end (Nat.lt_succ_of_le strong)] at parsedRight
  refine ⟨.binary operator readLeft readRight { span := Span.join readLeft.span readRight.span },
    left₁, ?_, by omega, ?_⟩
  · rw [List.append_assoc]
    exact parsedLeft.trans (parseOperators_cons isOperator (Nat.le_trans le strong) parsedRight)
  · rw [Matches, mapInfo, sameLeft, sameRight]
    rfl

theorem binary_readsBack (readsLeft : left.ReadsBack numeral)
    (readsRight : right.ReadsBack numeral) (operator : Operator) (info : Info) :
    (binary operator left right info).ReadsBack numeral := by
  have chain := binary_readsChain readsLeft readsRight operator info
  have whole := chain.whole (precedence_pos operator)
  exact ⟨whole.operand (precedence_lt operator), chain, whole⟩

/-- What does not bind at all is read back everywhere once it is read back as a whole. -/
theorem ReadsWhole.readsBack (whole : expr.ReadsWhole numeral) (weakest : expr.strength = 0) :
    expr.ReadsBack numeral := by
  refine ⟨whole.operand (by rw [weakest]; decide), ?_, whole⟩
  intro level least tokens tail depth positive strong
  omega

theorem conditional_readsBack (readsTest : test.ReadsBack numeral)
    (readsConsequent : consequent.ReadsBack numeral) (readsAlternate : alternate.ReadsBack numeral)
    (info : Info) : (conditional test consequent alternate info).ReadsBack numeral := by
  refine ReadsWhole.readsBack ?_ rfl
  intro tokens rest depth spells ends enough
  have headless := arrowHead?_of_headless
    ((conditional test consequent alternate info).headless rfl) spells (ends.avoids (by decide))
  obtain ⟨front, _, rfl, spells', spells''⟩ := spells_append spells
  obtain ⟨first, _, rfl, spellsTest, spells'⟩ := spells_append spells'
  obtain ⟨question, second, rfl, asks, spellsConsequent⟩ := spells_symbol spells'
  obtain ⟨colon, third, rfl, separates, spellsAlternate⟩ := spells_symbol spells''
  simp only [List.length_append, List.length_cons] at enough
  obtain ⟨depth, rfl⟩ : ∃ fewer, depth = fewer + 2 := ⟨depth - 2, by omega⟩
  obtain ⟨readTest, left, parsedTest, enough', sameTest⟩ := readsTest.enclosed 1 1 first
    (question :: (second ++ colon :: (third ++ rest))) depth (by decide) (by decide) (by decide)
    spellsTest (loose_question 1 asks) (by omega)
  obtain ⟨left, rfl⟩ : ∃ fewer, left = fewer + 1 := ⟨left - 1, by omega⟩
  rw [(loose_question 0 asks).parseOperators_end (by decide)] at parsedTest
  obtain ⟨readConsequent, parsedConsequent, sameConsequent⟩ := readsConsequent.whole second
    (colon :: (third ++ rest)) depth spellsConsequent (ends_cons separates (by decide)) (by omega)
  obtain ⟨readAlternate, parsedAlternate, sameAlternate⟩ := readsAlternate.whole third rest depth
    spellsAlternate ends (by omega)
  have parsed := parseConditional_branches parsedTest asks parsedConsequent separates
    parsedAlternate
  refine ⟨.conditional readTest readConsequent readAlternate
    { span := Span.join readTest.span readAlternate.span }, ?_, ?_⟩
  · rw [List.append_assoc, List.append_assoc] at headless ⊢
    exact parseExpr_of_conditional headless parsed
  · rw [Matches, mapInfo, sameTest, sameConsequent, sameAlternate]
    rfl

end

end Expr

/-! ### Lists of expressions -/

/-- Expressions with commas between them are read back before a closing symbol. -/
def Expr.ReadsItems (numeral : Binary64 → String) (items : List Expr) : Prop :=
  ∀ (closing : Symbol) (tokens : List Token) (token : Token) (rest : List Token) (depth : Nat),
    closing = .closeParen ∨ closing = .closeBracket →
    Spells numeral tokens (Piece.separate (Expr.piecesAll items)) → token.kind = .symbol closing →
    10 * tokens.length < depth →
    ∃ read, parseItems depth closing (tokens ++ token :: rest) = .ok ((read, token.span), rest) ∧
      Expr.mapInfoAll Info.unplaced read = Expr.mapInfoAll Info.cleared items

namespace Expr

theorem separate_cons_cons (first second : List Piece) (more : List (List Piece)) :
    Piece.separate (first :: second :: more) =
      first ++ .symbol .comma :: Piece.separate (second :: more) := by
  rw [Piece.separate, List.intercalate_cons_cons, List.append_assoc]
  rfl

theorem readsItems_nil : ReadsItems numeral [] := by
  intro closing tokens token rest depth _ spells closes enough
  obtain rfl := spells_nil spells
  obtain ⟨depth, rfl⟩ : ∃ fewer, depth = fewer + 1 := ⟨depth - 1, by omega⟩
  exact ⟨[], parseItems_nil closes, rfl⟩

/-- An expression does not start with what closes a list. -/
theorem avoids_closing {expr : Expr} {tokens : List Token} {closing : Symbol}
    (spells : Spells numeral tokens expr.pieces)
    (closes : closing = .closeParen ∨ closing = .closeBracket) (rest : List Token) :
    Avoids [closing] (tokens ++ rest) := by
  obtain ⟨token, more, rfl, opening⟩ := expr.exists_opening spells
  refine avoids_of_isOpening opening fun symbol member => ?_
  rw [List.mem_singleton.mp member]
  obtain rfl | rfl := closes <;> decide

theorem readsItems_last {last : Expr} (reads : last.ReadsBack numeral) :
    ReadsItems numeral [last] := by
  intro closing tokens token rest depth kinds spells closes enough
  rw [piecesAll, piecesAll, Piece.separate, List.intercalate_singleton] at spells
  obtain ⟨depth, rfl⟩ : ∃ fewer, depth = fewer + 1 := ⟨depth - 1, by omega⟩
  obtain ⟨read, parsed, same⟩ := reads.whole tokens (token :: rest) depth spells
    (ends_cons closes (by obtain rfl | rfl := kinds <;> decide)) (by omega)
  refine ⟨[read], ?_, by rw [mapInfoAll, same]; rfl⟩
  refine parseItems_last (avoids_closing spells kinds _) parsed closes ?_
  obtain rfl | rfl := kinds <;> decide

theorem readsItems_cons {head next : Expr} {tail : List Expr} (reads : head.ReadsBack numeral)
    (readsAll : ReadsItems numeral (next :: tail)) :
    ReadsItems numeral (head :: next :: tail) := by
  intro closing tokens token rest depth kinds spells closes enough
  rw [piecesAll, piecesAll, separate_cons_cons] at spells
  obtain ⟨front, _, rfl, spellsHead, spells'⟩ := spells_append spells
  obtain ⟨comma, back, rfl, separates, spellsTail⟩ := spells_symbol spells'
  simp only [List.length_append, List.length_cons] at enough
  obtain ⟨depth, rfl⟩ : ∃ fewer, depth = fewer + 1 := ⟨depth - 1, by omega⟩
  obtain ⟨read, parsed, same⟩ := reads.whole front (comma :: (back ++ token :: rest)) depth
    spellsHead (ends_cons separates (by decide)) (by omega)
  obtain ⟨readAll, parsedAll, sameAll⟩ := readsAll closing back token rest depth kinds spellsTail
    closes (by omega)
  refine ⟨read :: readAll, ?_, by rw [mapInfoAll, same, sameAll]; rfl⟩
  rw [List.append_assoc]
  exact parseItems_cons (avoids_closing spellsHead kinds _) parsed separates parsedAll

theorem array_readsBack {elements : List Expr} (reads : ReadsItems numeral elements)
    (info : Info) : (array elements info).ReadsBack numeral := by
  refine ReadsPrimary.readsBack ?_ rfl
  intro tokens tail depth spells enough
  obtain ⟨opening, _, rfl, opens, spells'⟩ := spells_symbol spells
  obtain ⟨inner, _, rfl, spellsItems, spells''⟩ := spells_append spells'
  obtain ⟨closing, _, rfl, closes, spells'''⟩ := spells_symbol spells''
  obtain rfl := spells_nil spells'''
  simp only [List.length_append, List.length_cons, List.length_nil] at enough
  obtain ⟨depth, rfl⟩ : ∃ fewer, depth = fewer + 1 := ⟨depth - 1, by omega⟩
  obtain ⟨read, parsed, same⟩ := reads .closeBracket inner closing tail depth (Or.inr rfl)
    spellsItems closes (by omega)
  refine ⟨.array read { span := some (opening.span.cover closing.span) }, ?_, ?_⟩
  · rw [List.cons_append, List.append_assoc]
    exact parsePrimary_array opens parsed
  · rw [Matches, mapInfo, same]
    rfl

/-- What stands after a callee joins it as the arguments of a call. -/
theorem call_readsBack {callee : Expr} {arguments : List Expr}
    (readsCallee : callee.ReadsBack numeral) (reads : ReadsItems numeral arguments) (info : Info) :
    (call callee arguments info).ReadsBack numeral := by
  refine ReadsOperand.readsBack ?_ rfl
  intro tokens tail depth spells enough
  obtain ⟨front, _, rfl, spells', spells''⟩ := spells_append spells
  obtain ⟨first, _, rfl, spellsCallee, spells'⟩ := spells_append spells'
  obtain ⟨opening, inner, rfl, opens, spellsItems⟩ := spells_symbol spells'
  obtain ⟨closing, _, rfl, closes, spells''⟩ := spells_symbol spells''
  obtain rfl := spells_nil spells''
  simp only [List.length_append, List.length_cons, List.length_nil] at enough ⊢
  obtain ⟨readCallee, left, parsedCallee, enough', sameCallee⟩ := readsCallee.operand first
    (opening :: (inner ++ closing :: tail)) depth spellsCallee (by omega)
  obtain ⟨left, rfl⟩ : ∃ fewer, left = fewer + 1 := ⟨left - 1, by omega⟩
  obtain ⟨read, parsed, same⟩ := reads .closeParen inner closing tail left (Or.inl rfl)
    spellsItems closes (by omega)
  refine ⟨.call readCallee read { span := Span.join readCallee.span (some closing.span) }, left,
    ?_, by omega, ?_⟩
  · rw [List.append_assoc, List.append_assoc]
    exact parsedCallee.trans (parseSuffixes_call opens parsed)
  · rw [Matches, mapInfo, sameCallee, same]
    rfl

theorem index_readsBack {object position : Expr} (readsObject : object.ReadsBack numeral)
    (reads : position.ReadsBack numeral) (info : Info) :
    (index object position info).ReadsBack numeral := by
  refine ReadsOperand.readsBack ?_ rfl
  intro tokens tail depth spells enough
  obtain ⟨front, _, rfl, spells', spells''⟩ := spells_append spells
  obtain ⟨first, _, rfl, spellsObject, spells'⟩ := spells_append spells'
  obtain ⟨opening, inner, rfl, opens, spellsPosition⟩ := spells_symbol spells'
  obtain ⟨closing, _, rfl, closes, spells''⟩ := spells_symbol spells''
  obtain rfl := spells_nil spells''
  simp only [List.length_append, List.length_cons, List.length_nil] at enough ⊢
  obtain ⟨readObject, left, parsedObject, enough', sameObject⟩ := readsObject.operand first
    (opening :: (inner ++ closing :: tail)) depth spellsObject (by omega)
  obtain ⟨left, rfl⟩ : ∃ fewer, left = fewer + 1 := ⟨left - 1, by omega⟩
  obtain ⟨read, parsed, same⟩ := reads.whole inner (closing :: tail) left spellsPosition
    (ends_cons closes (by decide)) (by omega)
  refine ⟨.index readObject read { span := Span.join readObject.span (some closing.span) }, left,
    ?_, by omega, ?_⟩
  · rw [List.append_assoc, List.append_assoc]
    exact parsedObject.trans (parseSuffixes_index opens parsed closes)
  · rw [Matches, mapInfo, sameObject, same]
    rfl

end Expr

end ArrowCheck
