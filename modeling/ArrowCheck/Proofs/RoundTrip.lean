/-
This file proves that a printed program is parsed as the program it was printed
from: arrow functions, statements and whole programs are read back once the
expressions in them are.
-/

import ArrowCheck.Proofs.ReadBack

namespace ArrowCheck

open Token ArrowCheck.Tree

variable {numeral : Binary64 → String}

/-! ### Arrow functions -/

/-- A stated type is read back before what cannot be a part of it. -/
theorem parseDeclared_words {declared : Option WrittenType} {tokens : List Token}
    (rest : List Token) (spells : Spells numeral tokens (WrittenType.declaredPieces declared))
    (avoids : Avoids [.binary .less, .openBracket, .colon] rest) :
    ∃ read, parseDeclared (tokens ++ rest) = .ok (read, rest) ∧
      read.map WrittenType.unplaced = declared.map WrittenType.unplaced := by
  cases declared with
  | none =>
    obtain rfl := spells_nil spells
    exact ⟨none, parseDeclared_none (avoids.mono (by simp)), rfl⟩
  | some written =>
    obtain ⟨colon, _, rfl, separates, spells'⟩ := spells_symbol spells
    obtain ⟨front, _, rfl, spelled, spells''⟩ := spells_type spells'
    obtain rfl := spells_nil spells''
    obtain ⟨read, parsed, same⟩ := WrittenType.parse_words spelled (avoids.mono (by simp))
    refine ⟨some read, ?_, congrArg some same⟩
    rw [List.append_nil]
    exact parseDeclared_some separates parsed

theorem paramOf_mapInfo {param : Param} {name : Token} {declared : Option WrittenType}
    (text : name.text = param.name)
    (same : declared.map WrittenType.unplaced = param.declared.map WrittenType.unplaced) :
    (paramOf name declared).mapInfo Info.unplaced = param.mapInfo Info.cleared := by
  simp only [paramOf, Param.mapInfo, text, same]
  rfl

/-- Parameters are read back before the closing parenthesis. -/
theorem parseParams_words (params : List Param) (nonempty : params ≠ []) (tokens : List Token)
    (closing : Token) (rest : List Token) (depth : Nat)
    (spells : Spells numeral tokens (Piece.separate (params.map Param.pieces)))
    (closes : closing.kind = .symbol .closeParen) (enough : tokens.length ≤ depth) :
    ∃ read, parseParams depth (tokens ++ closing :: rest) = .ok (read, rest) ∧
      read.map (Param.mapInfo Info.unplaced) = params.map (Param.mapInfo Info.cleared) := by
  match params, nonempty with
  | [last], _ =>
    rw [List.map_singleton, Piece.separate, List.intercalate_singleton] at spells
    obtain ⟨name, more, rfl, isName, text, spells'⟩ := spells_name spells
    obtain ⟨depth, rfl⟩ : ∃ fewer, depth = fewer + 1 := ⟨depth - 1, by simp at enough; omega⟩
    obtain ⟨declared, parsed, same⟩ := parseDeclared_words (closing :: rest) spells'
      (avoids_cons closes (by simp))
    refine ⟨[paramOf name declared], parseParams_last isName parsed closes, ?_⟩
    exact congrArg (· :: []) (paramOf_mapInfo text same)
  | head :: next :: tail, _ =>
    rw [List.map_cons, List.map_cons, Expr.separate_cons_cons] at spells
    obtain ⟨front, _, rfl, spellsHead, spells'⟩ := spells_append spells
    obtain ⟨name, more, rfl, isName, text, spellsType⟩ := spells_name spellsHead
    obtain ⟨comma, back, rfl, separates, spellsTail⟩ := spells_symbol spells'
    simp only [List.length_append, List.length_cons] at enough
    obtain ⟨depth, rfl⟩ : ∃ fewer, depth = fewer + 1 := ⟨depth - 1, by omega⟩
    obtain ⟨declared, parsed, same⟩ := parseDeclared_words (comma :: (back ++ closing :: rest))
      spellsType (avoids_cons separates (by simp))
    obtain ⟨read, parsedTail, sameTail⟩ := parseParams_words (next :: tail) (by simp) back closing
      rest depth spellsTail closes (by omega)
    refine ⟨paramOf name declared :: read, ?_, ?_⟩
    · rw [List.cons_append, List.cons_append, List.append_assoc]
      exact parseParams_cons isName parsed separates parsedTail
    · rw [List.map_cons, sameTail, paramOf_mapInfo text same]
      rfl

theorem parseParens_words (params : List Param) {tokens : List Token} {closing : Token}
    (rest : List Token) (spells : Spells numeral tokens (Piece.separate (params.map Param.pieces)))
    (closes : closing.kind = .symbol .closeParen) :
    ∃ read, parseParens (tokens ++ closing :: rest) = .ok (read, rest) ∧
      read.map (Param.mapInfo Info.unplaced) = params.map (Param.mapInfo Info.cleared) := by
  by_cases nonempty : params = []
  · subst nonempty
    obtain rfl := spells_nil spells
    exact ⟨[], parseParens_nil closes, rfl⟩
  · have enough : tokens.length ≤ depthBound (tokens ++ closing :: rest) := by
      simp [depthBound]
      omega
    obtain ⟨read, parsed, same⟩ := parseParams_words params nonempty tokens closing rest _ spells
      closes enough
    exact ⟨read, parseParens_of_params parsed, same⟩

/-- A body is read back after the head of its arrow function. -/
def Body.ReadsBack (numeral : Binary64 → String) (body : Body) : Prop :=
  ∀ (head : ArrowHead) (tokens rest : List Token) (depth : Nat),
    Spells numeral tokens body.pieces → Ends rest → 10 * tokens.length < depth →
    ∃ read info, parseArrow depth head (tokens ++ rest) =
        .ok (.arrow head.params head.result read info, rest) ∧
      read.mapInfo Info.unplaced = body.mapInfo Info.cleared ∧ info.ty = none

theorem Expr.arrow_readsBack {params : List Param} {result : Option WrittenType} {body : Body}
    (reads : body.ReadsBack numeral) (info : Info) :
    (arrow params result body info).ReadsBack numeral := by
  refine ReadsWhole.readsBack ?_ rfl
  intro tokens rest depth spells ends enough
  obtain ⟨front, _, rfl, spells', spells''⟩ := spells_append spells
  obtain ⟨first, _, rfl, spellsParams, spellsResult⟩ := spells_append spells'
  obtain ⟨opening, inner, rfl, opens, spellsParams⟩ := spells_symbol spellsParams
  obtain ⟨closing, middle, rfl, closes, spellsResult⟩ := spells_symbol spellsResult
  obtain ⟨pointer, last, rfl, points, spellsBody⟩ := spells_symbol spells''
  simp only [List.length_append, List.length_cons] at enough
  obtain ⟨depth, rfl⟩ : ∃ fewer, depth = fewer + 1 := ⟨depth - 1, by omega⟩
  obtain ⟨readParams, parsedParams, sameParams⟩ := parseParens_words params
    (middle ++ pointer :: (last ++ rest)) spellsParams closes
  obtain ⟨readResult, parsedResult, sameResult⟩ := parseDeclared_words
    (pointer :: (last ++ rest)) spellsResult (avoids_cons points (by simp))
  obtain ⟨readBody, ⟨span, ty⟩, parsed, sameBody, untyped⟩ := reads
    ⟨opening.span, readParams, readResult⟩ last rest depth spellsBody ends (by omega)
  cases untyped
  refine ⟨.arrow readParams readResult readBody ⟨span, none⟩, ?_, ?_⟩
  · rw [List.append_assoc, List.append_assoc]
    exact parseExpr_of_arrow (arrowHead?_parens opens parsedParams parsedResult points) parsed
  · rw [Matches, mapInfo, sameParams, sameResult, sameBody]
    rfl

theorem Body.value_readsBack {value : Expr} (reads : value.ReadsBack numeral) :
    (Body.value value).ReadsBack numeral := by
  intro head tokens rest depth spells ends enough
  obtain ⟨depth, rfl⟩ : ∃ fewer, depth = fewer + 1 := ⟨depth - 1, by omega⟩
  obtain ⟨read, parsed, same⟩ := reads.whole tokens rest depth spells ends (by omega)
  obtain ⟨token, more, rfl, opening⟩ := value.exists_opening spells
  refine ⟨.value read, _, parseArrow_value (avoids_of_isOpening opening (by simp)) parsed, ?_, rfl⟩
  rw [mapInfo, same]
  rfl

/-! ### Statements -/

/-- A statement is read back whatever stands after it. -/
def Stmt.ReadsBack (numeral : Binary64 → String) (stmt : Stmt) : Prop :=
  ∀ (tokens rest : List Token) (depth : Nat), Spells numeral tokens stmt.pieces →
    10 * tokens.length ≤ depth →
    ∃ read, parseStmt depth (tokens ++ rest) = .ok (read, rest) ∧
      read.mapInfo Info.unplaced = stmt.mapInfo Info.cleared

/-- Statements are read back before a closing brace. -/
def Stmt.ReadsBlock (numeral : Binary64 → String) (statements : List Stmt) : Prop :=
  ∀ (tokens : List Token) (closing : Token) (rest : List Token) (depth : Nat),
    Spells numeral tokens (Stmt.piecesAll statements) → closing.kind = .symbol .closeBrace →
    10 * tokens.length < depth →
    ∃ read, parseBlock depth (tokens ++ closing :: rest) = .ok ((read, closing.span), rest) ∧
      Stmt.mapInfoAll Info.unplaced read = Stmt.mapInfoAll Info.cleared statements

theorem Body.block_readsBack {statements : List Stmt} (reads : Stmt.ReadsBlock numeral statements) :
    (Body.block statements).ReadsBack numeral := by
  intro head tokens rest depth spells ends enough
  obtain ⟨opening, _, rfl, opens, spells'⟩ := spells_symbol spells
  obtain ⟨inner, _, rfl, spellsStatements, spells''⟩ := spells_append spells'
  obtain ⟨closing, _, rfl, closes, spells''⟩ := spells_symbol spells''
  obtain rfl := spells_nil spells''
  simp only [List.length_append, List.length_cons, List.length_nil] at enough
  obtain ⟨depth, rfl⟩ : ∃ fewer, depth = fewer + 1 := ⟨depth - 1, by omega⟩
  obtain ⟨read, parsed, same⟩ := reads inner closing rest depth spellsStatements closes (by omega)
  refine ⟨.block read, { span := some (head.start.cover (opening.span.cover closing.span)) },
    ?_, ?_, rfl⟩
  · rw [List.cons_append, List.append_assoc]
    exact parseArrow_block opens parsed
  · rw [mapInfo, same]
    rfl

namespace Stmt

theorem const_readsBack {init : Expr} (reads : init.ReadsBack numeral) (name : String)
    (declared : Option WrittenType) (info : Info) :
    (const name declared init info).ReadsBack numeral := by
  intro tokens rest depth spells enough
  obtain ⟨front, _, rfl, spells', spellsEnd⟩ := spells_append spells
  obtain ⟨first, _, rfl, spells', spellsInit⟩ := spells_append spells'
  obtain ⟨keyword, _, rfl, isKeyword, spells'⟩ := spells_keyword spells'
  obtain ⟨label, middle, rfl, isName, text, spellsType⟩ := spells_name spells'
  obtain ⟨assign, last, rfl, assigns, spellsInit⟩ := spells_symbol spellsInit
  obtain ⟨semicolon, _, rfl, stops, spellsEnd⟩ := spells_symbol spellsEnd
  obtain rfl := spells_nil spellsEnd
  simp only [List.length_append, List.length_cons, List.length_nil] at enough
  obtain ⟨depth, rfl⟩ : ∃ fewer, depth = fewer + 1 := ⟨depth - 1, by omega⟩
  obtain ⟨readType, parsedType, sameType⟩ := parseDeclared_words
    (assign :: (last ++ semicolon :: rest)) spellsType (avoids_cons assigns (by simp))
  obtain ⟨read, parsed, same⟩ := reads.whole last (semicolon :: rest) depth spellsInit
    (ends_cons stops (by decide)) (by omega)
  refine ⟨.const label.text readType read { span := some (keyword.span.cover semicolon.span) },
    ?_, ?_⟩
  · rw [List.append_assoc, List.append_assoc]
    exact parseStmt_const isKeyword isName parsedType assigns parsed stops
  · rw [mapInfo, sameType, same, text]
    rfl

theorem return_readsBack (info : Info) : (Stmt.return none info).ReadsBack numeral := by
  intro tokens rest depth spells enough
  obtain ⟨keyword, _, rfl, isKeyword, spells'⟩ := spells_keyword spells
  obtain ⟨semicolon, _, rfl, stops, spells''⟩ := spells_symbol spells'
  obtain rfl := spells_nil spells''
  obtain ⟨depth, rfl⟩ : ∃ fewer, depth = fewer + 1 := ⟨depth - 1, by simp at enough; omega⟩
  exact ⟨_, parseStmt_return isKeyword stops, rfl⟩

theorem returnValue_readsBack {argument : Expr} (reads : argument.ReadsBack numeral)
    (info : Info) : (Stmt.return (some argument) info).ReadsBack numeral := by
  intro tokens rest depth spells enough
  obtain ⟨keyword, _, rfl, isKeyword, spells'⟩ := spells_keyword spells
  obtain ⟨inner, _, rfl, spellsArgument, spells''⟩ := spells_append spells'
  obtain ⟨semicolon, _, rfl, stops, spells''⟩ := spells_symbol spells''
  obtain rfl := spells_nil spells''
  simp only [List.length_append, List.length_cons, List.length_nil] at enough
  obtain ⟨depth, rfl⟩ : ∃ fewer, depth = fewer + 1 := ⟨depth - 1, by omega⟩
  obtain ⟨read, parsed, same⟩ := reads.whole inner (semicolon :: rest) depth spellsArgument
    (ends_cons stops (by decide)) (by omega)
  have goesOn : atStatementEnd (inner ++ semicolon :: rest) = false := by
    obtain ⟨token, more, rfl, opening⟩ := argument.exists_opening spellsArgument
    obtain ⟨kind, text, span⟩ := token
    unfold atStatementEnd
    split
    · next same => cases same
    · next same => cases same; cases opening
    · next same => cases same; cases opening
    · rfl
  refine ⟨.return (some read) { span := some (keyword.span.cover semicolon.span) }, ?_, ?_⟩
  · rw [List.cons_append, List.append_assoc]
    exact parseStmt_returnValue isKeyword goesOn parsed stops
  · rw [mapInfo, same]
    rfl

theorem expr_readsBack {value : Expr} (reads : value.ReadsBack numeral) :
    (Stmt.expr value).ReadsBack numeral := by
  intro tokens rest depth spells enough
  obtain ⟨inner, _, rfl, spellsValue, spells'⟩ := spells_append spells
  obtain ⟨semicolon, _, rfl, stops, spells'⟩ := spells_symbol spells'
  obtain rfl := spells_nil spells'
  simp only [List.length_append, List.length_cons, List.length_nil] at enough
  obtain ⟨depth, rfl⟩ : ∃ fewer, depth = fewer + 1 := ⟨depth - 1, by omega⟩
  obtain ⟨read, parsed, same⟩ := reads.whole inner (semicolon :: rest) depth spellsValue
    (ends_cons stops (by decide)) (by omega)
  have plain : ∀ token ∈ (inner ++ semicolon :: rest).head?,
      token.kind ≠ .keyword .const ∧ token.kind ≠ .keyword .return := by
    obtain ⟨token, more, rfl, opening⟩ := value.exists_opening spellsValue
    rintro _ ⟨⟩
    constructor <;> intro kind <;> rw [kind] at opening <;> cases opening
  refine ⟨.expr (read.withSpan (Span.join read.span (some semicolon.span))), ?_, ?_⟩
  · rw [List.append_assoc]
    exact parseStmt_expr plain parsed stops
  · rw [mapInfo, Expr.mapInfo_withSpan, same]
    rfl

/-- The first token of a statement. -/
theorem exists_first (stmt : Stmt) {tokens : List Token}
    (spells : Spells numeral tokens stmt.pieces) :
    ∃ token rest, tokens = token :: rest ∧ token.kind ≠ .symbol .closeBrace := by
  have ofExpr (value : Expr) (pieces : List Piece)
      (spells : Spells numeral tokens (value.pieces ++ pieces)) :
      ∃ token rest, tokens = token :: rest ∧ token.kind ≠ .symbol .closeBrace := by
    obtain ⟨front, back, rfl, spells', _⟩ := spells_append spells
    obtain ⟨token, more, rfl, opening⟩ := value.exists_opening spells'
    exact ⟨token, more ++ back, rfl, fun kind => by rw [kind] at opening; cases opening⟩
  have ofKeyword (reserved : Keyword) (pieces : List Piece)
      (spells : Spells numeral tokens (.keyword reserved :: pieces)) :
      ∃ token rest, tokens = token :: rest ∧ token.kind ≠ .symbol .closeBrace := by
    obtain ⟨token, rest, rfl, kind, _⟩ := spells_keyword spells
    exact ⟨token, rest, rfl, by rw [kind]; simp⟩
  match stmt with
  | .const _ _ _ _ | .return none _ | .return (some _) _ => exact ofKeyword _ _ spells
  | .expr value => exact ofExpr value _ spells

theorem readsBlock_nil : ReadsBlock numeral [] := by
  intro tokens closing rest depth spells closes enough
  obtain rfl := spells_nil spells
  obtain ⟨depth, rfl⟩ : ∃ fewer, depth = fewer + 1 := ⟨depth - 1, by omega⟩
  exact ⟨[], parseBlock_nil closes, rfl⟩

theorem readsBlock_cons {head : Stmt} {tail : List Stmt} (reads : head.ReadsBack numeral)
    (readsAll : ReadsBlock numeral tail) : ReadsBlock numeral (head :: tail) := by
  intro tokens closing rest depth spells closes enough
  obtain ⟨front, back, rfl, spellsHead, spellsTail⟩ := spells_append spells
  obtain ⟨token, more, rfl, notBrace⟩ := head.exists_first spellsHead
  simp only [List.length_append, List.length_cons] at enough
  obtain ⟨depth, rfl⟩ : ∃ fewer, depth = fewer + 1 := ⟨depth - 1, by omega⟩
  obtain ⟨read, parsed, same⟩ := reads (token :: more) (back ++ closing :: rest) depth spellsHead
    (by simp; omega)
  obtain ⟨readAll, parsedAll, sameAll⟩ := readsAll back closing rest depth spellsTail closes
    (by omega)
  refine ⟨read :: readAll, ?_, by rw [mapInfoAll, same, sameAll]; rfl⟩
  rw [List.append_assoc]
  refine parseBlock_cons ?_ (by simp) parsed parsedAll
  rintro _ ⟨⟩ symbol member
  rwa [List.mem_singleton.mp member]

end Stmt

/-! ### Whole programs -/

section

variable {pieces : List Piece}

theorem forall_mem_enclose {expr : Expr} {level : Nat}
    (proper : ∀ piece ∈ expr.enclose level pieces, piece.Proper numeral) :
    ∀ piece ∈ pieces, piece.Proper numeral := by
  intro piece member
  refine proper piece ?_
  unfold Expr.enclose
  split_ifs
  · simp [member]
  · exact member

theorem forall_mem_separate {items : List (List Piece)}
    (proper : ∀ piece ∈ Piece.separate items, piece.Proper numeral) :
    ∀ item ∈ items, ∀ piece ∈ item, piece.Proper numeral := by
  match items with
  | [] => simp
  | [last] => simpa [Piece.separate] using proper
  | head :: next :: tail =>
    rw [Expr.separate_cons_cons, List.forall_mem_append, List.forall_mem_cons] at proper
    exact List.forall_mem_cons.mpr ⟨proper.1, forall_mem_separate proper.2.2⟩

end

mutual

/-- An expression of proper pieces is read back. -/
theorem Expr.readsBack (expr : Expr) (proper : ∀ piece ∈ expr.pieces, piece.Proper numeral) :
    expr.ReadsBack numeral := by
  match expr with
  | .number value info => exact Expr.number_readsBack (proper _ (by simp [Expr.pieces])) info
  | .string value info => exact Expr.string_readsBack value info
  | .bool value info => exact Expr.bool_readsBack value info
  | .ident name info => exact Expr.ident_readsBack name info
  | .binary operator left right info =>
    simp only [Expr.pieces, List.forall_mem_append, List.forall_mem_cons] at proper
    exact Expr.binary_readsBack (left.readsBack (forall_mem_enclose proper.1))
      (right.readsBack (forall_mem_enclose proper.2.2)) operator info
  | .conditional test consequent alternate info =>
    simp only [Expr.pieces, List.forall_mem_append, List.forall_mem_cons] at proper
    obtain ⟨⟨properTest, _, properConsequent⟩, _, properAlternate⟩ := proper
    exact Expr.conditional_readsBack (test.readsBack (forall_mem_enclose properTest))
      (consequent.readsBack properConsequent) (alternate.readsBack properAlternate) info
  | .arrow params result body info =>
    simp only [Expr.pieces, List.forall_mem_append, List.forall_mem_cons] at proper
    exact Expr.arrow_readsBack (body.readsBack proper.2.2) info
  | .call callee arguments info =>
    simp only [Expr.pieces, List.forall_mem_append, List.forall_mem_cons] at proper
    obtain ⟨⟨properCallee, _, properArguments⟩, _⟩ := proper
    exact Expr.call_readsBack (callee.readsBack (forall_mem_enclose properCallee))
      (Expr.readsItems arguments (forall_mem_separate properArguments)) info
  | .array elements info =>
    simp only [Expr.pieces, List.forall_mem_append, List.forall_mem_cons] at proper
    exact Expr.array_readsBack (Expr.readsItems elements (forall_mem_separate proper.1.2)) info
  | .index object position info =>
    simp only [Expr.pieces, List.forall_mem_append, List.forall_mem_cons] at proper
    obtain ⟨⟨properObject, _, properPosition⟩, _⟩ := proper
    exact Expr.index_readsBack (object.readsBack (forall_mem_enclose properObject))
      (position.readsBack properPosition) info

theorem Expr.readsItems (items : List Expr)
    (proper : ∀ item ∈ Expr.piecesAll items, ∀ piece ∈ item, piece.Proper numeral) :
    Expr.ReadsItems numeral items := by
  match items with
  | [] => exact Expr.readsItems_nil
  | [last] => exact Expr.readsItems_last (last.readsBack (proper _ (by simp [Expr.piecesAll])))
  | head :: next :: tail =>
    rw [Expr.piecesAll, List.forall_mem_cons] at proper
    exact Expr.readsItems_cons (head.readsBack proper.1) (Expr.readsItems (next :: tail) proper.2)

theorem Body.readsBack (body : Body) (proper : ∀ piece ∈ body.pieces, piece.Proper numeral) :
    body.ReadsBack numeral := by
  match body with
  | .value value => exact Body.value_readsBack (value.readsBack proper)
  | .block statements =>
    simp only [Body.pieces, List.forall_mem_append, List.forall_mem_cons] at proper
    exact Body.block_readsBack (Stmt.readsBlock statements proper.1.2)

theorem Stmt.readsBack (stmt : Stmt) (proper : ∀ piece ∈ stmt.pieces, piece.Proper numeral) :
    stmt.ReadsBack numeral := by
  match stmt with
  | .const name declared init info =>
    simp only [Stmt.pieces, List.forall_mem_append, List.forall_mem_cons] at proper
    exact Stmt.const_readsBack (init.readsBack proper.1.2.2) name declared info
  | .return none info => exact Stmt.return_readsBack info
  | .return (some argument) info =>
    simp only [Stmt.pieces, List.forall_mem_append, List.forall_mem_cons] at proper
    exact Stmt.returnValue_readsBack (argument.readsBack proper.1.2) info
  | .expr value =>
    simp only [Stmt.pieces, List.forall_mem_append] at proper
    exact Stmt.expr_readsBack (value.readsBack proper.1)

theorem Stmt.readsBlock (statements : List Stmt)
    (proper : ∀ piece ∈ Stmt.piecesAll statements, piece.Proper numeral) :
    Stmt.ReadsBlock numeral statements := by
  match statements with
  | [] => exact Stmt.readsBlock_nil
  | head :: tail =>
    rw [Stmt.piecesAll, List.forall_mem_append] at proper
    exact Stmt.readsBlock_cons (head.readsBack proper.1) (Stmt.readsBlock tail proper.2)

end

theorem Stmt.parseStmts_words (statements : List Stmt)
    (proper : ∀ piece ∈ Stmt.piecesAll statements, piece.Proper numeral) (tokens : List Token)
    (depth : Nat) (spells : Spells numeral tokens (Stmt.piecesAll statements))
    (enough : 10 * tokens.length < depth) :
    ∃ read, parseStmts depth tokens = .ok read ∧
      Stmt.mapInfoAll Info.unplaced read = Stmt.mapInfoAll Info.cleared statements := by
  match statements with
  | [] =>
    obtain rfl := spells_nil spells
    obtain ⟨depth, rfl⟩ : ∃ fewer, depth = fewer + 1 := ⟨depth - 1, by omega⟩
    exact ⟨[], rfl, rfl⟩
  | head :: tail =>
    rw [piecesAll, List.forall_mem_append] at proper
    obtain ⟨front, back, rfl, spellsHead, spellsTail⟩ := spells_append spells
    obtain ⟨token, more, rfl, _⟩ := head.exists_first spellsHead
    simp only [List.length_append, List.length_cons] at enough
    obtain ⟨depth, rfl⟩ : ∃ fewer, depth = fewer + 1 := ⟨depth - 1, by omega⟩
    obtain ⟨read, parsed, same⟩ := head.readsBack proper.1 (token :: more) back depth spellsHead
      (by simp; omega)
    obtain ⟨readAll, parsedAll, sameAll⟩ := Stmt.parseStmts_words tail proper.2 back depth
      spellsTail (by omega)
    refine ⟨read :: readAll, parseStmts_cons (by simp) parsed parsedAll, ?_⟩
    rw [mapInfoAll, same, sameAll]
    rfl

/-- A printed program is parsed as the program it was printed from, up to the places of its parts
and without types. -/
theorem Program.parse_print (numeral : Binary64 → String) (program : Program)
    (printable : program.Printable numeral) :
    ∃ read, Program.parse (program.print numeral) = .ok read ∧
      read.mapInfo Info.unplaced = program.mapInfo Info.cleared := by
  obtain ⟨tokens, lexed, spells⟩ := Piece.print_lexesTo printable 0
  obtain ⟨read, parsed, same⟩ := Stmt.parseStmts_words program.body printable tokens
    (depthBound tokens) spells (by simp [depthBound])
  have split : Token.ofText (program.print numeral) = .ok tokens := by
    rw [Token.ofText, Token.lex, Program.print, lexed]
  refine ⟨⟨read, { span := some (.ofOffsets 0 (program.print numeral).utf8ByteSize) }⟩, ?_, ?_⟩
  · rw [Program.parse, split]
    show (parseStmts (depthBound tokens) tokens >>= _) = _
    rw [parsed]
    rfl
  · rw [Program.mapInfo, same]
    rfl

/-- A program whose text needs parentheses around a callee, around a right operand and around an
array of functions, and a backslash inside quotes. -/
def nestedCall : Program :=
  { body := [
      .const "steps" (some (.array (.function [.named "number" none] (.named "T" none) none) none))
        (.conditional (.binary .less (.ident "a" {}) (.number (Decimal.ofNumeral "2.50") {}) {})
          (.call (.arrow [{ name := "x" }] (some (.named "T" none))
            (.block [.return (some (.index (.ident "x" {}) (.ident "a" {}) {})) {}]) {})
            [.binary .sub (.ident "a" {}) (.binary .sub (.ident "a" {}) (.ident "b" {}) {}) {}] {})
          (.array [.string "a \"b\"\n" {}, .bool true {}] {}) {}) {}] }

example : nestedCall.print (fun _ => "2.50") =
    "const steps : ((number) => T)[] = a < 2.50 ? ( ( x ) : T => \x7b return x [ a ] ; \x7d ) " ++
      "( a - ( a - b ) ) : [ \"a \\\"b\\\"\\n\" , true ] ;" := by
  decide +kernel

theorem parse_print_nestedCall :
    nestedCall.Printable (fun _ => "2.50") ∧
      ∃ read, Program.parse (nestedCall.print fun _ => "2.50") = .ok read ∧
        read.mapInfo Info.unplaced = nestedCall.mapInfo Info.cleared := by
  have numeral : IsNumeral "2.50".toList :=
    @IsNumeral.fraction ['2'] ['5', '0'] (by simp) (List.all_eq_true.mp rfl) (by simp)
      (List.all_eq_true.mp rfl)
  have printable : nestedCall.Printable fun _ => "2.50" := by
    simp [Program.Printable, nestedCall, Stmt.piecesAll, Stmt.pieces, Expr.pieces, Expr.piecesAll,
      Expr.enclose, Expr.strength, Operator.precedence, Piece.separate, List.intercalate,
      Body.pieces, Param.pieces, WrittenType.declaredPieces, Piece.Proper, WrittenType.Named,
      WrittenType.NamedAll]
    exact ⟨by decide, ⟨by decide, by decide⟩, by decide, numeral, by decide, by decide, by decide,
      by decide, by decide⟩
  exact ⟨printable, Program.parse_print _ nestedCall printable⟩

end ArrowCheck
