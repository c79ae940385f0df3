/-
This file proves that a written type can be stated as it is displayed: a constant
that is declared with the text of a type has that type. Parentheses around
parameters and around a function type in front of brackets are told apart by what
stands after them, at every depth.
-/

import ArrowCheck.Proofs.RoundTrip

namespace ArrowCheck

open Token ArrowCheck.Tree

/-! ### The words of a declaration -/

theorem isNumeral_zero : IsNumeral ['0'] :=
  .whole (List.cons_ne_nil _ _) (List.all_eq_true.mp rfl)

/-- The words of a constant that is declared with a type. -/
def WrittenType.declarationWords (written : WrittenType) : List Word :=
  (.keyword .const, "const") :: (.name, "x") :: Symbol.colon.word ::
    (written.words ++ [Symbol.assign.word, (.number, "0")])

theorem WrittenType.declaration_lexesTo (written : WrittenType) (named : written.Named) :
    LexesTo ("const x: " ++ written.text ++ " = 0").toList written.declarationWords := by
  have nothing : Apart [] := fun _ absent => absurd absent (by simp)
  have zero : LexesTo ['0'] [(.number, "0")] :=
    lexesTo_nil.token (begins_numeral isNumeral_zero nothing)
  have assign : LexesTo [' ', '=', ' ', '0'] [Symbol.assign.word, (.number, "0")] :=
    (zero.blank.token (begins_symbol .assign (apart_cons (by simp)))).blank
  have declared := (written.text_lexesTo named (apart_cons (by simp)) assign).blank
  have colon := declared.token (begins_symbol .colon (apart_cons (by simp)))
  -- the name stands directly before the colon, which no name goes on with
  have name := colon.token (⟨by simp, rfl, rfl⟩ : Begins .name ['x'] _)
  have keyword := name.blank.token (begins_keyword .const (apart_cons (by simp)))
  simpa [Keyword.text, Symbol.text, declarationWords, Symbol.word] using keyword

/-! ### Parsing the declaration -/

/-- A constant at the end of the tokens. -/
theorem Tree.parseStmt_constLast {depth : Nat} {token name assign : Token}
    {tokens after : List Token} {declared : Option WrittenType} {init : Expr}
    (isKeyword : token.kind = .keyword .const) (isName : name.kind = .name)
    (parsedType : parseDeclared tokens = .ok (declared, assign :: after))
    (assigns : assign.kind = .symbol .assign) (parsed : parseExpr depth after = .ok (init, [])) :
    ∃ info, parseStmt (depth + 1) (token :: name :: tokens) =
      .ok (.const name.text declared init info, []) := by
  obtain ⟨kind, text, span⟩ := token
  cases isKeyword
  refine ⟨{ span := some (span.cover (init.span.getD name.span)) }, ?_⟩
  show (takeName (name :: tokens) >>= _) = _
  rw [takeName_cons isName]
  show (parseDeclared tokens >>= _) = _
  rw [parsedType]
  show (takeSymbol .assign (assign :: after) >>= _) = _
  rw [takeSymbol_cons assigns]
  show (parseExpr depth after >>= _) = _
  rw [parsed]
  rfl

/-- The word for zero is an expression. -/
theorem parseExpr_zero {token : Token} (isZero : token.word = (.number, "0")) (depth : Nat)
    (enough : 10 ≤ depth) : ∃ init, parseExpr depth [token] = .ok (init, []) := by
  have proper : (Piece.number (Decimal.ofNumeral "0")).Proper fun _ => "0" := ⟨isNumeral_zero, rfl⟩
  have spells : Spells (fun _ => "0") [token] [.number (Decimal.ofNumeral "0")] :=
    congrArg ([·]) isZero
  obtain ⟨init, parsed, _⟩ := (Expr.number_readsBack proper {}).whole [token] [] depth spells
    (fun _ absent => absurd absent (by simp)) enough
  exact ⟨init, parsed⟩

/-- The words of a declaration are read as a single constant of the type. -/
theorem WrittenType.parseStmts_declaration {written : WrittenType} {tokens : List Token}
    (spelled : tokens.map word = written.declarationWords) :
    ∃ read init info, parseStmts (depthBound tokens) tokens =
        .ok [.const "x" (some read) init info] ∧ read.unplaced = written.unplaced := by
  obtain ⟨keyword, _, rfl, isKeyword, spelled⟩ := List.map_eq_cons_iff.mp spelled
  obtain ⟨name, _, rfl, isName, spelled⟩ := List.map_eq_cons_iff.mp spelled
  obtain ⟨colon, _, rfl, separates, spelled⟩ := List.map_eq_cons_iff.mp spelled
  obtain ⟨inner, _, rfl, spelledType, spelled⟩ := List.map_eq_append_iff.mp spelled
  obtain ⟨assign, _, rfl, assigns, spelled⟩ := List.map_eq_cons_iff.mp spelled
  obtain ⟨zero, _, rfl, isZero, spelled⟩ := List.map_eq_cons_iff.mp spelled
  obtain rfl := List.map_eq_nil_iff.mp spelled
  have ends : Avoids [.binary .less, .openBracket] [assign, zero] :=
    avoids_cons (kind_of_word assigns) (by simp)
  obtain ⟨read, parsedType, same⟩ := parse_words spelledType ends
  obtain ⟨init, parsedInit⟩ := parseExpr_zero isZero (10 * (inner.length + 5) + 8) (by omega)
  obtain ⟨info, parsed⟩ := parseStmt_constLast (kind_of_word isKeyword) (kind_of_word isName)
    (parseDeclared_some (kind_of_word separates) parsedType) (kind_of_word assigns) parsedInit
  rw [text_of_word isName] at parsed
  refine ⟨read, init, info, ?_, same⟩
  have depth : depthBound (keyword :: name :: colon :: (inner ++ [assign, zero])) =
      10 * (inner.length + 5) + 8 + 1 + 1 := by
    simp [depthBound]
    omega
  rw [depth]
  exact parseStmts_cons (by simp) parsed rfl

/-- A constant that is declared with the text of a type has that type, up to places. -/
theorem WrittenType.parse_declaration (written : WrittenType) (named : written.Named) :
    ∃ program declaration read,
      Program.parse ("const x: " ++ written.text ++ " = 0") = .ok program ∧
        program.declaration? "x" = some declaration ∧ declaration.declared = some read ∧
        read.unplaced = written.unplaced := by
  obtain ⟨tokens, lexed, spelled⟩ := written.declaration_lexesTo named 0
  obtain ⟨read, init, info, parsed, same⟩ := parseStmts_declaration spelled
  have split : Token.ofText ("const x: " ++ written.text ++ " = 0") = .ok tokens := by
    rw [Token.ofText, Token.lex, lexed]
  refine ⟨⟨[.const "x" (some read) init info],
    { span := some (.ofOffsets 0 ("const x: " ++ written.text ++ " = 0").utf8ByteSize) }⟩,
    ⟨"x", some read, init, info⟩, read, ?_, rfl, rfl, same⟩
  rw [Program.parse, split]
  show (parseStmts (depthBound tokens) tokens >>= _) = _
  rw [parsed]
  rfl

/-- A function that takes a list of functions and gives functions without parameters, with a name
that means an array where it has an argument. -/
def handlerType : WrittenType :=
  .function
    [.array (.function [.named "Array" none] (.named "T" none) none) none, .named "$n_1" none]
    (.array (.array (.function [] (.named "Array" none) none) none) none) none

example : handlerType.text = "(((Array) => T)[], $n_1) => (() => Array)[][]" := by
  decide +kernel

theorem handlerType_parse_declaration :
    handlerType.Named ∧ ∃ program declaration read,
      Program.parse ("const x: " ++ handlerType.text ++ " = 0") = .ok program ∧
        program.declaration? "x" = some declaration ∧ declaration.declared = some read ∧
        read.unplaced = handlerType.unplaced := by
  have named : handlerType.Named := by
    simp only [handlerType, WrittenType.Named, WrittenType.NamedAll, and_true]
    decide
  exact ⟨named, handlerType.parse_declaration named⟩

end ArrowCheck
