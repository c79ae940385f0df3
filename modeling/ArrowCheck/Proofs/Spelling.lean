/-
This file describes the tokens of printed programs: how the tokens of a printed
expression start, and what may stand after them. The parser tries an arrow function
first, so the main result is that no other printed expression starts like the head
of an arrow function.
-/

import ArrowCheck.Proofs.Parsing
import ArrowCheck.Proofs.Printing

namespace ArrowCheck

open Token ArrowCheck.Tree

/-! ### Tokens that spell pieces -/

variable {numeral : Binary64 → String}

/-- Tokens are the words of pieces. -/
def Spells (numeral : Binary64 → String) (tokens : List Token) (pieces : List Piece) : Prop :=
  tokens.map word = pieces.flatMap (Piece.words numeral)

section

variable {tokens : List Token} {pieces first second : List Piece}

theorem spells_nil (spells : Spells numeral tokens []) : tokens = [] :=
  List.map_eq_nil_iff.mp spells

theorem spells_append (spells : Spells numeral tokens (first ++ second)) :
    ∃ front back, tokens = front ++ back ∧ Spells numeral front first ∧
      Spells numeral back second := by
  rw [Spells, List.flatMap_append] at spells
  exact List.map_eq_append_iff.mp spells

theorem spells_symbol {mark : Symbol} (spells : Spells numeral tokens (.symbol mark :: pieces)) :
    ∃ token rest, tokens = token :: rest ∧ token.kind = .symbol mark ∧
      Spells numeral rest pieces := by
  obtain ⟨token, rest, rfl, same, spells'⟩ := List.map_eq_cons_iff.mp spells
  exact ⟨token, rest, rfl, kind_of_word same, spells'⟩

theorem spells_keyword {reserved : Keyword}
    (spells : Spells numeral tokens (.keyword reserved :: pieces)) :
    ∃ token rest, tokens = token :: rest ∧ token.kind = .keyword reserved ∧
      Spells numeral rest pieces := by
  obtain ⟨token, rest, rfl, same, spells'⟩ := List.map_eq_cons_iff.mp spells
  exact ⟨token, rest, rfl, kind_of_word same, spells'⟩

theorem spells_name {name : String} (spells : Spells numeral tokens (.name name :: pieces)) :
    ∃ token rest, tokens = token :: rest ∧ token.kind = .name ∧ token.text = name ∧
      Spells numeral rest pieces := by
  obtain ⟨token, rest, rfl, same, spells'⟩ := List.map_eq_cons_iff.mp spells
  exact ⟨token, rest, rfl, kind_of_word same, text_of_word same, spells'⟩

theorem spells_number {value : Binary64}
    (spells : Spells numeral tokens (.number value :: pieces)) :
    ∃ token rest, tokens = token :: rest ∧ token.kind = .number ∧ token.text = numeral value ∧
      Spells numeral rest pieces := by
  obtain ⟨token, rest, rfl, same, spells'⟩ := List.map_eq_cons_iff.mp spells
  exact ⟨token, rest, rfl, kind_of_word same, text_of_word same, spells'⟩

theorem spells_string {value : String} (spells : Spells numeral tokens (.string value :: pieces)) :
    ∃ token rest, tokens = token :: rest ∧ token.kind = .quoted ∧
      Quoted.decode token.text = value ∧ Spells numeral rest pieces := by
  obtain ⟨token, rest, rfl, same, spells'⟩ := List.map_eq_cons_iff.mp spells
  refine ⟨token, rest, rfl, kind_of_word same, ?_, spells'⟩
  rw [text_of_word same]
  exact Quoted.decode_encode rfl value

theorem spells_type {written : WrittenType}
    (spells : Spells numeral tokens (.type written :: pieces)) :
    ∃ front back, tokens = front ++ back ∧ front.map word = written.words ∧
      Spells numeral back pieces :=
  List.map_eq_append_iff.mp spells

end

/-! ### What may stand after an expression -/

/-- The symbols that end an expression. -/
def enders : List Symbol :=
  [.closeParen, .closeBracket, .comma, .semicolon, .colon]

/-- Tokens that do not go on with an expression before them. -/
def Ends (tokens : List Token) : Prop :=
  ∀ token ∈ tokens.head?, ∃ symbol ∈ enders, token.kind = .symbol symbol

/-- Tokens that go on with an expression before them at most by an operator of at most a given
strength, or by asking which branch to take. -/
structure Loose (level : Nat) (tokens : List Token) : Prop where
  avoids : Avoids [.openParen, .openBracket] tokens
  weak : ∀ token ∈ tokens.head?, ∀ operator,
    token.kind = .symbol (.binary operator) → operator.precedence ≤ level

section

variable {token : Token} {tokens rest : List Token} {symbol : Symbol} {symbols : List Symbol}
  {level : Nat}

theorem ends_cons (isSymbol : token.kind = .symbol symbol) (ender : symbol ∈ enders) :
    Ends (token :: rest) := by
  rintro _ ⟨⟩
  exact ⟨symbol, ender, isSymbol⟩

theorem Ends.avoids (ends : Ends tokens) (others : ∀ symbol ∈ symbols, symbol ∉ enders) :
    Avoids symbols tokens := by
  intro token member symbol member' isSymbol
  obtain ⟨ender, isEnder, isSymbol'⟩ := ends token member
  rw [isSymbol] at isSymbol'
  cases isSymbol'
  exact others symbol member' isEnder

theorem Ends.loose (ends : Ends tokens) (level : Nat) : Loose level tokens := by
  refine ⟨ends.avoids (by decide), fun token member operator isOperator => ?_⟩
  obtain ⟨ender, isEnder, isSymbol⟩ := ends token member
  rw [isOperator] at isSymbol
  cases isSymbol
  simp [enders] at isEnder

theorem loose_operator {operator : Operator} (isOperator : token.kind = .symbol (.binary operator))
    (weak : operator.precedence ≤ level) : Loose level (token :: rest) := by
  refine ⟨avoids_cons isOperator (by simp), ?_⟩
  rintro _ ⟨⟩ operator' isOperator'
  rw [isOperator] at isOperator'
  cases isOperator'
  exact weak

theorem loose_question (level : Nat) (asks : token.kind = .symbol .question) :
    Loose level (token :: rest) := by
  refine ⟨avoids_cons asks (by simp), ?_⟩
  rintro _ ⟨⟩ operator isOperator
  rw [asks] at isOperator
  cases isOperator

/-- A chain of operators ends before operators that are weaker than what it asks for. -/
theorem Loose.parseOperators_end (loose : Loose level rest) {depth least : Nat} {left : Expr}
    (lt : level < least) : parseOperators (depth + 1) least left rest = .ok (left, rest) :=
  Tree.parseOperators_end fun token member operator isOperator =>
    Nat.lt_of_le_of_lt (loose.weak token member operator isOperator) lt

theorem Loose.mono {more : Nat} (loose : Loose level tokens) (le : level ≤ more) :
    Loose more tokens :=
  ⟨loose.avoids, fun token member operator isOperator =>
    Nat.le_trans (loose.weak token member operator isOperator) le⟩

end

/-! ### How expressions start -/

namespace Piece

/-- Pieces that an expression can start with and that stand neither for a name nor for an opening
parenthesis. -/
def isSolid : Piece → Bool
  | .keyword .true | .keyword .false | .number _ | .string _ | .symbol .openBracket => true
  | _ => false

/-- The symbols that go on with an expression. -/
def joins : Symbol → Bool
  | .binary _ | .question | .openParen | .openBracket => true
  | _ => false

/-- How an expression starts that is no list of parameters. -/
inductive Unlisted : List Piece → Prop where
  | solid {piece : Piece} (isSolid : piece.isSolid = true) (more : List Piece) :
      Unlisted (piece :: more)
  | parens (more : List Piece) : Unlisted (.symbol .openParen :: more)
  | name (name : String) {mark : Symbol} (joins : joins mark = true) (more : List Piece) :
      Unlisted (.name name :: .symbol mark :: more)

/-- How an expression starts that is no arrow function. -/
inductive Headless : List Piece → Prop where
  | solid {piece : Piece} (isSolid : piece.isSolid = true) (more : List Piece) :
      Headless (piece :: more)
  | parens {inner : List Piece} (unlisted : Unlisted inner) :
      Headless (.symbol .openParen :: inner)
  | name (name : String) {mark : Symbol} (joins : joins mark = true) (more : List Piece) :
      Headless (.name name :: .symbol mark :: more)
  | alone (name : String) : Headless [.name name]

theorem Unlisted.append {pieces : List Piece} (unlisted : Unlisted pieces) (more : List Piece) :
    Unlisted (pieces ++ more) := by
  cases unlisted with
  | solid isSolid rest => exact .solid isSolid (rest ++ more)
  | parens rest => exact .parens (rest ++ more)
  | name name joins rest => exact .name name joins (rest ++ more)

theorem Headless.append {pieces : List Piece} (headless : Headless pieces) {mark : Symbol}
    (joins : Piece.joins mark = true) (more : List Piece) :
    Headless (pieces ++ .symbol mark :: more) := by
  cases headless with
  | solid isSolid rest => exact .solid isSolid _
  | parens unlisted => exact .parens (unlisted.append _)
  | name name joins' rest => exact .name name joins' _
  | alone name => exact .name name joins more

end Piece

namespace Expr

open Piece (Unlisted Headless)

theorem enclose_of_le {level : Nat} {expr : Expr} (strong : level ≤ expr.strength)
    (pieces : List Piece) : expr.enclose level pieces = pieces :=
  if_neg (Nat.not_lt.mpr strong)

theorem enclose_of_lt {level : Nat} {expr : Expr} (weak : expr.strength < level)
    (pieces : List Piece) :
    expr.enclose level pieces = .symbol .openParen :: pieces ++ [.symbol .closeParen] :=
  if_pos weak

/-- Whether an expression is a name. -/
def isIdent : Expr → Bool
  | .ident _ _ => true
  | _ => false

/-- Whether an expression is an arrow function. -/
def isArrow : Expr → Bool
  | .arrow _ _ _ _ => true
  | _ => false

theorem isIdent_of_weak {level : Nat} {expr : Expr} (weak : expr.strength < level)
    (bound : level ≤ 7) : expr.isIdent = false := by
  cases expr with
  | ident => exact absurd bound (Nat.not_le.mpr weak)
  | _ => rfl

theorem isArrow_of_strong {expr : Expr} (strong : 1 ≤ expr.strength) : expr.isArrow = false := by
  cases expr with
  | arrow => exact absurd strong (by simp [strength])
  | _ => rfl

theorem precedence_pos (operator : Operator) : 1 ≤ operator.precedence := by
  cases operator <;> decide

theorem precedence_lt (operator : Operator) : operator.precedence < 7 := by
  cases operator <;> decide

/-- What an expression in its place goes on with, if it has more than one piece. -/
theorem unlisted_enclose {expr : Expr} (unlisted : expr.isIdent = false → Unlisted expr.pieces)
    (level : Nat) {mark : Symbol} (joins : Piece.joins mark = true) (more : List Piece) :
    Unlisted (expr.enclose level expr.pieces ++ .symbol mark :: more) := by
  by_cases weak : expr.strength < level
  · rw [enclose_of_lt weak]
    exact .parens _
  · rw [enclose_of_le (Nat.not_lt.mp weak)]
    by_cases isIdent : expr.isIdent = true
    · cases expr with
      | ident name => exact .name name joins more
      | _ => cases isIdent
    · exact (unlisted (Bool.not_eq_true _ ▸ isIdent)).append _

/-- An expression of more than one piece does not start like a list of parameters. -/
theorem unlisted (expr : Expr) (compound : expr.isIdent = false) : Unlisted expr.pieces := by
  match expr with
  | .number _ _ | .string _ _ => exact .solid rfl []
  | .bool value _ => exact .solid (by cases value <;> rfl) []
  | .ident _ _ => cases compound
  | .binary operator left right _ => exact unlisted_enclose left.unlisted _ rfl _
  | .conditional test consequent alternate _ =>
    rw [pieces, List.append_assoc]
    exact unlisted_enclose test.unlisted _ rfl _
  | .arrow params result body _ => exact .parens _
  | .call callee arguments _ =>
    rw [pieces, List.append_assoc]
    exact unlisted_enclose callee.unlisted _ rfl _
  | .array elements _ => exact .solid rfl _
  | .index object position _ =>
    rw [pieces, List.append_assoc]
    exact unlisted_enclose object.unlisted _ rfl _

theorem headless_enclose {expr : Expr} (headless : expr.isArrow = false → Headless expr.pieces)
    {level : Nat} (positive : 1 ≤ level) (bound : level ≤ 7) {mark : Symbol}
    (joins : Piece.joins mark = true) (more : List Piece) :
    Headless (expr.enclose level expr.pieces ++ .symbol mark :: more) := by
  by_cases weak : expr.strength < level
  · rw [enclose_of_lt weak]
    have inner := expr.unlisted (isIdent_of_weak weak bound)
    exact .parens ((inner.append _).append _)
  · have strong := Nat.not_lt.mp weak
    rw [enclose_of_le strong]
    exact (headless (isArrow_of_strong (Nat.le_trans positive strong))).append joins more

/-- An expression that is no arrow function does not start like one. -/
theorem headless (expr : Expr) (plain : expr.isArrow = false) : Headless expr.pieces := by
  match expr with
  | .number _ _ | .string _ _ => exact .solid rfl []
  | .bool value _ => exact .solid (by cases value <;> rfl) []
  | .ident name _ => exact .alone name
  | .binary operator left right _ =>
    exact headless_enclose left.headless (precedence_pos operator)
      (Nat.le_of_lt (precedence_lt operator)) rfl _
  | .conditional test consequent alternate _ =>
    rw [pieces, List.append_assoc]
    exact headless_enclose test.headless (by decide) (by decide) rfl _
  | .arrow _ _ _ _ => cases plain
  | .call callee arguments _ =>
    rw [pieces, List.append_assoc]
    exact headless_enclose callee.headless (by decide) (by decide) rfl _
  | .array elements _ => exact .solid rfl _
  | .index object position _ =>
    rw [pieces, List.append_assoc]
    exact headless_enclose object.headless (by decide) (by decide) rfl _

end Expr

section

variable {token : Token} {tokens rest : List Token} {pieces : List Piece}

/-- The kinds of the tokens that an expression can start with. -/
def Token.Kind.isOpening : Token.Kind → Bool
  | .name | .number | .quoted | .keyword .true | .keyword .false | .symbol .openParen
  | .symbol .openBracket => true
  | _ => false

theorem spells_solid {piece : Piece} (isSolid : piece.isSolid = true)
    (spells : Spells numeral tokens (piece :: pieces)) :
    ∃ token rest, tokens = token :: rest ∧ token.kind.isOpening = true ∧ token.kind ≠ .name ∧
      token.kind ≠ .symbol .openParen ∧ token.kind ≠ .symbol .closeParen := by
  match piece with
  | .keyword .true | .keyword .false =>
    obtain ⟨token, rest, rfl, kind, _⟩ := spells_keyword spells
    exact ⟨token, rest, rfl, by rw [kind]; decide⟩
  | .number _ =>
    obtain ⟨token, rest, rfl, kind, _⟩ := spells_number spells
    exact ⟨token, rest, rfl, by rw [kind]; decide⟩
  | .string _ =>
    obtain ⟨token, rest, rfl, kind, _⟩ := spells_string spells
    exact ⟨token, rest, rfl, by rw [kind]; decide⟩
  | .symbol .openBracket =>
    obtain ⟨token, rest, rfl, kind, _⟩ := spells_symbol spells
    exact ⟨token, rest, rfl, by rw [kind]; decide⟩

/-- The first token of an expression. -/
theorem Expr.exists_opening (expr : Expr) (spells : Spells numeral tokens expr.pieces) :
    ∃ token rest, tokens = token :: rest ∧ token.kind.isOpening = true := by
  have starts : Piece.Headless expr.pieces ∨ ∃ more, expr.pieces = .symbol .openParen :: more := by
    by_cases isArrow : expr.isArrow = true
    · cases expr with
      | arrow => exact Or.inr ⟨_, rfl⟩
      | _ => cases isArrow
    · exact Or.inl (expr.headless (Bool.not_eq_true _ ▸ isArrow))
  obtain headless | ⟨more, same⟩ := starts
  · generalize expr.pieces = pieces at headless spells
    cases headless with
    | solid isSolid more =>
      obtain ⟨token, rest, rfl, opening, _⟩ := spells_solid isSolid spells
      exact ⟨token, rest, rfl, opening⟩
    | parens unlisted =>
      obtain ⟨token, rest, rfl, kind, _⟩ := spells_symbol spells
      exact ⟨token, rest, rfl, by rw [kind]; rfl⟩
    | name name joins more =>
      obtain ⟨token, rest, rfl, kind, _⟩ := spells_name spells
      exact ⟨token, rest, rfl, by rw [kind]; rfl⟩
    | alone name =>
      obtain ⟨token, rest, rfl, kind, _⟩ := spells_name spells
      exact ⟨token, rest, rfl, by rw [kind]; rfl⟩
  · rw [same] at spells
    obtain ⟨token, rest, rfl, kind, _⟩ := spells_symbol spells
    exact ⟨token, rest, rfl, by rw [kind]; rfl⟩

theorem avoids_of_isOpening (opening : token.kind.isOpening = true) {symbols : List Symbol}
    (others : ∀ symbol ∈ symbols, symbol ≠ .openParen ∧ symbol ≠ .openBracket) :
    Avoids symbols (token :: rest) := by
  rintro _ ⟨⟩ symbol member isSymbol
  rw [isSymbol] at opening
  obtain ⟨notParen, notBracket⟩ := others symbol member
  cases symbol with
  | openParen => exact notParen rfl
  | openBracket => exact notBracket rfl
  | _ => cases opening

/-- What goes on with an expression is not what comes after the name of a parameter or before an
arrow. -/
theorem avoids_of_joins {mark : Symbol} (isSymbol : token.kind = .symbol mark)
    (joins : Piece.joins mark = true) :
    Avoids [.colon, .comma, .closeParen, .arrow] (token :: rest) := by
  refine avoids_cons isSymbol fun member => ?_
  simp only [List.mem_cons, List.not_mem_nil, or_false] at member
  obtain rfl | rfl | rfl | rfl := member <;> cases joins

theorem parseParens_of_unlisted (unlisted : Piece.Unlisted pieces)
    (spells : Spells numeral tokens pieces) (rest : List Token) :
    ∃ error, parseParens (tokens ++ rest) = .error error := by
  cases unlisted with
  | solid isSolid more =>
    obtain ⟨token, _, rfl, _, noName, _, filled⟩ := spells_solid isSolid spells
    exact ⟨_, parseParens_of_ne_name noName filled⟩
  | parens more =>
    obtain ⟨token, _, rfl, kind, _⟩ := spells_symbol spells
    exact ⟨_, parseParens_of_ne_name (by rw [kind]; decide) (by rw [kind]; decide)⟩
  | name name joins more =>
    obtain ⟨token, _, rfl, kind, _, spells'⟩ := spells_name spells
    obtain ⟨next, _, rfl, kind', _⟩ := spells_symbol spells'
    exact ⟨_, parseParens_of_name kind ((avoids_of_joins kind' joins).mono (by simp))⟩

/-- Where no arrow function starts, none is found. -/
theorem arrowHead?_of_headless (headless : Piece.Headless pieces)
    (spells : Spells numeral tokens pieces) (avoids : Avoids [.arrow] rest) :
    arrowHead? (tokens ++ rest) = none := by
  cases headless with
  | solid isSolid more =>
    obtain ⟨token, _, rfl, _, noName, notParen, _⟩ := spells_solid isSolid spells
    exact arrowHead?_of_ne_openParen notParen fun isName => absurd isName noName
  | parens unlisted =>
    obtain ⟨token, _, rfl, kind, spells'⟩ := spells_symbol spells
    obtain ⟨error, failed⟩ := parseParens_of_unlisted unlisted spells' rest
    exact arrowHead?_of_error kind failed
  | name name joins more =>
    obtain ⟨token, _, rfl, kind, _, spells'⟩ := spells_name spells
    obtain ⟨next, _, rfl, kind', _⟩ := spells_symbol spells'
    exact arrowHead?_of_ne_openParen (by rw [kind]; decide) fun _ =>
      (avoids_of_joins kind' joins).mono (by simp)
  | alone name =>
    obtain ⟨token, _, rfl, kind, _, spells'⟩ := spells_name spells
    obtain rfl := spells_nil spells'
    exact arrowHead?_of_ne_openParen (by rw [kind]; decide) fun _ => avoids

end

end ArrowCheck
