/-
This file proves that the layout of a text does not matter to the parser. Two texts
that are split into the same kinds and lexemes are read as the same tree up to
places, or refused for the same reason: with the same thing looked for, and the same
lexeme found in its place.

Both texts are parsed side by side. The bound on the depth of calls depends on
nothing but the number of tokens, so it is the same on both sides, and the induction
is on it. The head of an arrow function is read on trial on both sides, and it is
complete on one side exactly if it is on the other.
-/

import ArrowCheck.Proofs.Derivations
import ArrowCheck.Proofs.LexemeClasses
import ArrowCheck.Proofs.ReadBack

namespace ArrowCheck

variable {Value Other View View' : Type}

/-! ### Tokens on both sides -/

namespace Token

/-- Two rows of tokens with the same kinds and lexemes. -/
inductive Alike : List Token → List Token → Prop where
  | nil : Alike [] []
  | cons (kind : Kind) (text : String) (span span' : Span) {tokens tokens' : List Token}
      (alike : Alike tokens tokens') :
      Alike (⟨kind, text, span⟩ :: tokens) (⟨kind, text, span'⟩ :: tokens')

variable {tokens tokens' : List Token}

theorem alike_of_words (same : tokens.map word = tokens'.map word) : Alike tokens tokens' := by
  induction tokens generalizing tokens' with
  | nil =>
    rw [List.map_eq_nil_iff.mp same.symm]
    exact .nil
  | cons token tokens inductionHypothesis =>
    obtain ⟨token', rest, rfl, first, later⟩ := List.map_eq_cons_iff.mp same.symm
    obtain ⟨kind, text, span⟩ := token
    obtain ⟨kind', text', span'⟩ := token'
    cases first
    exact .cons kind text span span' (inductionHypothesis later.symm)

theorem Alike.depthBound_eq (alike : Alike tokens tokens') :
    depthBound tokens = depthBound tokens' := by
  induction alike with
  | nil => rfl
  | cons _ _ _ _ _ inductionHypothesis => exact congrArg (· + 10) inductionHypothesis

/-- A symbol is found at the front on both sides or on neither. -/
theorem Alike.takeSymbol?_cases (alike : Alike tokens tokens') (symbol : Symbol) :
    (takeSymbol? symbol tokens = none ∧ takeSymbol? symbol tokens' = none) ∨
      ∃ span span' rest rest', takeSymbol? symbol tokens = some (span, rest) ∧
        takeSymbol? symbol tokens' = some (span', rest') ∧ Alike rest rest' := by
  cases alike with
  | nil => exact Or.inl ⟨rfl, rfl⟩
  | cons kind text span span' alike =>
    cases kind with
    | symbol found =>
      by_cases same : found = symbol
      · exact Or.inr ⟨span, span', _, _, if_pos same, if_pos same, alike⟩
      · exact Or.inl ⟨if_neg same, if_neg same⟩
    | name | number | quoted | keyword _ => exact Or.inl ⟨rfl, rfl⟩

end Token

open Token

/-! ### Results on both sides -/

/-- Two errors that differ at most in places. -/
inductive ParseError.Alike : ParseError → ParseError → Prop where
  | unexpected (expected : Expected) {found found' : Token} (same : found.word = found'.word) :
      Alike (.unexpected expected found) (.unexpected expected found')
  | endOfInput (expected : Expected) : Alike (.endOfInput expected) (.endOfInput expected)
  | tooDeep : Alike .tooDeep .tooDeep

/-- Two results of parsing agree: both give values, which are the same in a sense, or both are
errors that differ at most in places. -/
inductive Agree (Same : Value → Value → Prop) :
    Except ParseError Value → Except ParseError Value → Prop where
  | ok {value value' : Value} (same : Same value value') : Agree Same (.ok value) (.ok value')
  | error {failure failure' : ParseError} (alike : failure.Alike failure') :
      Agree Same (.error failure) (.error failure')

theorem Agree.bind {Same : Value → Value → Prop} {Same' : Other → Other → Prop}
    {first first' : Except ParseError Value} {next next' : Value → Except ParseError Other}
    (agree : Agree Same first first')
    (goesOn : ∀ value value', Same value value' → Agree Same' (next value) (next' value')) :
    Agree Same' (first >>= next) (first' >>= next') := by
  cases agree with
  | ok same => exact goesOn _ _ same
  | error alike => exact .error alike

/-- Values that are the same as far as a view of them shows, with tokens left that are alike. -/
structure Leaves (view : Value → View) (result result' : Value × List Token) : Prop where
  same : view result.1 = view result'.1
  alike : Alike result.2 result'.2

/-- Two parsers agree on tokens that are alike. -/
def InStep (view : Value → View)
    (parser parser' : List Token → Except ParseError (Value × List Token)) : Prop :=
  ∀ ⦃tokens tokens' : List Token⦄, Alike tokens tokens' →
    Agree (Leaves view) (parser tokens) (parser' tokens')

theorem agree_missing {Same : Value → Value → Prop} {tokens tokens' : List Token}
    (alike : Alike tokens tokens') (expected : Expected) :
    Agree Same (.error (.missing expected tokens)) (.error (.missing expected tokens')) := by
  cases alike with
  | nil => exact .error (.endOfInput expected)
  | cons kind text span span' _ => exact .error (.unexpected expected rfl)

theorem inStep_tooDeep (view : Value → View) :
    InStep view (fun _ => .error .tooDeep) fun _ => .error .tooDeep :=
  fun _ _ _ => .error .tooDeep

theorem takeSymbol_inStep (symbol : Symbol) :
    InStep (fun _ => ()) (takeSymbol symbol) (takeSymbol symbol) := by
  intro tokens tokens' alike
  rw [takeSymbol, takeSymbol]
  rcases alike.takeSymbol?_cases symbol with
    ⟨absent, absent'⟩ | ⟨span, span', rest, rest', found, found', alike'⟩
  · rw [absent, absent']
    exact agree_missing alike _
  · rw [found, found']
    exact .ok ⟨rfl, alike'⟩

theorem takeParens_inStep {view : List Value → View}
    {takeFilled takeFilled' : List Token → Except ParseError (List Value × List Token)}
    (inStep : InStep view takeFilled takeFilled') :
    InStep view (takeParens takeFilled) (takeParens takeFilled') := by
  intro tokens tokens' alike
  rw [takeParens, takeParens]
  rcases alike.takeSymbol?_cases .closeParen with
    ⟨absent, absent'⟩ | ⟨_, _, _, _, found, found', alike'⟩
  · rw [absent, absent']
    exact inStep alike
  · rw [found, found']
    exact .ok ⟨rfl, alike'⟩

theorem takeName_inStep : InStep Prod.fst takeName takeName := by
  intro tokens tokens' alike
  cases alike with
  | nil => exact .error (.endOfInput .name)
  | cons kind text span span' alike =>
    cases kind with
    | name => exact .ok ⟨rfl, alike⟩
    | number | quoted | symbol _ | keyword _ => exact .error (.unexpected .name rfl)

/-! ### Written types -/

namespace WrittenType

theorem brackets_alike {element element' : WrittenType} {tokens tokens' : List Token}
    (same : element.unplaced = element'.unplaced) (alike : Alike tokens tokens') :
    Leaves unplaced (brackets element tokens) (brackets element' tokens') := by
  fun_induction brackets element tokens generalizing element' tokens' with
  | case1 element text opening text' closing rest inductionHypothesis =>
    cases alike with
    | cons _ _ _ opening' alike =>
      cases alike with
      | cons _ _ _ closing' alike =>
        show Leaves unplaced _ (brackets (.array element' _) _)
        exact inductionHypothesis (congrArg (WrittenType.array · none) same) alike
  | case2 element tokens other =>
    have other' : brackets element' tokens' = (element', tokens') := by
      unfold brackets
      split
      · next text opening text' closing rest =>
        cases alike with
        | cons _ _ _ _ alike =>
          cases alike with
          | cons _ _ _ _ alike => exact absurd rfl (other _ _ _ _ _)
      · rfl
    rw [other']
    exact ⟨same, alike⟩

theorem dropParamName_alike {tokens tokens' : List Token} (alike : Alike tokens tokens') :
    Alike (dropParamName tokens) (dropParamName tokens') := by
  cases alike with
  | nil => exact .nil
  | cons kind text span span' alike =>
    cases kind with
    | number | quoted | symbol _ | keyword _ => exact .cons _ text span span' alike
    | name =>
      cases alike with
      | nil => exact .cons _ text span span' .nil
      | cons kind' text' between between' alike =>
        cases kind' with
        | name | number | quoted | keyword _ =>
          exact .cons _ text span span' (.cons _ text' between between' alike)
        | symbol mark =>
          cases mark with
          | colon => exact alike
          | _ => exact .cons _ text span span' (.cons _ text' between between' alike)

/-- The parsers of written types agree. -/
structure Steady (depth : Nat) : Prop where
  type : InStep unplaced (parseType depth) (parseType depth)
  atom : InStep unplaced (parseAtom depth) (parseAtom depth)
  params : InStep unplacedAll (parseParams depth) (parseParams depth)

variable {depth : Nat}

theorem parseType_inStep (steady : Steady depth) :
    InStep unplaced (parseType (depth + 1)) (parseType (depth + 1)) := by
  intro tokens tokens' alike
  refine (steady.atom alike).bind ?_
  rintro ⟨atom, rest⟩ ⟨atom', rest'⟩ ⟨same, alike⟩
  exact .ok (brackets_alike same alike)

theorem parseParams_inStep (steady : Steady depth) :
    InStep unplacedAll (parseParams (depth + 1)) (parseParams (depth + 1)) := by
  intro tokens tokens' alike
  refine (steady.type (dropParamName_alike alike)).bind ?_
  rintro ⟨param, rest⟩ ⟨param', rest'⟩ ⟨same, alike⟩
  rcases alike.takeSymbol?_cases .comma with
    ⟨absent, absent'⟩ | ⟨_, _, _, _, found, found', alike⟩
  · simp only [absent, absent']
    refine (takeSymbol_inStep .closeParen alike).bind ?_
    rintro _ _ ⟨_, alike⟩
    exact .ok ⟨congrArg ([·]) same, alike⟩
  · simp only [found, found']
    refine (steady.params alike).bind ?_
    rintro ⟨params, rest⟩ ⟨params', rest'⟩ ⟨sameRest, alike⟩
    exact .ok ⟨congrArg₂ List.cons same sameRest, alike⟩

/-- A single type that is in parentheses is grouped on both sides. -/
theorem parseAfterParams_inStep (steady : Steady depth) (opening opening' : Span)
    {params params' : List WrittenType} (same : unplacedAll params = unplacedAll params') :
    InStep unplaced (parseAfterParams (parseType depth) opening params)
      (parseAfterParams (parseType depth) opening' params') := by
  intro tokens tokens' alike
  unfold parseAfterParams
  rcases alike.takeSymbol?_cases .arrow with
    ⟨absent, absent'⟩ | ⟨_, _, _, _, found, found', alike⟩
  · simp only [absent, absent']
    match params, params' with
    | [], [] => exact agree_missing alike _
    | [grouped], [grouped'] => exact .ok ⟨(List.cons.inj same).1, alike⟩
    | _ :: _ :: _, _ :: _ :: _ => exact agree_missing alike _
    | [], _ :: _ => cases same
    | _ :: _, [] => cases same
    | [_], _ :: _ :: _ => cases (List.cons.inj same).2
    | _ :: _ :: _, [_] => cases (List.cons.inj same).2
  · simp only [found, found']
    refine (steady.type alike).bind ?_
    rintro ⟨result, rest⟩ ⟨result', rest'⟩ ⟨sameResult, alike⟩
    exact .ok ⟨congrArg₂ (WrittenType.function · · none) same sameResult, alike⟩

theorem parseNamed_inStep (steady : Steady depth) :
    InStep unplaced (parseNamed (parseType depth)) (parseNamed (parseType depth)) := by
  intro tokens tokens' alike
  refine (takeName_inStep alike).bind ?_
  rintro ⟨⟨name, span⟩, rest⟩ ⟨⟨_, span'⟩, rest'⟩ ⟨⟨⟩, alike⟩
  simp only
  split_ifs
  · rcases alike.takeSymbol?_cases (.binary .less) with
      ⟨absent, absent'⟩ | ⟨_, _, _, _, found, found', alike⟩
    · rw [absent, absent']
      exact .ok ⟨rfl, alike⟩
    · rw [found, found']
      refine (steady.type alike).bind ?_
      rintro ⟨element, rest⟩ ⟨element', rest'⟩ ⟨same, alike⟩
      refine (takeSymbol_inStep (.binary .greater) alike).bind ?_
      rintro _ _ ⟨_, alike⟩
      exact .ok ⟨congrArg (WrittenType.array · none) same, alike⟩
  · exact .ok ⟨rfl, alike⟩

theorem parseAtom_inStep (steady : Steady depth) :
    InStep unplaced (parseAtom (depth + 1)) (parseAtom (depth + 1)) := by
  intro tokens tokens' alike
  cases alike with
  | nil => exact parseNamed_inStep steady .nil
  | cons kind text span span' alike =>
    cases kind with
    | name | number | quoted | keyword _ =>
      exact parseNamed_inStep steady (.cons _ text span span' alike)
    | symbol mark =>
      cases mark with
      | openParen =>
        refine (takeParens_inStep steady.params alike).bind ?_
        rintro ⟨params, rest⟩ ⟨params', rest'⟩ ⟨same, alike⟩
        exact parseAfterParams_inStep steady span span' same alike
      | _ => exact parseNamed_inStep steady (.cons _ text span span' alike)

theorem steady (depth : Nat) : Steady depth := by
  induction depth with
  | zero => exact ⟨inStep_tooDeep _, inStep_tooDeep _, inStep_tooDeep _⟩
  | succ depth inductionHypothesis =>
    exact ⟨parseType_inStep inductionHypothesis, parseAtom_inStep inductionHypothesis,
      parseParams_inStep inductionHypothesis⟩

theorem parse_inStep : InStep unplaced parse parse := by
  intro tokens tokens' alike
  rw [parse, parse, alike.depthBound_eq]
  exact (steady _).type alike

end WrittenType

namespace Tree

/-! ### Heads of arrow functions -/

theorem parseDeclared_inStep :
    InStep (Option.map WrittenType.unplaced) parseDeclared parseDeclared := by
  intro tokens tokens' alike
  rw [parseDeclared, parseDeclared]
  rcases alike.takeSymbol?_cases .colon with
    ⟨absent, absent'⟩ | ⟨_, _, _, _, found, found', alike'⟩
  · rw [absent, absent']
    exact .ok ⟨rfl, alike⟩
  · rw [found, found']
    refine (WrittenType.parse_inStep alike').bind ?_
    rintro ⟨written, rest⟩ ⟨written', rest'⟩ ⟨same, alike⟩
    exact .ok ⟨congrArg some same, alike⟩

theorem parseParams_inStep (depth : Nat) :
    InStep (List.map (Param.mapInfo Info.unplaced)) (parseParams depth) (parseParams depth) := by
  induction depth with
  | zero => exact inStep_tooDeep _
  | succ depth inductionHypothesis =>
    intro tokens tokens' alike
    refine (takeName_inStep alike).bind ?_
    rintro ⟨⟨name, span⟩, rest⟩ ⟨⟨_, span'⟩, rest'⟩ ⟨⟨⟩, alike⟩
    refine (parseDeclared_inStep alike).bind ?_
    rintro ⟨declared, rest⟩ ⟨declared', rest'⟩ ⟨sameType, alike⟩
    have same (info info' : Info) (untyped : info.unplaced = info'.unplaced) :
        Param.mapInfo Info.unplaced ⟨name, declared, info⟩ =
          Param.mapInfo Info.unplaced ⟨name, declared', info'⟩ :=
      congrArg₂ (Param.mk name) sameType untyped
    rcases alike.takeSymbol?_cases .comma with
      ⟨absent, absent'⟩ | ⟨_, _, _, _, found, found', alike⟩
    · simp only [absent, absent']
      refine (takeSymbol_inStep .closeParen alike).bind ?_
      rintro _ _ ⟨_, alike⟩
      exact .ok ⟨congrArg ([·]) (same _ _ rfl), alike⟩
    · simp only [found, found']
      refine (inductionHypothesis alike).bind ?_
      rintro ⟨params, rest⟩ ⟨params', rest'⟩ ⟨sameRest, alike⟩
      exact .ok ⟨congrArg₂ List.cons (same _ _ rfl) sameRest, alike⟩

theorem parseParens_inStep :
    InStep (List.map (Param.mapInfo Info.unplaced)) parseParens parseParens := by
  intro tokens tokens' alike
  rw [parseParens, parseParens, alike.depthBound_eq]
  exact takeParens_inStep (parseParams_inStep _) alike

/-- What a head declares, without places. -/
def ArrowHead.unplaced (head : ArrowHead) : List Param × Option WrittenType :=
  (head.params.map (Param.mapInfo Info.unplaced), head.result.map WrittenType.unplaced)

theorem parseHead_inStep (start start' : Span) :
    InStep ArrowHead.unplaced (parseHead start) (parseHead start') := by
  intro tokens tokens' alike
  refine (parseParens_inStep alike).bind ?_
  rintro ⟨params, rest⟩ ⟨params', rest'⟩ ⟨same, alike⟩
  refine (parseDeclared_inStep alike).bind ?_
  rintro ⟨result, rest⟩ ⟨result', rest'⟩ ⟨sameResult, alike⟩
  refine (takeSymbol_inStep .arrow alike).bind ?_
  rintro _ _ ⟨_, alike⟩
  exact .ok ⟨congrArg₂ Prod.mk same sameResult, alike⟩

/-- A complete head is found on both sides or on neither. -/
theorem arrowHead?_cases {tokens tokens' : List Token} (alike : Alike tokens tokens') :
    (arrowHead? tokens = none ∧ arrowHead? tokens' = none) ∨
      ∃ head head' rest rest', arrowHead? tokens = some (head, rest) ∧
        arrowHead? tokens' = some (head', rest') ∧ head.unplaced = head'.unplaced ∧
        Alike rest rest' := by
  cases alike with
  | nil => exact Or.inl ⟨rfl, rfl⟩
  | cons kind text span span' alike =>
    cases kind with
    | number | quoted | keyword _ => exact Or.inl ⟨rfl, rfl⟩
    | name =>
      cases alike with
      | nil => exact Or.inl ⟨rfl, rfl⟩
      | cons kind' text' _ _ alike =>
        cases kind' with
        | name | number | quoted | keyword _ => exact Or.inl ⟨rfl, rfl⟩
        | symbol mark =>
          cases mark with
          | arrow => exact Or.inr ⟨_, _, _, _, rfl, rfl, rfl, alike⟩
          | _ => exact Or.inl ⟨rfl, rfl⟩
    | symbol mark =>
      cases mark with
      | openParen =>
        show ((parseHead span _).toOption = none ∧ (parseHead span' _).toOption = none) ∨
          ∃ head head' rest rest', (parseHead span _).toOption = some (head, rest) ∧
            (parseHead span' _).toOption = some (head', rest') ∧ _
        have agree := parseHead_inStep span span' alike
        generalize parseHead span _ = result at agree ⊢
        generalize parseHead span' _ = result' at agree ⊢
        cases agree with
        | ok leaves => exact Or.inr ⟨_, _, _, _, rfl, rfl, leaves.same, leaves.alike⟩
        | error _ => exact Or.inl ⟨rfl, rfl⟩
      | _ => exact Or.inl ⟨rfl, rfl⟩

/-! ### Expressions and statements -/

theorem takeOperator?_cases {tokens tokens' : List Token} (alike : Alike tokens tokens') :
    (takeOperator? tokens = none ∧ takeOperator? tokens' = none) ∨
      ∃ operator rest rest', takeOperator? tokens = some (operator, rest) ∧
        takeOperator? tokens' = some (operator, rest') ∧ Alike rest rest' := by
  cases alike with
  | nil => exact Or.inl ⟨rfl, rfl⟩
  | cons kind text span span' alike =>
    cases kind with
    | name | number | quoted | keyword _ => exact Or.inl ⟨rfl, rfl⟩
    | symbol mark =>
      cases mark with
      | binary operator => exact Or.inr ⟨operator, _, _, rfl, rfl, alike⟩
      | _ => exact Or.inl ⟨rfl, rfl⟩

theorem atStatementEnd_alike {tokens tokens' : List Token} (alike : Alike tokens tokens') :
    atStatementEnd tokens = atStatementEnd tokens' := by
  cases alike with
  | nil => rfl
  | cons kind text span span' alike =>
    cases kind with
    | name | number | quoted | keyword _ => rfl
    | symbol mark => cases mark <;> rfl

/-- The semicolon that may end a statement is taken off on both sides. -/
theorem end_alike {tokens tokens' : List Token} (alike : Alike tokens tokens') (stop stop' : Span) :
    Alike ((takeSymbol? .semicolon tokens).getD (stop, tokens)).2
      ((takeSymbol? .semicolon tokens').getD (stop', tokens')).2 := by
  rcases alike.takeSymbol?_cases .semicolon with
    ⟨absent, absent'⟩ | ⟨_, _, _, _, found, found', alike'⟩
  · rw [absent, absent']
    exact alike
  · rw [found, found']
    exact alike'

/-- An expression without places. -/
abbrev bare : Expr → Expr :=
  Expr.mapInfo Info.unplaced

/-- The parsers of expressions and statements agree. -/
structure Steady (depth : Nat) : Prop where
  stmt : InStep (Stmt.mapInfo Info.unplaced) (parseStmt depth) (parseStmt depth)
  expr : InStep bare (parseExpr depth) (parseExpr depth)
  arrow {head head' : ArrowHead} (same : head.unplaced = head'.unplaced) :
    InStep bare (parseArrow depth head) (parseArrow depth head')
  block : InStep (fun result => Stmt.mapInfoAll Info.unplaced result.1) (parseBlock depth)
    (parseBlock depth)
  conditional : InStep bare (parseConditional depth) (parseConditional depth)
  binary (least : Nat) : InStep bare (parseBinary depth least) (parseBinary depth least)
  operators (least : Nat) {left left' : Expr} (same : bare left = bare left') :
    InStep bare (parseOperators depth least left) (parseOperators depth least left')
  operand : InStep bare (parseOperand depth) (parseOperand depth)
  suffixes {value value' : Expr} (same : bare value = bare value') :
    InStep bare (parseSuffixes depth value) (parseSuffixes depth value')
  items (closing : Symbol) : InStep (fun result => Expr.mapInfoAll Info.unplaced result.1)
    (parseItems depth closing) (parseItems depth closing)
  primary : InStep bare (parsePrimary depth) (parsePrimary depth)

theorem steady_zero : Steady 0 where
  stmt := inStep_tooDeep _
  expr := inStep_tooDeep _
  arrow _ := inStep_tooDeep _
  block := inStep_tooDeep _
  conditional := inStep_tooDeep _
  binary _ := inStep_tooDeep _
  operators _ _ _ _ := inStep_tooDeep _
  operand := inStep_tooDeep _
  suffixes _ := inStep_tooDeep _
  items _ := inStep_tooDeep _
  primary := inStep_tooDeep _

variable {depth : Nat}

theorem parseConst_inStep (steady : Steady depth) (start start' : Span) :
    InStep (Stmt.mapInfo Info.unplaced) (parseConst (parseExpr depth) start)
      (parseConst (parseExpr depth) start') := by
  intro tokens tokens' alike
  refine (takeName_inStep alike).bind ?_
  rintro ⟨⟨name, span⟩, rest⟩ ⟨⟨_, span'⟩, rest'⟩ ⟨⟨⟩, alike⟩
  refine (parseDeclared_inStep alike).bind ?_
  rintro ⟨declared, rest⟩ ⟨declared', rest'⟩ ⟨sameType, alike⟩
  refine (takeSymbol_inStep .assign alike).bind ?_
  rintro ⟨_, rest⟩ ⟨_, rest'⟩ ⟨_, alike⟩
  refine (steady.expr alike).bind ?_
  rintro ⟨init, rest⟩ ⟨init', rest'⟩ ⟨same, alike⟩
  exact .ok ⟨congrArg₂ (Stmt.const name · · {}) sameType same, end_alike alike _ _⟩

theorem parseReturn_inStep (steady : Steady depth) (start start' : Span) :
    InStep (Stmt.mapInfo Info.unplaced) (parseReturn (parseExpr depth) start)
      (parseReturn (parseExpr depth) start') := by
  intro tokens tokens' alike
  unfold parseReturn
  simp only [atStatementEnd_alike alike]
  split_ifs
  · exact .ok ⟨rfl, end_alike alike _ _⟩
  · refine (steady.expr alike).bind ?_
    rintro ⟨argument, rest⟩ ⟨argument', rest'⟩ ⟨same, alike⟩
    exact .ok ⟨congrArg (Stmt.return · {}) (congrArg some same), end_alike alike _ _⟩

theorem parseExprStmt_inStep (steady : Steady depth) :
    InStep (Stmt.mapInfo Info.unplaced) (parseExprStmt (parseExpr depth))
      (parseExprStmt (parseExpr depth)) := by
  intro tokens tokens' alike
  refine (steady.expr alike).bind ?_
  rintro ⟨value, rest⟩ ⟨value', rest'⟩ ⟨same, alike⟩
  rcases alike.takeSymbol?_cases .semicolon with
    ⟨absent, absent'⟩ | ⟨_, _, _, _, found, found', alike⟩
  · simp only [absent, absent']
    exact .ok ⟨congrArg Stmt.expr same, alike⟩
  · simp only [found, found']
    refine .ok ⟨congrArg Stmt.expr ?_, alike⟩
    rw [Expr.mapInfo_withSpan, Expr.mapInfo_withSpan]
    exact same

theorem parseStmt_inStep (steady : Steady depth) :
    InStep (Stmt.mapInfo Info.unplaced) (parseStmt (depth + 1)) (parseStmt (depth + 1)) := by
  intro tokens tokens' alike
  cases alike with
  | nil => exact parseExprStmt_inStep steady .nil
  | cons kind text span span' alike =>
    cases kind with
    | name | number | quoted | symbol _ =>
      exact parseExprStmt_inStep steady (.cons _ text span span' alike)
    | keyword reserved =>
      cases reserved with
      | const => exact parseConst_inStep steady span span' alike
      | «return» => exact parseReturn_inStep steady span span' alike
      | true | false => exact parseExprStmt_inStep steady (.cons _ text span span' alike)

theorem parseExpr_inStep (steady : Steady depth) :
    InStep bare (parseExpr (depth + 1)) (parseExpr (depth + 1)) := by
  intro tokens tokens' alike
  rcases arrowHead?_cases alike with
    ⟨absent, absent'⟩ | ⟨head, head', rest, rest', found, found', same, alike'⟩
  · rw [parseExpr_eq_conditional absent, parseExpr_eq_conditional absent']
    exact steady.conditional alike
  · rw [parseExpr_eq_arrow found, parseExpr_eq_arrow found']
    exact steady.arrow same alike'

theorem parseArrow_inStep (steady : Steady depth) {head head' : ArrowHead}
    (same : head.unplaced = head'.unplaced) :
    InStep bare (parseArrow (depth + 1) head) (parseArrow (depth + 1) head') := by
  intro tokens tokens' alike
  obtain ⟨sameParams, sameResult⟩ := Prod.mk.inj same
  have arrow {body body' : Body}
      (sameBody : body.mapInfo Info.unplaced = body'.mapInfo Info.unplaced)
      (span span' : Option Span) :
      bare (.arrow head.params head.result body { span := span }) =
        bare (.arrow head'.params head'.result body' { span := span' }) := by
    simp only [bare, Expr.mapInfo, sameParams, sameResult, sameBody]
    rfl
  unfold parseArrow
  rcases alike.takeSymbol?_cases .openBrace with
    ⟨absent, absent'⟩ | ⟨_, _, _, _, found, found', alike'⟩
  · rw [absent, absent']
    refine (steady.expr alike).bind ?_
    rintro ⟨value, rest⟩ ⟨value', rest'⟩ ⟨sameValue, alike⟩
    refine .ok ⟨arrow ?_ _ _, alike⟩
    exact congrArg Body.value sameValue
  · rw [found, found']
    refine (steady.block alike').bind ?_
    rintro ⟨⟨statements, close⟩, rest⟩ ⟨⟨statements', close'⟩, rest'⟩ ⟨sameBlock, alike⟩
    refine .ok ⟨arrow ?_ _ _, alike⟩
    exact congrArg Body.block sameBlock

theorem parseBlock_inStep (steady : Steady depth) :
    InStep (fun result => Stmt.mapInfoAll Info.unplaced result.1) (parseBlock (depth + 1))
      (parseBlock (depth + 1)) := by
  intro tokens tokens' alike
  unfold parseBlock
  rcases alike.takeSymbol?_cases .closeBrace with
    ⟨absent, absent'⟩ | ⟨_, _, _, _, found, found', alike'⟩
  · rw [absent, absent']
    have empty : tokens.isEmpty = tokens'.isEmpty := by cases alike <;> rfl
    simp only [empty]
    split_ifs
    · exact .error (.endOfInput _)
    · refine (steady.stmt alike).bind ?_
      rintro ⟨statement, rest⟩ ⟨statement', rest'⟩ ⟨same, alike⟩
      refine (steady.block alike).bind ?_
      rintro ⟨⟨statements, close⟩, rest⟩ ⟨⟨statements', close'⟩, rest'⟩ ⟨sameRest, alike⟩
      exact .ok ⟨congrArg₂ List.cons same sameRest, alike⟩
  · rw [found, found']
    exact .ok ⟨rfl, alike'⟩

theorem parseConditional_inStep (steady : Steady depth) :
    InStep bare (parseConditional (depth + 1)) (parseConditional (depth + 1)) := by
  intro tokens tokens' alike
  refine (steady.binary 1 alike).bind ?_
  rintro ⟨test, rest⟩ ⟨test', rest'⟩ ⟨sameTest, alike⟩
  rcases alike.takeSymbol?_cases .question with
    ⟨absent, absent'⟩ | ⟨_, _, _, _, found, found', alike⟩
  · simp only [absent, absent']
    exact .ok ⟨sameTest, alike⟩
  · simp only [found, found']
    refine (steady.expr alike).bind ?_
    rintro ⟨consequent, rest⟩ ⟨consequent', rest'⟩ ⟨sameConsequent, alike⟩
    refine (takeSymbol_inStep .colon alike).bind ?_
    rintro ⟨_, rest⟩ ⟨_, rest'⟩ ⟨_, alike⟩
    refine (steady.expr alike).bind ?_
    rintro ⟨alternate, rest⟩ ⟨alternate', rest'⟩ ⟨sameAlternate, alike⟩
    refine .ok ⟨?_, alike⟩
    show Expr.conditional (bare test) (bare consequent) (bare alternate) {} =
      Expr.conditional (bare test') (bare consequent') (bare alternate') {}
    rw [sameTest, sameConsequent, sameAlternate]

theorem parseBinary_inStep (steady : Steady depth) (least : Nat) :
    InStep bare (parseBinary (depth + 1) least) (parseBinary (depth + 1) least) := by
  intro tokens tokens' alike
  refine (steady.operand alike).bind ?_
  rintro ⟨left, rest⟩ ⟨left', rest'⟩ ⟨same, alike⟩
  exact steady.operators least same alike

theorem parseOperators_inStep (steady : Steady depth) (least : Nat) {left left' : Expr}
    (same : bare left = bare left') :
    InStep bare (parseOperators (depth + 1) least left)
      (parseOperators (depth + 1) least left') := by
  intro tokens tokens' alike
  unfold parseOperators
  rcases takeOperator?_cases alike with
    ⟨absent, absent'⟩ | ⟨operator, rest, rest', found, found', alike'⟩
  · rw [absent, absent']
    exact .ok ⟨same, alike⟩
  · rw [found, found']
    simp only
    split_ifs
    · exact .ok ⟨same, alike⟩
    · refine (steady.binary _ alike').bind ?_
      rintro ⟨right, rest⟩ ⟨right', rest'⟩ ⟨sameRight, alike⟩
      refine steady.operators least ?_ alike
      exact congrArg₂ (Expr.binary operator · · {}) same sameRight

theorem parseOperand_inStep (steady : Steady depth) :
    InStep bare (parseOperand (depth + 1)) (parseOperand (depth + 1)) := by
  intro tokens tokens' alike
  refine (steady.primary alike).bind ?_
  rintro ⟨primary, rest⟩ ⟨primary', rest'⟩ ⟨same, alike⟩
  exact steady.suffixes same alike

theorem parseSuffixes_inStep (steady : Steady depth) {value value' : Expr}
    (same : bare value = bare value') :
    InStep bare (parseSuffixes (depth + 1) value) (parseSuffixes (depth + 1) value') := by
  intro tokens tokens' alike
  cases alike with
  | nil => exact .ok ⟨same, .nil⟩
  | cons kind text span span' alike =>
    cases kind with
    | name | number | quoted | keyword _ => exact .ok ⟨same, .cons _ text span span' alike⟩
    | symbol mark =>
      cases mark with
      | openParen =>
        refine (steady.items .closeParen alike).bind ?_
        rintro ⟨⟨arguments, close⟩, rest⟩ ⟨⟨arguments', close'⟩, rest'⟩ ⟨sameItems, alike⟩
        refine steady.suffixes ?_ alike
        exact congrArg₂ (Expr.call · · {}) same sameItems
      | openBracket =>
        refine (steady.expr alike).bind ?_
        rintro ⟨position, rest⟩ ⟨position', rest'⟩ ⟨samePosition, alike⟩
        refine (takeSymbol_inStep .closeBracket alike).bind ?_
        rintro ⟨_, rest⟩ ⟨_, rest'⟩ ⟨_, alike⟩
        refine steady.suffixes ?_ alike
        exact congrArg₂ (Expr.index · · {}) same samePosition
      | _ => exact .ok ⟨same, .cons _ text span span' alike⟩

theorem parseItems_inStep (steady : Steady depth) (closing : Symbol) :
    InStep (fun result => Expr.mapInfoAll Info.unplaced result.1) (parseItems (depth + 1) closing)
      (parseItems (depth + 1) closing) := by
  intro tokens tokens' alike
  unfold parseItems
  rcases alike.takeSymbol?_cases closing with
    ⟨absent, absent'⟩ | ⟨_, _, _, _, found, found', alike'⟩
  · rw [absent, absent']
    refine (steady.expr alike).bind ?_
    rintro ⟨item, rest⟩ ⟨item', rest'⟩ ⟨same, alike⟩
    rcases alike.takeSymbol?_cases .comma with
      ⟨absent, absent'⟩ | ⟨_, _, _, _, found, found', alike⟩
    · simp only [absent, absent']
      refine (takeSymbol_inStep closing alike).bind ?_
      rintro ⟨_, rest⟩ ⟨_, rest'⟩ ⟨_, alike⟩
      exact .ok ⟨congrArg ([·]) same, alike⟩
    · simp only [found, found']
      refine (steady.items closing alike).bind ?_
      rintro ⟨⟨items, close⟩, rest⟩ ⟨⟨items', close'⟩, rest'⟩ ⟨sameRest, alike⟩
      exact .ok ⟨congrArg₂ List.cons same sameRest, alike⟩
  · rw [found, found']
    exact .ok ⟨rfl, alike'⟩

theorem parsePrimary_inStep (steady : Steady depth) :
    InStep bare (parsePrimary (depth + 1)) (parsePrimary (depth + 1)) := by
  intro tokens tokens' alike
  cases alike with
  | nil => exact .error (.endOfInput .expression)
  | cons kind text span span' alike =>
    cases kind with
    | name | number | quoted => exact .ok ⟨rfl, alike⟩
    | keyword reserved =>
      cases reserved with
      | true | false => exact .ok ⟨rfl, alike⟩
      | const | «return» => exact .error (.unexpected .expression rfl)
    | symbol mark =>
      cases mark with
      | openBracket =>
        refine (steady.items .closeBracket alike).bind ?_
        rintro ⟨⟨elements, close⟩, rest⟩ ⟨⟨elements', close'⟩, rest'⟩ ⟨same, alike⟩
        exact .ok ⟨congrArg (Expr.array · {}) same, alike⟩
      | openParen =>
        refine (steady.expr alike).bind ?_
        rintro ⟨inner, rest⟩ ⟨inner', rest'⟩ ⟨same, alike⟩
        refine (takeSymbol_inStep .closeParen alike).bind ?_
        rintro ⟨close, rest⟩ ⟨close', rest'⟩ ⟨_, alike⟩
        refine .ok ⟨?_, alike⟩
        rw [bare, Expr.mapInfo_withSpan, Expr.mapInfo_withSpan]
        exact same
      | _ => exact .error (.unexpected .expression rfl)

/-- The parsers of expressions and statements agree on tokens that are alike. -/
theorem steady (depth : Nat) : Steady depth := by
  induction depth with
  | zero => exact steady_zero
  | succ depth inductionHypothesis =>
    exact
      { stmt := parseStmt_inStep inductionHypothesis
        expr := parseExpr_inStep inductionHypothesis
        arrow := parseArrow_inStep inductionHypothesis
        block := parseBlock_inStep inductionHypothesis
        conditional := parseConditional_inStep inductionHypothesis
        binary := parseBinary_inStep inductionHypothesis
        operators := parseOperators_inStep inductionHypothesis
        operand := parseOperand_inStep inductionHypothesis
        suffixes := parseSuffixes_inStep inductionHypothesis
        items := parseItems_inStep inductionHypothesis
        primary := parsePrimary_inStep inductionHypothesis }

/-! ### Whole texts -/

theorem parseStmts_agree (depth : Nat) {tokens tokens' : List Token}
    (alike : Alike tokens tokens') :
    Agree (fun statements statements' => Stmt.mapInfoAll Info.unplaced statements =
      Stmt.mapInfoAll Info.unplaced statements') (parseStmts depth tokens)
      (parseStmts depth tokens') := by
  induction depth generalizing tokens tokens' with
  | zero => exact .error .tooDeep
  | succ depth inductionHypothesis =>
    cases alike with
    | nil => exact .ok rfl
    | cons kind text span span' alike =>
      refine ((steady depth).stmt (.cons kind text span span' alike)).bind ?_
      rintro ⟨statement, rest⟩ ⟨statement', rest'⟩ ⟨same, alike⟩
      refine (inductionHypothesis alike).bind fun statements statements' sameRest => ?_
      exact .ok (congrArg₂ List.cons same sameRest)

end Tree

/-- Texts with the same kinds and lexemes are the same program up to places, or are no programs for
the same reason. -/
theorem Program.parse_agree {text text' : String} {tokens tokens' : List Token}
    (lexed : lex text = .ok tokens) (lexed' : lex text' = .ok tokens')
    (same : tokens.map word = tokens'.map word) :
    Agree (fun program program' : Program =>
      program.mapInfo Info.unplaced = program'.mapInfo Info.unplaced) (Program.parse text)
      (Program.parse text') := by
  have alike := alike_of_words same
  rw [Program.parse, Program.parse, Token.ofText, Token.ofText, lexed, lexed']
  show Agree _ (Tree.parseStmts (depthBound tokens) tokens >>= _)
    (Tree.parseStmts (depthBound tokens') tokens' >>= _)
  rw [alike.depthBound_eq]
  refine (Tree.parseStmts_agree _ alike).bind fun statements statements' sameBody => ?_
  exact .ok (congrArg (Program.mk · {}) sameBody)

/-- The layout of a text does not matter. Its lexemes with single spaces between them are split as
before, and all texts that are split alike are parsed alike. -/
theorem layout_free :
    (∀ (text : String) (tokens : List Token), lex text = .ok tokens →
      ∃ tokens', lex (respaced tokens) = .ok tokens' ∧ tokens'.map word = tokens.map word) ∧
    ∀ (text text' : String) (tokens tokens' : List Token), lex text = .ok tokens →
      lex text' = .ok tokens' → tokens.map word = tokens'.map word →
      Agree (fun program program' : Program =>
        program.mapInfo Info.unplaced = program'.mapInfo Info.unplaced) (Program.parse text)
        (Program.parse text') := by
  refine ⟨fun text tokens lexed => ?_, fun text text' tokens tokens' lexed lexed' same => ?_⟩
  · exact respaced_lexesTo (lexFrom_admits lexed) 0
  · exact Program.parse_agree lexed lexed' same

/-- A text with no blanks but those inside a comment, which keeps two words apart. -/
def squeezed : String :=
  "const/* */f=(x)=>x<1;'\\\n'"

/-- The same lexemes in another layout. -/
def spread : String :=
  "const f = ( x )\t=> x < // less\n 1 ; '\\\n'"

theorem squeezed_layout_free :
    ∃ tokens tokens', lex squeezed = .ok tokens ∧ lex spread = .ok tokens' ∧
      tokens.length = 12 ∧ tokens.map word = tokens'.map word ∧
      (∃ again, lex (respaced tokens) = .ok again ∧ again.map word = tokens.map word) ∧
      Agree (fun program program' : Program =>
        program.mapInfo Info.unplaced = program'.mapInfo Info.unplaced) (Program.parse squeezed)
        (Program.parse spread) := by
  have counted : (lex squeezed).toOption.map List.length = some 12 := by
    decide +kernel
  have same : (lex squeezed).toOption.map (List.map word) =
      (lex spread).toOption.map (List.map word) := by
    decide +kernel
  cases lexed : lex squeezed with
  | error failure =>
    rw [lexed] at counted
    cases counted
  | ok tokens =>
    cases lexed' : lex spread with
    | error failure =>
      rw [lexed, lexed'] at same
      cases same
    | ok tokens' =>
      rw [lexed] at counted same
      rw [lexed'] at same
      have words := Option.some.inj same
      exact ⟨tokens, tokens', rfl, rfl, Option.some.inj counted, words,
        layout_free.1 squeezed tokens lexed,
        layout_free.2 squeezed spread tokens tokens' lexed lexed' words⟩

end ArrowCheck
