/-
This file proves that the parser reads nothing but phrases of the grammar, and
gives the trees that they stand for. Whatever a parser reads, put before what it
leaves, is its input. The parser of chains of operators stops only before an
operator that binds too loosely, which is why the operators that it joins from the
left come in the right order.

The induction is on the bound on the depth of calls, with one lemma for each
parser that takes what the parsers below it do as a hypothesis.
-/

import Mathlib.Data.List.Basic
import ArrowCheck.Proofs.Grammar
import ArrowCheck.Tree.Parser

namespace ArrowCheck

open Grammar

variable {Failure Value Other : Type}

/-- What comes last succeeds only if what comes first does. -/
theorem exists_of_bind_eq_ok {first : Except Failure Value} {next : Value → Except Failure Other}
    {result : Other} (succeeds : first >>= next = .ok result) :
    ∃ value, first = .ok value ∧ next value = .ok result := by
  cases first with
  | error failure => cases succeeds
  | ok value => exact ⟨value, rfl, succeeds⟩

/-- Whatever a parser reads is a phrase for the value that it gives. -/
def Reads (parser : List Token → Except ParseError (Value × List Token))
    (Phrase : List Token → Value → Prop) : Prop :=
  ∀ ⦃tokens : List Token⦄ ⦃value : Value⦄ ⦃rest : List Token⦄, parser tokens = .ok (value, rest) →
    ∃ read, tokens = read ++ rest ∧ Phrase read value

/-- A phrase and the symbol that closes it. -/
def Closed (closing : Symbol) (Phrase : List Token → Value → Prop) (read : List Token)
    (value : Value) : Prop :=
  ∃ (inner : List Token) (token : Token),
    read = inner ++ [token] ∧ token.kind = .symbol closing ∧ Phrase inner value

/-- A parser that always fails reads nothing. -/
theorem Reads.failing (failure : ParseError) (Phrase : List Token → Value → Prop) :
    Reads (fun _ => .error failure) Phrase := by
  intro tokens value rest parsed
  cases parsed

theorem Reads.mono {parser : List Token → Except ParseError (Value × List Token)}
    {Phrase Phrase' : List Token → Value → Prop} (reads : Reads parser Phrase)
    (weaken : ∀ ⦃read value⦄, Phrase read value → Phrase' read value) : Reads parser Phrase' := by
  intro tokens value rest parsed
  obtain ⟨read, split, phrase⟩ := reads parsed
  exact ⟨read, split, weaken phrase⟩

/-! ### Elementary steps -/

namespace Token

variable {symbol : Symbol} {tokens rest : List Token} {span : Span}

theorem kind_mk (kind : Kind) (text : String) (span : Span) : (mk kind text span).kind = kind :=
  rfl

/-- A symbol either stands at the front of the tokens or is not found there. -/
theorem takeSymbol?_cases (symbol : Symbol) (tokens : List Token) :
    takeSymbol? symbol tokens = none ∨ ∃ (token : Token) (rest : List Token),
      tokens = token :: rest ∧ token.kind = .symbol symbol ∧
        takeSymbol? symbol tokens = some (token.span, rest) := by
  unfold takeSymbol?
  split
  · next found text span rest =>
    split_ifs with same
    · exact Or.inr ⟨⟨.symbol found, text, span⟩, rest, rfl, congrArg Kind.symbol same, rfl⟩
    · exact Or.inl rfl
  · exact Or.inl rfl

theorem exists_of_takeSymbol_eq_ok (taken : takeSymbol symbol tokens = .ok (span, rest)) :
    ∃ token : Token, tokens = token :: rest ∧ token.kind = .symbol symbol ∧ token.span = span := by
  rw [takeSymbol] at taken
  obtain absent | ⟨token, left, same, isSymbol, found⟩ := takeSymbol?_cases symbol tokens
  · rw [absent] at taken
    cases taken
  · rw [found] at taken
    cases taken
    exact ⟨token, same, isSymbol, rfl⟩

theorem exists_of_takeName_eq_ok {name : String}
    (taken : takeName tokens = .ok ((name, span), rest)) :
    ∃ token : Token, tokens = token :: rest ∧ token.kind = .name ∧ token.text = name ∧
      token.span = span := by
  unfold takeName at taken
  split at taken
  · cases taken
    exact ⟨_, rfl, rfl, rfl, rfl⟩
  · cases taken

theorem takeParens_reads {takeFilled : List Token → Except ParseError (List Value × List Token)}
    {Phrase : List Token → List Value → Prop} (reads : Reads takeFilled Phrase)
    (empty : ∀ {closing : Token}, closing.kind = .symbol .closeParen → Phrase [closing] []) :
    Reads (takeParens takeFilled) Phrase := by
  intro tokens values rest parsed
  rw [takeParens] at parsed
  obtain absent | ⟨closing, left, rfl, closes, found⟩ := takeSymbol?_cases .closeParen tokens
  · rw [absent] at parsed
    exact reads parsed
  · rw [found] at parsed
    cases parsed
    exact ⟨[closing], rfl, empty closes⟩

end Token

open Token

/-! ### Written types -/

namespace WrittenType

theorem brackets_phrase {grouping : Grouping} {before : List Token} {element : WrittenType}
    (phrase : TypePhrase grouping before element) (tokens : List Token) :
    ∃ read, tokens = read ++ (brackets element tokens).2 ∧
      TypePhrase grouping (before ++ read) (brackets element tokens).1 := by
  fun_induction brackets element tokens generalizing before with
  | case1 element text opening text' closing rest inductionHypothesis =>
    obtain ⟨read, split, whole⟩ := inductionHypothesis
      (phrase.brackets (kind_mk _ text opening) (kind_mk _ text' closing) _)
    refine ⟨_ :: _ :: read, congrArg (_ :: _ :: ·) split, ?_⟩
    rwa [List.append_assoc] at whole
  | case2 element tokens other => exact ⟨[], rfl, by rwa [List.append_nil]⟩

theorem dropParamName_phrase (tokens : List Token) :
    ∃ label, tokens = label ++ dropParamName tokens ∧ LabelPhrase label := by
  unfold dropParamName
  split
  · exact ⟨[_, _], rfl, .present rfl rfl⟩
  · exact ⟨[], rfl, .absent⟩

/-- What the parsers of written types read. -/
structure Sound (depth : Nat) : Prop where
  type : Reads (parseType depth) (TypePhrase .labelled)
  atom : Reads (parseAtom depth) (TypePhrase .labelled)
  params : Reads (parseParams depth) fun read params =>
    Closed .closeParen (TypesPhrase .labelled) read params ∧ params ≠ []

variable {depth : Nat}

theorem parseType_reads (sound : Sound depth) :
    Reads (parseType (depth + 1)) (TypePhrase .labelled) := by
  intro tokens value rest parsed
  obtain ⟨⟨atom, left⟩, atomParsed, done⟩ := exists_of_bind_eq_ok parsed
  obtain ⟨first, split, phrase⟩ := sound.atom atomParsed
  obtain ⟨second, split', whole⟩ := brackets_phrase phrase left
  rw [show brackets atom left = (value, rest) from Except.ok.inj done] at split' whole
  exact ⟨first ++ second, by rw [split, split', List.append_assoc], whole⟩

theorem parseParams_reads (sound : Sound depth) :
    Reads (parseParams (depth + 1)) fun read params =>
    Closed .closeParen (TypesPhrase .labelled) read params ∧ params ≠ [] := by
  intro tokens params rest parsed
  obtain ⟨label, split, labelled⟩ := dropParamName_phrase tokens
  obtain ⟨⟨head, left⟩, headParsed, goesOn⟩ := exists_of_bind_eq_ok parsed
  obtain ⟨inner, split', phrase⟩ := sound.type headParsed
  rw [split'] at split
  obtain absent | ⟨comma, left', rfl, separates, found⟩ := takeSymbol?_cases .comma left
  · simp only [absent] at goesOn
    obtain ⟨_, taken, done⟩ := exists_of_bind_eq_ok goesOn
    obtain ⟨closing, rfl, closes, _⟩ := exists_of_takeSymbol_eq_ok taken
    cases done
    refine ⟨label ++ inner ++ [closing], by simp [split], ?_, by simp⟩
    exact ⟨_, closing, rfl, closes, .last labelled phrase⟩
  · simp only [found] at goesOn
    obtain ⟨⟨tail, last⟩, tailParsed, done⟩ := exists_of_bind_eq_ok goesOn
    obtain ⟨_, rfl, ⟨inner', closing, rfl, closes, phrases⟩, nonempty⟩ := sound.params tailParsed
    obtain ⟨next, tail, rfl⟩ := List.exists_cons_of_ne_nil nonempty
    cases done
    refine ⟨label ++ inner ++ comma :: inner' ++ [closing], by simp [split], ?_, by simp⟩
    exact ⟨_, closing, rfl, closes, .cons labelled phrase separates phrases⟩

/-- A single parameter in parentheses is a type that is grouped. -/
theorem group_phrase {opening closing : Token} {inner : List Token} {written : WrittenType}
    (opens : opening.kind = .symbol .openParen) (closes : closing.kind = .symbol .closeParen)
    (phrase : TypesPhrase .labelled inner [written]) :
    TypePhrase .labelled (opening :: inner ++ [closing]) written := by
  cases phrase with
  | last labelled phrase => exact .group opens labelled phrase closes

theorem parseAfterParams_reads (sound : Sound depth) {opening closing : Token} {inner : List Token}
    {params : List WrittenType} (opens : opening.kind = .symbol .openParen)
    (closes : closing.kind = .symbol .closeParen) (phrases : TypesPhrase .labelled inner params) :
    Reads (parseAfterParams (parseType depth) opening.span params)
      fun read written => TypePhrase .labelled (opening :: inner ++ closing :: read) written := by
  intro tokens value rest parsed
  unfold parseAfterParams at parsed
  obtain absent | ⟨arrow, left, rfl, points, found⟩ := takeSymbol?_cases .arrow tokens
  · simp only [absent] at parsed
    split at parsed
    · cases parsed
      exact ⟨[], rfl, group_phrase opens closes phrases⟩
    · cases parsed
  · simp only [found] at parsed
    obtain ⟨⟨result, last⟩, resultParsed, done⟩ := exists_of_bind_eq_ok parsed
    obtain ⟨read, rfl, phrase⟩ := sound.type resultParsed
    cases done
    exact ⟨arrow :: read, rfl, .function opens phrases closes points phrase _⟩

theorem parseNamed_reads (sound : Sound depth) :
    Reads (parseNamed (parseType depth)) (TypePhrase .labelled) := by
  intro tokens value rest parsed
  obtain ⟨⟨⟨_, span⟩, left⟩, taken, goesOn⟩ := exists_of_bind_eq_ok parsed
  obtain ⟨name, rfl, isName, rfl, _⟩ := exists_of_takeName_eq_ok taken
  simp only at goesOn
  split_ifs at goesOn with isArray
  · obtain absent | ⟨opening, left', rfl, opens, found⟩ := takeSymbol?_cases (.binary .less) left
    · simp only [absent] at goesOn
      cases goesOn
      exact ⟨[name], rfl, .named isName _⟩
    · simp only [found] at goesOn
      obtain ⟨⟨element, last⟩, elementParsed, goesOn'⟩ := exists_of_bind_eq_ok goesOn
      obtain ⟨inner, rfl, phrase⟩ := sound.type elementParsed
      obtain ⟨_, taken', done⟩ := exists_of_bind_eq_ok goesOn'
      obtain ⟨closing, rfl, closes, _⟩ := exists_of_takeSymbol_eq_ok taken'
      cases done
      exact ⟨_, by simp, .applied isName isArray opens phrase closes _⟩
  · cases goesOn
    exact ⟨[name], rfl, .named isName _⟩

theorem parens_reads (sound : Sound depth) :
    Reads (takeParens (parseParams depth)) (Closed .closeParen (TypesPhrase .labelled)) :=
  takeParens_reads (sound.params.mono fun _ _ => And.left) fun closes =>
    ⟨[], _, rfl, closes, .none⟩

theorem parseAtom_reads (sound : Sound depth) :
    Reads (parseAtom (depth + 1)) (TypePhrase .labelled) := by
  intro tokens value rest parsed
  unfold parseAtom at parsed
  split at parsed
  · cases parsed
  · next depth' text opening left same =>
    cases same
    obtain ⟨⟨params, last⟩, paramsParsed, goesOn⟩ := exists_of_bind_eq_ok parsed
    obtain ⟨_, rfl, inner, closing, rfl, closes, phrases⟩ := parens_reads sound paramsParsed
    obtain ⟨read, rfl, phrase⟩ :=
      parseAfterParams_reads sound (kind_mk _ text opening) closes phrases goesOn
    exact ⟨_, by simp, phrase⟩
  · next depth' same other =>
    cases same
    exact parseNamed_reads sound parsed

/-- Whatever the parsers of written types read, they read phrases of the grammar. -/
theorem sound (depth : Nat) : Sound depth := by
  induction depth with
  | zero => exact ⟨.failing .tooDeep _, .failing .tooDeep _, .failing .tooDeep _⟩
  | succ depth inductionHypothesis =>
    exact ⟨parseType_reads inductionHypothesis, parseAtom_reads inductionHypothesis,
      parseParams_reads inductionHypothesis⟩

theorem parse_reads : Reads parse (TypePhrase .labelled) :=
  fun _ _ _ parsed => (sound _).type parsed

end WrittenType

/-- An expression moved to where it stands is the same expression. -/
theorem Expr.withSpan_span (value : Expr) : value.withSpan value.span = value := by
  cases value <;> rfl

namespace Tree

/-! ### Heads of arrow functions -/

theorem parseDeclared_reads : Reads parseDeclared (DeclaredPhrase .labelled) := by
  intro tokens value rest parsed
  rw [parseDeclared] at parsed
  obtain absent | ⟨colon, left, rfl, separates, found⟩ := takeSymbol?_cases .colon tokens
  · rw [absent] at parsed
    cases parsed
    exact ⟨[], rfl, .absent⟩
  · rw [found] at parsed
    obtain ⟨⟨written, last⟩, writtenParsed, done⟩ := exists_of_bind_eq_ok parsed
    obtain ⟨inner, rfl, phrase⟩ := WrittenType.parse_reads writtenParsed
    cases done
    exact ⟨colon :: inner, rfl, .present separates phrase⟩

theorem parseParams_reads (depth : Nat) :
    Reads (parseParams depth) fun read params =>
      Closed .closeParen (ParamsPhrase .labelled) read params ∧ params ≠ [] := by
  induction depth with
  | zero => exact .failing .tooDeep _
  | succ depth inductionHypothesis =>
    intro tokens params rest parsed
    obtain ⟨⟨⟨_, span⟩, left⟩, taken, goesOn⟩ := exists_of_bind_eq_ok parsed
    obtain ⟨name, rfl, isName, rfl, _⟩ := exists_of_takeName_eq_ok taken
    obtain ⟨⟨declared, left'⟩, declaredParsed, goesOn'⟩ := exists_of_bind_eq_ok goesOn
    obtain ⟨inner, rfl, declaredPhrase⟩ := parseDeclared_reads declaredParsed
    have phrase := ParamPhrase.mk isName declaredPhrase
      (Span.join (some span) (declared.bind WrittenType.span))
    obtain absent | ⟨comma, last, rfl, separates, found⟩ := takeSymbol?_cases .comma left'
    · simp only [absent] at goesOn'
      obtain ⟨_, taken', done⟩ := exists_of_bind_eq_ok goesOn'
      obtain ⟨closing, rfl, closes, _⟩ := exists_of_takeSymbol_eq_ok taken'
      cases done
      exact ⟨name :: inner ++ [closing], by simp, ⟨_, closing, rfl, closes, .last phrase⟩, by simp⟩
    · simp only [found] at goesOn'
      obtain ⟨⟨tail, last⟩, tailParsed, done⟩ := exists_of_bind_eq_ok goesOn'
      obtain ⟨_, rfl, ⟨inner', closing, rfl, closes, phrases⟩, nonempty⟩ :=
        inductionHypothesis tailParsed
      obtain ⟨next, tail, rfl⟩ := List.exists_cons_of_ne_nil nonempty
      cases done
      refine ⟨name :: inner ++ comma :: inner' ++ [closing], by simp, ?_, by simp⟩
      exact ⟨_, closing, rfl, closes, .cons phrase separates phrases⟩

theorem parseParens_reads :
    Reads parseParens (Closed .closeParen (ParamsPhrase .labelled)) := by
  intro tokens params rest parsed
  have filled := (parseParams_reads (depthBound tokens)).mono fun _ _ => And.left
  exact takeParens_reads filled (fun closes => ⟨[], _, rfl, closes, .none⟩) parsed

theorem parseAfterParams_reads (start : Span) {opening closing : Token} {inner : List Token}
    {params : List Param} (opens : opening.kind = .symbol .openParen)
    (closes : closing.kind = .symbol .closeParen) (phrases : ParamsPhrase .labelled inner params) :
    Reads (parseAfterParams start params) (Closed .arrow fun read head =>
      HeadPhrase .labelled (opening :: inner ++ closing :: read) head.params head.result) := by
  intro tokens head rest parsed
  obtain ⟨⟨result, left⟩, resultParsed, goesOn⟩ := exists_of_bind_eq_ok parsed
  obtain ⟨after, rfl, phrase⟩ := parseDeclared_reads resultParsed
  obtain ⟨_, taken, done⟩ := exists_of_bind_eq_ok goesOn
  obtain ⟨arrow, rfl, points, _⟩ := exists_of_takeSymbol_eq_ok taken
  cases done
  exact ⟨after ++ [arrow], by simp, after, arrow, rfl, points, .params opens phrases closes phrase⟩

theorem parseHead_reads {opening : Token} (opens : opening.kind = .symbol .openParen)
    (start : Span) :
    Reads (parseHead start) (Closed .arrow fun read head =>
      HeadPhrase .labelled (opening :: read) head.params head.result) := by
  intro tokens head rest parsed
  obtain ⟨⟨params, left⟩, paramsParsed, goesOn⟩ := exists_of_bind_eq_ok parsed
  obtain ⟨_, rfl, inner, closing, rfl, closes, phrases⟩ := parseParens_reads paramsParsed
  obtain ⟨_, rfl, after, arrow, rfl, points, phrase⟩ :=
    parseAfterParams_reads start opens closes phrases goesOn
  refine ⟨inner ++ closing :: after ++ [arrow], by simp, ?_⟩
  exact ⟨_, arrow, rfl, points, phrase⟩

/-- The head of an arrow function is what stands before its arrow. -/
theorem arrowHead?_phrase {tokens rest : List Token} {head : ArrowHead}
    (found : arrowHead? tokens = some (head, rest)) :
    ∃ (before : List Token) (arrow : Token), tokens = before ++ arrow :: rest ∧
      arrow.kind = .symbol .arrow ∧ HeadPhrase .labelled before head.params head.result := by
  unfold arrowHead? at found
  split at found
  · cases found
    exact ⟨[_], _, rfl, rfl, .lone rfl _⟩
  · next text opening left =>
    cases parsed : parseHead opening left with
    | error failure =>
      rw [parsed] at found
      cases found
    | ok result =>
      rw [parsed] at found
      cases found
      obtain ⟨_, rfl, inner, arrow, rfl, points, phrase⟩ :=
        parseHead_reads (kind_mk _ text opening) opening parsed
      exact ⟨_ :: inner, arrow, by simp, points, phrase⟩
  · cases found

/-! ### Chains of operators -/

/-- No operator of at least a given precedence stands at the front of the tokens. -/
def Stops (least : Nat) (tokens : List Token) : Prop :=
  ∀ operator rest, takeOperator? tokens = some (operator, rest) → operator.precedence < least

/-- The rest of a chain was read up to an operator that binds too loosely for it. -/
def Chained (least : Nat) (before tokens : List Token) (value : Expr) (rest : List Token) : Prop :=
  ∃ (read : List Token) (top : Option Operator),
    tokens = read ++ rest ∧ ChainPhrase .labelled top (before ++ read) value ∧
      (∀ operator ∈ top, least ≤ operator.precedence) ∧ Stops least rest

theorem exists_of_takeOperator?_eq_some {tokens rest : List Token} {operator : Operator}
    (taken : takeOperator? tokens = some (operator, rest)) :
    ∃ token : Token, tokens = token :: rest ∧ token.kind = .symbol (.binary operator) := by
  unfold takeOperator? at taken
  split at taken
  · cases taken
    exact ⟨_, rfl, rfl⟩
  · cases taken

/-! ### Expressions and statements -/

/-- What the parsers of expressions and statements read. -/
structure Sound (depth : Nat) : Prop where
  stmt : Reads (parseStmt depth) (StmtPhrase .labelled)
  expr : Reads (parseExpr depth) (ExprPhrase .labelled)
  arrow {head : ArrowHead} {before : List Token} {arrow : Token}
    (phrase : HeadPhrase .labelled before head.params head.result)
    (points : arrow.kind = .symbol .arrow) :
    Reads (parseArrow depth head) fun read value =>
      ExprPhrase .labelled (before ++ arrow :: read) value
  block : Reads (parseBlock depth) fun read result =>
    Closed .closeBrace (StmtsPhrase .labelled) read result.1
  conditional : Reads (parseConditional depth) (ExprPhrase .labelled)
  binary {least : Nat} {tokens rest : List Token} {value : Expr}
    (parsed : parseBinary depth least tokens = .ok (value, rest)) :
    Chained least [] tokens value rest
  operators {least : Nat} {before tokens rest : List Token} {left value : Expr}
    {top : Option Operator} (phrase : ChainPhrase .labelled top before left)
    (binds : ∀ operator ∈ top, least ≤ operator.precedence)
    (stops : ∀ operator ∈ top, Stops (operator.precedence + 1) tokens)
    (parsed : parseOperators depth least left tokens = .ok (value, rest)) :
    Chained least before tokens value rest
  operand : Reads (parseOperand depth) (OperandPhrase .labelled)
  suffixes {before : List Token} {value : Expr} (phrase : OperandPhrase .labelled before value) :
    Reads (parseSuffixes depth value) fun read value =>
      OperandPhrase .labelled (before ++ read) value
  items (closing : Symbol) : Reads (parseItems depth closing) fun read result =>
    Closed closing (ItemsPhrase .labelled) read result.1
  primary : Reads (parsePrimary depth) (PrimaryPhrase .labelled)

theorem sound_zero : Sound 0 where
  stmt := .failing .tooDeep _
  expr := .failing .tooDeep _
  arrow _ _ := .failing .tooDeep _
  block := .failing .tooDeep _
  conditional := .failing .tooDeep _
  binary parsed := by cases parsed
  operators _ _ _ parsed := by cases parsed
  operand := .failing .tooDeep _
  suffixes _ := .failing .tooDeep _
  items _ := .failing .tooDeep _
  primary := .failing .tooDeep _

/-- The semicolon that may end a statement is taken off. -/
theorem end_phrase (stop : Span) (tokens : List Token) :
    ∃ (ending : List Token) (stop' : Span) (rest : List Token), tokens = ending ++ rest ∧
      EndPhrase ending ∧ (takeSymbol? .semicolon tokens).getD (stop, tokens) = (stop', rest) := by
  obtain absent | ⟨semicolon, rest, rfl, ends, found⟩ := takeSymbol?_cases .semicolon tokens
  · exact ⟨[], stop, tokens, rfl, .absent, by rw [absent, Option.getD_none]⟩
  · exact ⟨[semicolon], _, rest, rfl, .present ends, by rw [found, Option.getD_some]⟩

variable {depth : Nat}

theorem parseConst_reads (sound : Sound depth) {keyword : Token}
    (isKeyword : keyword.kind = .keyword .const) (start : Span) :
    Reads (parseConst (parseExpr depth) start) fun read statement =>
      StmtPhrase .labelled (keyword :: read) statement := by
  intro tokens statement rest parsed
  obtain ⟨⟨⟨_, span⟩, left⟩, taken, goesOn⟩ := exists_of_bind_eq_ok parsed
  obtain ⟨name, rfl, isName, rfl, _⟩ := exists_of_takeName_eq_ok taken
  obtain ⟨⟨declared, left'⟩, declaredParsed, goesOn'⟩ := exists_of_bind_eq_ok goesOn
  obtain ⟨middle, rfl, declaredPhrase⟩ := parseDeclared_reads declaredParsed
  obtain ⟨⟨_, left''⟩, taken', goesOn''⟩ := exists_of_bind_eq_ok goesOn'
  obtain ⟨assign, rfl, assigns, _⟩ := exists_of_takeSymbol_eq_ok taken'
  obtain ⟨⟨init, last⟩, initParsed, done⟩ := exists_of_bind_eq_ok goesOn''
  obtain ⟨inner, rfl, phrase⟩ := sound.expr initParsed
  obtain ⟨ending, stop, left, rfl, ends, found⟩ := end_phrase (init.span.getD span) last
  simp only [found] at done
  cases done
  exact ⟨_, by simp, .const isKeyword isName declaredPhrase assigns phrase ends _⟩

theorem parseReturn_reads (sound : Sound depth) {keyword : Token}
    (isKeyword : keyword.kind = .keyword .return) (start : Span) :
    Reads (parseReturn (parseExpr depth) start) fun read statement =>
      StmtPhrase .labelled (keyword :: read) statement := by
  intro tokens statement rest parsed
  unfold parseReturn at parsed
  simp only at parsed
  split_ifs at parsed
  · obtain ⟨ending, stop, last, rfl, ends, found⟩ := end_phrase start tokens
    simp only [pure_bind, Option.bind_none, Option.getD_none, found] at parsed
    cases parsed
    exact ⟨ending, rfl, .returnNothing isKeyword ends _⟩
  · obtain ⟨⟨argument, left⟩, argumentParsed, goesOn⟩ := exists_of_bind_eq_ok parsed
    obtain ⟨inner, rfl, phrase⟩ := sound.expr argumentParsed
    obtain ⟨ending, stop, last, rfl, ends, found⟩ := end_phrase (argument.span.getD start) left
    simp only [pure_bind, Option.bind_some, found] at goesOn
    cases goesOn
    exact ⟨inner ++ ending, by simp, .returnValue isKeyword phrase ends _⟩

theorem parseExprStmt_reads (sound : Sound depth) :
    Reads (parseExprStmt (parseExpr depth)) (StmtPhrase .labelled) := by
  intro tokens statement rest parsed
  obtain ⟨⟨inner, left⟩, innerParsed, goesOn⟩ := exists_of_bind_eq_ok parsed
  obtain ⟨read, rfl, phrase⟩ := sound.expr innerParsed
  obtain absent | ⟨semicolon, left', rfl, ends, found⟩ := takeSymbol?_cases .semicolon left
  · simp only [absent] at goesOn
    cases goesOn
    refine ⟨read ++ [], by simp, ?_⟩
    rw [← inner.withSpan_span]
    exact .expr phrase .absent _
  · simp only [found] at goesOn
    cases goesOn
    exact ⟨read ++ [semicolon], by simp, .expr phrase (.present ends) _⟩

theorem parseStmt_reads (sound : Sound depth) :
    Reads (parseStmt (depth + 1)) (StmtPhrase .labelled) := by
  intro tokens value rest parsed
  unfold parseStmt at parsed
  split at parsed
  · cases parsed
  · next depth' text start left same =>
    cases same
    obtain ⟨read, rfl, phrase⟩ := parseConst_reads sound (kind_mk _ text start) start parsed
    exact ⟨_ :: read, rfl, phrase⟩
  · next depth' text start left same =>
    cases same
    obtain ⟨read, rfl, phrase⟩ := parseReturn_reads sound (kind_mk _ text start) start parsed
    exact ⟨_ :: read, rfl, phrase⟩
  · next depth' same notConst notReturn =>
    cases same
    exact parseExprStmt_reads sound parsed

theorem parseExpr_reads (sound : Sound depth) :
    Reads (parseExpr (depth + 1)) (ExprPhrase .labelled) := by
  intro tokens value rest parsed
  cases found : arrowHead? tokens with
  | none =>
    rw [parseExpr_eq_conditional found] at parsed
    exact sound.conditional parsed
  | some headed =>
    obtain ⟨head, left⟩ := headed
    rw [parseExpr_eq_arrow found] at parsed
    obtain ⟨before, arrow, rfl, points, phrase⟩ := arrowHead?_phrase found
    obtain ⟨read, rfl, whole⟩ := sound.arrow phrase points parsed
    exact ⟨_, by simp, whole⟩

theorem parseArrow_reads (sound : Sound depth) {head : ArrowHead} {before : List Token}
    {arrow : Token} (phrase : HeadPhrase .labelled before head.params head.result)
    (points : arrow.kind = .symbol .arrow) :
    Reads (parseArrow (depth + 1) head) fun read value =>
      ExprPhrase .labelled (before ++ arrow :: read) value := by
  intro tokens value rest parsed
  unfold parseArrow at parsed
  obtain absent | ⟨opening, left, rfl, opens, found⟩ := takeSymbol?_cases .openBrace tokens
  · simp only [absent] at parsed
    obtain ⟨⟨result, last⟩, resultParsed, done⟩ := exists_of_bind_eq_ok parsed
    obtain ⟨read, rfl, resultPhrase⟩ := sound.expr resultParsed
    cases done
    exact ⟨read, rfl, .arrow phrase points (.value resultPhrase) _⟩
  · simp only [found] at parsed
    obtain ⟨⟨⟨statements, close⟩, last⟩, blockParsed, done⟩ := exists_of_bind_eq_ok parsed
    obtain ⟨_, rfl, inner, closing, rfl, closes, phrases⟩ := sound.block blockParsed
    cases done
    exact ⟨opening :: inner ++ [closing], rfl,
      .arrow phrase points (.block opens phrases closes) _⟩

theorem parseBlock_reads (sound : Sound depth) :
    Reads (parseBlock (depth + 1)) fun read result =>
      Closed .closeBrace (StmtsPhrase .labelled) read result.1 := by
  intro tokens value rest parsed
  unfold parseBlock at parsed
  obtain absent | ⟨closing, left, rfl, closes, found⟩ := takeSymbol?_cases .closeBrace tokens
  · simp only [absent] at parsed
    split_ifs at parsed
    obtain ⟨⟨statement, left⟩, statementParsed, goesOn⟩ := exists_of_bind_eq_ok parsed
    obtain ⟨read, rfl, phrase⟩ := sound.stmt statementParsed
    obtain ⟨⟨⟨statements, close⟩, last⟩, blockParsed, done⟩ := exists_of_bind_eq_ok goesOn
    obtain ⟨_, rfl, inner, closing, rfl, closes, phrases⟩ := sound.block blockParsed
    cases done
    exact ⟨read ++ inner ++ [closing], by simp, _, closing, rfl, closes, .cons phrase phrases⟩
  · simp only [found] at parsed
    cases parsed
    exact ⟨[closing], rfl, [], closing, rfl, closes, .nil⟩

theorem parseConditional_reads (sound : Sound depth) :
    Reads (parseConditional (depth + 1)) (ExprPhrase .labelled) := by
  intro tokens value rest parsed
  obtain ⟨⟨test, left⟩, testParsed, goesOn⟩ := exists_of_bind_eq_ok parsed
  obtain ⟨before, top, rfl, testPhrase, _, _⟩ := sound.binary testParsed
  obtain absent | ⟨question, left', rfl, asks, found⟩ := takeSymbol?_cases .question left
  · simp only [absent] at goesOn
    cases goesOn
    exact ⟨before, rfl, .chain testPhrase⟩
  · simp only [found] at goesOn
    obtain ⟨⟨consequent, left''⟩, consequentParsed, goesOn'⟩ := exists_of_bind_eq_ok goesOn
    obtain ⟨inner, rfl, consequentPhrase⟩ := sound.expr consequentParsed
    obtain ⟨_, taken, goesOn''⟩ := exists_of_bind_eq_ok goesOn'
    obtain ⟨colon, rfl, separates, _⟩ := exists_of_takeSymbol_eq_ok taken
    obtain ⟨⟨alternate, last⟩, alternateParsed, done⟩ := exists_of_bind_eq_ok goesOn''
    obtain ⟨after, split, alternatePhrase⟩ := sound.expr alternateParsed
    cases done
    refine ⟨before ++ question :: inner ++ colon :: after, by simp [split], ?_⟩
    exact .conditional testPhrase asks consequentPhrase separates alternatePhrase _

theorem parseBinary_chained (sound : Sound depth) {least : Nat} {tokens rest : List Token}
    {value : Expr} (parsed : parseBinary (depth + 1) least tokens = .ok (value, rest)) :
    Chained least [] tokens value rest := by
  obtain ⟨⟨left, middle⟩, leftParsed, goesOn⟩ := exists_of_bind_eq_ok parsed
  obtain ⟨before, rfl, phrase⟩ := sound.operand leftParsed
  obtain ⟨read, top, rfl, whole, binds, stops⟩ :=
    sound.operators (.operand phrase) (by simp) (by simp) goesOn
  exact ⟨before ++ read, top, by simp, whole, binds, stops⟩

/-- Joining the next operator keeps the order: the operand on its right was read up to an operator
that binds no more tightly than this one. -/
theorem parseOperators_chained (sound : Sound depth) {least : Nat} {before tokens rest : List Token}
    {left value : Expr} {top : Option Operator} (phrase : ChainPhrase .labelled top before left)
    (binds : ∀ operator ∈ top, least ≤ operator.precedence)
    (stops : ∀ operator ∈ top, Stops (operator.precedence + 1) tokens)
    (parsed : parseOperators (depth + 1) least left tokens = .ok (value, rest)) :
    Chained least before tokens value rest := by
  unfold parseOperators at parsed
  split at parsed
  · next operator left' taken =>
    split_ifs at parsed with loose
    · cases parsed
      refine ⟨[], top, rfl, by rwa [List.append_nil], binds, fun other rest' taken' => ?_⟩
      rw [taken] at taken'
      cases taken'
      exact loose
    · obtain ⟨⟨right, middle⟩, rightParsed, goesOn⟩ := exists_of_bind_eq_ok parsed
      obtain ⟨after, rightTop, rfl, rightPhrase, rightBinds, rightStops⟩ :=
        sound.binary rightParsed
      have leftBinds : ∀ inner ∈ top, operator.precedence ≤ inner.precedence :=
        fun inner member => Nat.le_of_lt_succ (stops inner member operator _ taken)
      obtain ⟨symbol, rfl, joins⟩ := exists_of_takeOperator?_eq_some taken
      have joined := ChainPhrase.binary phrase leftBinds joins rightPhrase rightBinds
        (Span.join left.span right.span)
      obtain ⟨read, top', rfl, whole, binds', stops'⟩ := sound.operators joined
        (by simpa using loose) (by simpa using rightStops) goesOn
      refine ⟨symbol :: after ++ read, top', by simp, ?_, binds', stops'⟩
      simpa using whole
  · next taken =>
    cases parsed
    refine ⟨[], top, rfl, by rwa [List.append_nil], binds, fun other rest' taken' => ?_⟩
    rw [taken] at taken'
    cases taken'

theorem parseOperand_reads (sound : Sound depth) :
    Reads (parseOperand (depth + 1)) (OperandPhrase .labelled) := by
  intro tokens value rest parsed
  obtain ⟨⟨primary, left⟩, primaryParsed, goesOn⟩ := exists_of_bind_eq_ok parsed
  obtain ⟨before, rfl, phrase⟩ := sound.primary primaryParsed
  obtain ⟨read, rfl, whole⟩ := sound.suffixes (.primary phrase) goesOn
  exact ⟨before ++ read, by simp, whole⟩

theorem parseSuffixes_reads (sound : Sound depth) {before : List Token} {value : Expr}
    (phrase : OperandPhrase .labelled before value) :
    Reads (parseSuffixes (depth + 1) value) fun read value =>
      OperandPhrase .labelled (before ++ read) value := by
  intro tokens result rest parsed
  unfold parseSuffixes at parsed
  split at parsed
  · cases parsed
  · next depth' text opening left same =>
    cases same
    obtain ⟨⟨⟨arguments, close⟩, left'⟩, argumentsParsed, goesOn⟩ := exists_of_bind_eq_ok parsed
    obtain ⟨_, rfl, inner, closing, rfl, closes, argumentsPhrase⟩ :=
      sound.items .closeParen argumentsParsed
    obtain ⟨read, rfl, whole⟩ :=
      sound.suffixes (phrase.call (kind_mk _ text opening) argumentsPhrase closes _) goesOn
    refine ⟨⟨.symbol .openParen, text, opening⟩ :: inner ++ closing :: read, by simp, ?_⟩
    simpa using whole
  · next depth' text opening left same =>
    cases same
    obtain ⟨⟨position, left'⟩, positionParsed, goesOn⟩ := exists_of_bind_eq_ok parsed
    obtain ⟨inner, rfl, positionPhrase⟩ := sound.expr positionParsed
    obtain ⟨⟨close, left''⟩, taken, goesOn'⟩ := exists_of_bind_eq_ok goesOn
    obtain ⟨closing, rfl, closes, _⟩ := exists_of_takeSymbol_eq_ok taken
    obtain ⟨read, rfl, whole⟩ :=
      sound.suffixes (phrase.index (kind_mk _ text opening) positionPhrase closes _) goesOn'
    refine ⟨⟨.symbol .openBracket, text, opening⟩ :: inner ++ closing :: read, by simp, ?_⟩
    simpa using whole
  · cases parsed
    exact ⟨[], rfl, by simpa using phrase⟩

theorem parseItems_reads (sound : Sound depth) (closing : Symbol) :
    Reads (parseItems (depth + 1) closing) fun read result =>
      Closed closing (ItemsPhrase .labelled) read result.1 := by
  intro tokens result rest parsed
  unfold parseItems at parsed
  obtain absent | ⟨token, left, rfl, closes, found⟩ := takeSymbol?_cases closing tokens
  · simp only [absent] at parsed
    obtain ⟨⟨item, left⟩, itemParsed, goesOn⟩ := exists_of_bind_eq_ok parsed
    obtain ⟨read, rfl, phrase⟩ := sound.expr itemParsed
    obtain absent' | ⟨comma, left', rfl, separates, found'⟩ := takeSymbol?_cases .comma left
    · simp only [absent'] at goesOn
      obtain ⟨_, taken, done⟩ := exists_of_bind_eq_ok goesOn
      obtain ⟨token, rfl, closes, _⟩ := exists_of_takeSymbol_eq_ok taken
      cases done
      exact ⟨read ++ [token], by simp, read, token, rfl, closes, .last phrase⟩
    · simp only [found'] at goesOn
      obtain ⟨⟨⟨items, close⟩, last⟩, itemsParsed, done⟩ := exists_of_bind_eq_ok goesOn
      obtain ⟨_, rfl, inner, token, rfl, closes, phrases⟩ := sound.items closing itemsParsed
      cases done
      refine ⟨read ++ comma :: inner ++ [token], by simp, _, token, rfl, closes, ?_⟩
      exact .cons phrase separates phrases
  · simp only [found] at parsed
    cases parsed
    exact ⟨[token], rfl, [], token, rfl, closes, .none⟩

theorem parsePrimary_reads (sound : Sound depth) :
    Reads (parsePrimary (depth + 1)) (PrimaryPhrase .labelled) := by
  intro tokens value rest parsed
  unfold parsePrimary at parsed
  split at parsed
  · cases parsed
  · cases parsed
    exact ⟨[_], rfl, .number rfl _⟩
  · cases parsed
    exact ⟨[_], rfl, .string rfl _⟩
  · cases parsed
    exact ⟨[_], rfl, .true rfl _⟩
  · cases parsed
    exact ⟨[_], rfl, .false rfl _⟩
  · cases parsed
    exact ⟨[_], rfl, .ident rfl _⟩
  · next depth' text opening left same =>
    cases same
    obtain ⟨⟨⟨elements, close⟩, last⟩, elementsParsed, done⟩ := exists_of_bind_eq_ok parsed
    obtain ⟨_, rfl, inner, closing, rfl, closes, phrases⟩ :=
      sound.items .closeBracket elementsParsed
    cases done
    exact ⟨_, by simp, .array (kind_mk _ text opening) phrases closes _⟩
  · next depth' text opening left same =>
    cases same
    obtain ⟨⟨inner, left'⟩, innerParsed, goesOn⟩ := exists_of_bind_eq_ok parsed
    obtain ⟨read, rfl, phrase⟩ := sound.expr innerParsed
    obtain ⟨_, taken, done⟩ := exists_of_bind_eq_ok goesOn
    obtain ⟨closing, rfl, closes, _⟩ := exists_of_takeSymbol_eq_ok taken
    cases done
    exact ⟨_, by simp, .group (kind_mk _ text opening) phrase closes _⟩
  · cases parsed

/-- Whatever the parsers of expressions and statements read, they read phrases of the grammar. -/
theorem sound (depth : Nat) : Sound depth := by
  induction depth with
  | zero => exact sound_zero
  | succ depth inductionHypothesis =>
    exact
      { stmt := parseStmt_reads inductionHypothesis
        expr := parseExpr_reads inductionHypothesis
        arrow := parseArrow_reads inductionHypothesis
        block := parseBlock_reads inductionHypothesis
        conditional := parseConditional_reads inductionHypothesis
        binary := parseBinary_chained inductionHypothesis
        operators := parseOperators_chained inductionHypothesis
        operand := parseOperand_reads inductionHypothesis
        suffixes := parseSuffixes_reads inductionHypothesis
        items := parseItems_reads inductionHypothesis
        primary := parsePrimary_reads inductionHypothesis }

/-! ### Whole texts -/

theorem parseStmts_phrase (depth : Nat) {tokens : List Token} {statements : List Stmt}
    (parsed : parseStmts depth tokens = .ok statements) :
    StmtsPhrase .labelled tokens statements := by
  induction depth generalizing tokens statements with
  | zero => cases parsed
  | succ depth inductionHypothesis =>
    cases tokens with
    | nil =>
      cases parsed
      exact .nil
    | cons token tokens =>
      obtain ⟨⟨statement, left⟩, statementParsed, goesOn⟩ := exists_of_bind_eq_ok parsed
      obtain ⟨read, split, phrase⟩ := (sound depth).stmt statementParsed
      obtain ⟨tail, tailParsed, done⟩ := exists_of_bind_eq_ok goesOn
      cases done
      rw [split]
      exact .cons phrase (inductionHypothesis tailParsed)

end Tree

theorem Token.ofText_eq_ok {text : String} {tokens : List Token}
    (lexed : Token.ofText text = .ok tokens) : Token.lex text = .ok tokens := by
  rw [Token.ofText] at lexed
  split at lexed
  · next tokens' lexed' =>
    cases lexed
    exact lexed'
  · cases lexed

/-- The tokens of every text that is read as a program or as an expression are a phrase of the
grammar for the tree that was read, if names may stand in front of types that are only grouped. -/
theorem parse_derivable (text : String) :
    (∀ program, Program.parse text = .ok program →
      ∃ tokens, Token.lex text = .ok tokens ∧ StmtsPhrase .labelled tokens program.body) ∧
    (∀ value, Expr.parse text = .ok value →
      ∃ tokens, Token.lex text = .ok tokens ∧ ExprPhrase .labelled tokens value) := by
  constructor
  · intro program parsed
    obtain ⟨tokens, lexed, goesOn⟩ := exists_of_bind_eq_ok parsed
    obtain ⟨statements, statementsParsed, done⟩ := exists_of_bind_eq_ok goesOn
    cases done
    exact ⟨tokens, Token.ofText_eq_ok lexed, Tree.parseStmts_phrase _ statementsParsed⟩
  · intro value parsed
    obtain ⟨tokens, lexed, goesOn⟩ := exists_of_bind_eq_ok parsed
    obtain ⟨⟨value', left⟩, valueParsed, done⟩ := exists_of_bind_eq_ok goesOn
    obtain ⟨read, split, phrase⟩ := (Tree.sound _).expr valueParsed
    cases left with
    | nil =>
      cases done
      rw [List.append_nil] at split
      exact ⟨tokens, Token.ofText_eq_ok lexed, split ▸ phrase⟩
    | cons token left => cases done

end ArrowCheck
