/-
This file proves that the nodes of a parsed tree have orderly places: each runs from
the start of a token to the end of one, lies inside the place of its parent, and
stands after the places of the nodes before it.

What a parser reads, put before what it leaves, is its input, and the tree that it
gives stands for what it read. An expression or a statement stands for all of it.
A written type need not, since it keeps its place when it is grouped, and so stands
only for a part of what was read.
-/

import ArrowCheck.Proofs.Derivations
import ArrowCheck.Proofs.Outlines

namespace ArrowCheck

open Outline

open Token

/-! ### Written types -/

namespace WrittenType

/-- The place of the element and that of the closing bracket cover the place of the array. -/
theorem array_within {before : List Token} {element : WrittenType}
    (within : StandWithin before [element.outline]) (opening closing : Token) :
    StandWithin (before ++ [opening, closing])
      [(WrittenType.array element (Span.join element.span (some closing.span))).outline] := by
  obtain ⟨first, inner, last, rfl, stands⟩ := within.exists_of_singleton
  have array := stands.through (ends_token (last ++ [opening]) closing)
    (stands.within.extend (last ++ [opening] ++ [closing]))
  rw [span_outline] at array
  show StandWithin _ [.node _ [_]]
  simpa using array.within.prepend first

theorem brackets_within {before : List Token} {element : WrittenType}
    (within : StandWithin before [element.outline]) (tokens : List Token) :
    ∃ read, tokens = read ++ (brackets element tokens).2 ∧
      StandWithin (before ++ read) [(brackets element tokens).1.outline] := by
  fun_induction brackets element tokens generalizing before with
  | case1 element text opening text' closing rest inductionHypothesis =>
    obtain ⟨read, split, whole⟩ :=
      inductionHypothesis (array_within within ⟨.symbol .openBracket, text, opening⟩
        ⟨.symbol .closeBracket, text', closing⟩)
    refine ⟨_ :: _ :: read, congrArg (_ :: _ :: ·) split, ?_⟩
    rwa [List.append_assoc] at whole
  | case2 element tokens other => exact ⟨[], rfl, by simpa using within⟩

/-- What the parsers of written types give stands for parts of what they read. -/
structure Places (depth : Nat) : Prop where
  type : Reads (parseType depth) fun read written => StandWithin read [written.outline]
  atom : Reads (parseAtom depth) fun read written => StandWithin read [written.outline]
  params : Reads (parseParams depth) fun read params => StandWithin read (outlines params)

variable {depth : Nat}

theorem parseType_within (places : Places depth) :
    Reads (parseType (depth + 1)) fun read written => StandWithin read [written.outline] := by
  intro tokens value rest parsed
  obtain ⟨⟨atom, left⟩, atomParsed, done⟩ := exists_of_bind_eq_ok parsed
  obtain ⟨first, split, within⟩ := places.atom atomParsed
  obtain ⟨second, split', whole⟩ := brackets_within within left
  rw [show brackets atom left = (value, rest) from Except.ok.inj done] at split' whole
  exact ⟨first ++ second, by rw [split, split', List.append_assoc], whole⟩

theorem parseParams_within (places : Places depth) :
    Reads (parseParams (depth + 1)) fun read params => StandWithin read (outlines params) := by
  intro tokens params rest parsed
  obtain ⟨label, split, _⟩ := dropParamName_phrase tokens
  obtain ⟨⟨head, left⟩, headParsed, goesOn⟩ := exists_of_bind_eq_ok parsed
  obtain ⟨inner, split', within⟩ := places.type headParsed
  rw [split'] at split
  obtain absent | ⟨comma, left', rfl, _, found⟩ := takeSymbol?_cases .comma left
  · simp only [absent] at goesOn
    obtain ⟨_, taken, done⟩ := exists_of_bind_eq_ok goesOn
    obtain ⟨closing, rfl, _⟩ := exists_of_takeSymbol_eq_ok taken
    cases done
    exact ⟨label ++ inner ++ [closing], by simp [split], (within.prepend label).extend [closing]⟩
  · simp only [found] at goesOn
    obtain ⟨⟨tail, last⟩, tailParsed, done⟩ := exists_of_bind_eq_ok goesOn
    obtain ⟨more, rfl, withinMore⟩ := places.params tailParsed
    cases done
    exact ⟨label ++ inner ++ ([comma] ++ more), by simp [split],
      (within.prepend label).append (withinMore.prepend [comma])⟩

/-- The place of the opening parenthesis and that of the result cover the place of a function
type. -/
theorem function_within {opening : Token} {inner after : List Token} {params : List WrittenType}
    {result : WrittenType} (within : StandWithin inner (outlines params))
    (within' : StandWithin after [result.outline]) :
    StandWithin (opening :: inner ++ after)
      [(function params result (Span.join (some opening.span) result.span)).outline] := by
  -- A result that is grouped ends before its closing parenthesis, and the function type with it.
  obtain ⟨first, last, more, rfl, stands⟩ := within'.exists_of_singleton
  have whole := (stands_token opening).through ((stands.ends.prepend first).prepend inner)
    ((within.append (stands.within.prepend first)).prepend [opening])
  rw [span_outline] at whole
  show StandWithin _ [.node _ (_ ++ [_])]
  simpa using whole.within.extend more

theorem parseAfterParams_within (places : Places depth) (opening : Token) {inner : List Token}
    {params : List WrittenType} (within : StandWithin inner (outlines params)) :
    Reads (parseAfterParams (parseType depth) opening.span params) fun read written =>
      StandWithin (opening :: inner ++ read) [written.outline] := by
  intro tokens value rest parsed
  unfold parseAfterParams at parsed
  obtain absent | ⟨arrow, left, rfl, _, found⟩ := takeSymbol?_cases .arrow tokens
  · simp only [absent] at parsed
    split at parsed
    · cases parsed
      exact ⟨[], rfl, (within.prepend [opening]).extend []⟩
    · cases parsed
  · simp only [found] at parsed
    obtain ⟨⟨result, last⟩, resultParsed, done⟩ := exists_of_bind_eq_ok parsed
    obtain ⟨read, rfl, withinResult⟩ := places.type resultParsed
    cases done
    exact ⟨arrow :: read, rfl, function_within within (withinResult.prepend [arrow])⟩

theorem parseNamed_within (places : Places depth) :
    Reads (parseNamed (parseType depth)) fun read written =>
      StandWithin read [written.outline] := by
  intro tokens value rest parsed
  obtain ⟨⟨⟨name, _⟩, left⟩, taken, goesOn⟩ := exists_of_bind_eq_ok parsed
  obtain ⟨token, rfl, _, _, rfl⟩ := exists_of_takeName_eq_ok taken
  simp only at goesOn
  split_ifs at goesOn with isArray
  · obtain absent | ⟨opening, left', rfl, _, found⟩ := takeSymbol?_cases (.binary .less) left
    · simp only [absent] at goesOn
      cases goesOn
      exact ⟨[token], rfl, (stands_token token).within⟩
    · simp only [found] at goesOn
      obtain ⟨⟨element, last⟩, elementParsed, goesOn'⟩ := exists_of_bind_eq_ok goesOn
      obtain ⟨inner, rfl, within⟩ := places.type elementParsed
      obtain ⟨⟨_, _⟩, taken', done⟩ := exists_of_bind_eq_ok goesOn'
      obtain ⟨closing, rfl, _, rfl⟩ := exists_of_takeSymbol_eq_ok taken'
      cases done
      refine ⟨[token] ++ ([opening] ++ inner ++ [closing]), by simp, Stands.within ?_⟩
      exact (stands_token token).through (ends_token ([opening] ++ inner) closing)
        (((within.prepend [opening]).extend [closing]).prepend [token])
  · cases goesOn
    exact ⟨[token], rfl, (stands_token token).within⟩

theorem parseAtom_within (places : Places depth) :
    Reads (parseAtom (depth + 1)) fun read written => StandWithin read [written.outline] := by
  intro tokens value rest parsed
  unfold parseAtom at parsed
  split at parsed
  · cases parsed
  · next depth' text opening left same =>
    cases same
    obtain ⟨⟨params, last⟩, paramsParsed, goesOn⟩ := exists_of_bind_eq_ok parsed
    obtain ⟨inner, rfl, within⟩ := takeParens_reads places.params (fun _ => .nil _) paramsParsed
    obtain ⟨read, rfl, whole⟩ :=
      parseAfterParams_within places ⟨.symbol .openParen, text, opening⟩ within goesOn
    exact ⟨_, by simp, whole⟩
  · next depth' same other =>
    cases same
    exact parseNamed_within places parsed

/-- What the parsers of written types give stands for parts of what they read, however deep. -/
theorem places (depth : Nat) : Places depth := by
  induction depth with
  | zero => exact ⟨.failing .tooDeep _, .failing .tooDeep _, .failing .tooDeep _⟩
  | succ depth inductionHypothesis =>
    exact ⟨parseType_within inductionHypothesis, parseAtom_within inductionHypothesis,
      parseParams_within inductionHypothesis⟩

end WrittenType

namespace Tree

/-! ### Heads of arrow functions -/

theorem parseDeclared_within :
    Reads parseDeclared fun read declared =>
      StandWithin read (WrittenType.declaredOutlines declared) := by
  intro tokens value rest parsed
  rw [parseDeclared] at parsed
  obtain absent | ⟨colon, left, rfl, _, found⟩ := takeSymbol?_cases .colon tokens
  · rw [absent] at parsed
    cases parsed
    exact ⟨[], rfl, .nil _⟩
  · rw [found] at parsed
    obtain ⟨⟨written, last⟩, writtenParsed, done⟩ := exists_of_bind_eq_ok parsed
    obtain ⟨inner, rfl, within⟩ := (WrittenType.places _).type writtenParsed
    cases done
    exact ⟨colon :: inner, rfl, within.prepend [colon]⟩

/-- The place of the name and that of the declared type, if there is one, cover the place of a
parameter. -/
theorem param_within (token : Token) (name : String) {after : List Token}
    {declared : Option WrittenType}
    (within : StandWithin after (WrittenType.declaredOutlines declared)) :
    StandWithin (token :: after) [Param.outline { name := name, declared := declared, info :=
      { span := Span.join (some token.span) (declared.bind WrittenType.span) } }] := by
  cases declared with
  | none => exact (stands_token token).within.extend after
  | some written =>
    obtain ⟨first, inner, last, rfl, stands⟩ := within.exists_of_singleton
    have param := (stands_token token).through (stands.ends.prepend first)
      ((stands.within.prepend first).prepend [token])
    rw [WrittenType.span_outline] at param
    show StandWithin _ [.node (Span.join _ written.span) [_]]
    simpa using param.within.extend last

theorem parseParams_within (depth : Nat) :
    Reads (parseParams depth) fun read params => StandWithin read (params.map Param.outline) := by
  induction depth with
  | zero => exact .failing .tooDeep _
  | succ depth inductionHypothesis =>
    intro tokens params rest parsed
    obtain ⟨⟨⟨name, _⟩, left⟩, taken, goesOn⟩ := exists_of_bind_eq_ok parsed
    obtain ⟨token, rfl, _, _, rfl⟩ := exists_of_takeName_eq_ok taken
    obtain ⟨⟨declared, left'⟩, declaredParsed, goesOn'⟩ := exists_of_bind_eq_ok goesOn
    obtain ⟨inner, rfl, withinDeclared⟩ := parseDeclared_within declaredParsed
    have within := param_within token name withinDeclared
    obtain absent | ⟨comma, last, rfl, _, found⟩ := takeSymbol?_cases .comma left'
    · simp only [absent] at goesOn'
      obtain ⟨_, taken', done⟩ := exists_of_bind_eq_ok goesOn'
      obtain ⟨closing, rfl, _⟩ := exists_of_takeSymbol_eq_ok taken'
      cases done
      exact ⟨token :: inner ++ [closing], by simp, within.extend [closing]⟩
    · simp only [found] at goesOn'
      obtain ⟨⟨tail, last⟩, tailParsed, done⟩ := exists_of_bind_eq_ok goesOn'
      obtain ⟨more, rfl, withinMore⟩ := inductionHypothesis tailParsed
      cases done
      exact ⟨token :: inner ++ ([comma] ++ more), by simp,
        within.append (withinMore.prepend [comma])⟩

/-- The parts of the head of an arrow function stand for parts of tokens that start where the head
does. -/
def HeadStands (head : ArrowHead) (tokens : List Token) : Prop :=
  ∃ first rest, tokens = first :: rest ∧ head.start = first.span ∧
    StandWithin tokens
      (head.params.map Param.outline ++ WrittenType.declaredOutlines head.result)

theorem parseAfterParams_stands (opening : Token) {inner : List Token} {params : List Param}
    (within : StandWithin inner (params.map Param.outline)) :
    Reads (parseAfterParams opening.span params) fun read head =>
      HeadStands head (opening :: inner ++ read) := by
  intro tokens head rest parsed
  obtain ⟨⟨result, left⟩, resultParsed, goesOn⟩ := exists_of_bind_eq_ok parsed
  obtain ⟨after, rfl, withinResult⟩ := parseDeclared_within resultParsed
  obtain ⟨_, taken, done⟩ := exists_of_bind_eq_ok goesOn
  obtain ⟨arrow, rfl, _⟩ := exists_of_takeSymbol_eq_ok taken
  cases done
  exact ⟨after ++ [arrow], by simp, opening, _, rfl, rfl,
    (within.append (withinResult.extend [arrow])).prepend [opening]⟩

theorem parseHead_stands (opening : Token) :
    Reads (parseHead opening.span) fun read head => HeadStands head (opening :: read) := by
  intro tokens head rest parsed
  obtain ⟨⟨params, left⟩, paramsParsed, goesOn⟩ := exists_of_bind_eq_ok parsed
  obtain ⟨inner, rfl, within⟩ := 
    takeParens_reads (parseParams_within _) (fun _ => .nil _) paramsParsed
  obtain ⟨after, rfl, stands⟩ := parseAfterParams_stands opening within goesOn
  exact ⟨inner ++ after, by simp, stands⟩

theorem arrowHead?_stands {tokens rest : List Token} {head : ArrowHead}
    (found : arrowHead? tokens = some (head, rest)) :
    ∃ before, tokens = before ++ rest ∧ HeadStands head before := by
  unfold arrowHead? at found
  split at found
  · next name span text span' left =>
    cases found
    exact ⟨[⟨.name, name, span⟩, _], rfl, _, _, rfl, rfl,
      (stands_token ⟨.name, name, span⟩).within.extend _⟩
  · next text opening left =>
    cases parsed : parseHead opening left with
    | error failure =>
      rw [parsed] at found
      cases found
    | ok result =>
      rw [parsed] at found
      cases found
      obtain ⟨read, rfl, stands⟩ := parseHead_stands ⟨.symbol .openParen, text, opening⟩ parsed
      exact ⟨_ :: read, rfl, stands⟩
  · cases found

/-! ### Expressions and statements -/

/-- Outlines stand for parts of what was read up to a closing symbol, which has a given place. -/
def Enclosed (read : List Token) (close : Span) (outlines : List Outline) : Prop :=
  ∃ inner closing, read = inner ++ [closing] ∧ closing.span = close ∧ StandWithin inner outlines

/-- What the parsers of expressions and statements give stands for what they read. -/
structure Places (depth : Nat) : Prop where
  stmt : Reads (parseStmt depth) fun read statement => Stands read statement.outline
  expr : Reads (parseExpr depth) fun read value => Stands read value.outline
  arrow {head : ArrowHead} {before : List Token} (stands : HeadStands head before) :
    Reads (parseArrow depth head) fun read value => Stands (before ++ read) value.outline
  block : Reads (parseBlock depth) fun read result =>
    Enclosed read result.2 (Stmt.outlines result.1)
  conditional : Reads (parseConditional depth) fun read value => Stands read value.outline
  binary (least : Nat) : Reads (parseBinary depth least) fun read value =>
    Stands read value.outline
  operators (least : Nat) {before : List Token} (left : Expr)
    (stands : Stands before left.outline) :
    Reads (parseOperators depth least left) fun read value => Stands (before ++ read) value.outline
  operand : Reads (parseOperand depth) fun read value => Stands read value.outline
  suffixes {before : List Token} (value : Expr) (stands : Stands before value.outline) :
    Reads (parseSuffixes depth value) fun read value => Stands (before ++ read) value.outline
  items (closing : Symbol) : Reads (parseItems depth closing) fun read result =>
    Enclosed read result.2 (Expr.outlines result.1)
  primary : Reads (parsePrimary depth) fun read value => Stands read value.outline

theorem places_zero : Places 0 where
  stmt := .failing .tooDeep _
  expr := .failing .tooDeep _
  arrow _ := .failing .tooDeep _
  block := .failing .tooDeep _
  conditional := .failing .tooDeep _
  binary _ := .failing .tooDeep _
  operators _ _ _ _ := .failing .tooDeep _
  operand := .failing .tooDeep _
  suffixes _ _ := .failing .tooDeep _
  items _ := .failing .tooDeep _
  primary := .failing .tooDeep _

variable {depth : Nat}

/-- The place where a statement ends is that of its semicolon, or else that of what stands before
it. -/
theorem exists_ending {before : List Token} {stop : Span} (ends : Ends before (some stop))
    (tokens : List Token) :
    ∃ (ending : List Token) (stop' : Span) (rest : List Token), tokens = ending ++ rest ∧
      (takeSymbol? .semicolon tokens).getD (stop, tokens) = (stop', rest) ∧
      Ends (before ++ ending) (some stop') := by
  obtain absent | ⟨semicolon, rest, rfl, _, found⟩ := takeSymbol?_cases .semicolon tokens
  · exact ⟨[], stop, tokens, rfl, by rw [absent, Option.getD_none], by rwa [List.append_nil]⟩
  · exact ⟨[semicolon], semicolon.span, rest, rfl, by rw [found, Option.getD_some],
      ends_token before semicolon⟩

theorem exists_ends_expr {tokens : List Token} {value : Expr}
    (stands : Stands tokens value.outline) :
    ∃ span, value.span = some span ∧ Ends tokens (some span) := by
  rw [← Expr.span_outline]
  exact stands.exists_ends

/-- An expression stands for tokens if it is moved to their place. -/
theorem stands_withSpan {before after : List Token} {value : Expr} {first : Outline}
    {span : Option Span} (starts : Stands before first) (ends : Ends after span)
    (within : StandWithin (before ++ after) value.outline.children) :
    Stands (before ++ after) (value.withSpan (Span.join first.span span)).outline := by
  rw [Expr.outline_withSpan]
  exact starts.through ends within

/-- An expression is a statement of its own. -/
theorem stands_expr {tokens : List Token} {value : Expr} (stands : Stands tokens value.outline) :
    Stands tokens (Stmt.expr value).outline := by
  have alone := stands.alone
  rw [Expr.span_outline] at alone
  exact alone

theorem parseConst_stands (places : Places depth) (keyword : Token) :
    Reads (parseConst (parseExpr depth) keyword.span) fun read statement =>
      Stands (keyword :: read) statement.outline := by
  intro tokens statement rest parsed
  obtain ⟨⟨⟨name, nameSpan⟩, left⟩, taken, goesOn⟩ := exists_of_bind_eq_ok parsed
  obtain ⟨token, rfl, _⟩ := exists_of_takeName_eq_ok taken
  obtain ⟨⟨declared, left'⟩, declaredParsed, goesOn'⟩ := exists_of_bind_eq_ok goesOn
  obtain ⟨middle, rfl, withinDeclared⟩ := parseDeclared_within declaredParsed
  obtain ⟨⟨_, left''⟩, taken', goesOn''⟩ := exists_of_bind_eq_ok goesOn'
  obtain ⟨assign, rfl, _⟩ := exists_of_takeSymbol_eq_ok taken'
  obtain ⟨⟨init, last⟩, initParsed, done⟩ := exists_of_bind_eq_ok goesOn''
  obtain ⟨inner, rfl, stands⟩ := places.expr initParsed
  obtain ⟨span, spanIs, ends⟩ := exists_ends_expr stands
  obtain ⟨ending, stop, last', rfl, found, ends'⟩ := exists_ending ends last
  simp only [spanIs, Option.getD_some, found] at done
  cases done
  refine ⟨[token] ++ middle ++ [assign] ++ (inner ++ ending), by simp, ?_⟩
  have within := ((withinDeclared.prepend [token]).extend [assign]).append
    (stands.within.extend ending)
  exact (stands_token keyword).through (ends'.prepend _) (within.prepend [keyword])

theorem parseReturn_stands (places : Places depth) (keyword : Token) :
    Reads (parseReturn (parseExpr depth) keyword.span) fun read statement =>
      Stands (keyword :: read) statement.outline := by
  intro tokens statement rest parsed
  unfold parseReturn at parsed
  simp only at parsed
  split_ifs at parsed
  · simp only [pure_bind, Option.bind_none, Option.getD_none] at parsed
    obtain absent | ⟨semicolon, last, rfl, _, found⟩ := takeSymbol?_cases .semicolon tokens
    · rw [absent, Option.getD_none, Span.cover_self] at parsed
      cases parsed
      exact ⟨[], rfl, stands_token keyword⟩
    · rw [found, Option.getD_some] at parsed
      cases parsed
      exact ⟨[semicolon], rfl,
        (stands_token keyword).through (ends_token [] semicolon) (.nil _)⟩
  · obtain ⟨⟨argument, left⟩, argumentParsed, goesOn⟩ := exists_of_bind_eq_ok parsed
    obtain ⟨inner, rfl, stands⟩ := places.expr argumentParsed
    obtain ⟨span, spanIs, ends⟩ := exists_ends_expr stands
    obtain ⟨ending, stop, last, rfl, found, ends'⟩ := exists_ending ends left
    simp only [pure_bind, Option.bind_some, spanIs, Option.getD_some, found] at goesOn
    cases goesOn
    refine ⟨inner ++ ending, by simp, ?_⟩
    exact (stands_token keyword).through ends' ((stands.within.extend ending).prepend [keyword])

theorem parseExprStmt_stands (places : Places depth) :
    Reads (parseExprStmt (parseExpr depth)) fun read statement =>
      Stands read statement.outline := by
  intro tokens statement rest parsed
  obtain ⟨⟨value, left⟩, valueParsed, goesOn⟩ := exists_of_bind_eq_ok parsed
  obtain ⟨read, rfl, stands⟩ := places.expr valueParsed
  obtain absent | ⟨semicolon, left', rfl, _, found⟩ := takeSymbol?_cases .semicolon left
  · simp only [absent] at goesOn
    cases goesOn
    exact ⟨read, rfl, stands_expr stands⟩
  · simp only [found] at goesOn
    cases goesOn
    refine ⟨read ++ [semicolon], by simp, stands_expr ?_⟩
    rw [← Expr.span_outline]
    exact stands_withSpan stands (ends_token [] semicolon)
      (stands.children_within.extend [semicolon])

theorem parseStmt_stands (places : Places depth) :
    Reads (parseStmt (depth + 1)) fun read statement => Stands read statement.outline := by
  intro tokens statement rest parsed
  unfold parseStmt at parsed
  split at parsed
  · cases parsed
  · next depth' text start left same =>
    cases same
    obtain ⟨read, rfl, stands⟩ := parseConst_stands places ⟨.keyword .const, text, start⟩ parsed
    exact ⟨_ :: read, rfl, stands⟩
  · next depth' text start left same =>
    cases same
    obtain ⟨read, rfl, stands⟩ := parseReturn_stands places ⟨.keyword .return, text, start⟩ parsed
    exact ⟨_ :: read, rfl, stands⟩
  · next depth' same notConst notReturn =>
    cases same
    exact parseExprStmt_stands places parsed

theorem parseExpr_stands (places : Places depth) :
    Reads (parseExpr (depth + 1)) fun read value => Stands read value.outline := by
  intro tokens value rest parsed
  cases found : arrowHead? tokens with
  | none =>
    rw [parseExpr_eq_conditional found] at parsed
    exact places.conditional parsed
  | some headed =>
    obtain ⟨head, left⟩ := headed
    rw [parseExpr_eq_arrow found] at parsed
    obtain ⟨before, rfl, standsHead⟩ := arrowHead?_stands found
    obtain ⟨read, rfl, stands⟩ := places.arrow standsHead parsed
    exact ⟨before ++ read, by simp, stands⟩

theorem parseArrow_stands (places : Places depth) {head : ArrowHead} {before : List Token}
    (stands : HeadStands head before) :
    Reads (parseArrow (depth + 1) head) fun read value =>
      Stands (before ++ read) value.outline := by
  intro tokens value rest parsed
  obtain ⟨first, more, rfl, starts, within⟩ := stands
  unfold parseArrow at parsed
  obtain absent | ⟨opening, left, rfl, _, found⟩ := takeSymbol?_cases .openBrace tokens
  · simp only [absent] at parsed
    obtain ⟨⟨result, last⟩, resultParsed, done⟩ := exists_of_bind_eq_ok parsed
    obtain ⟨read, rfl, stands⟩ := places.expr resultParsed
    obtain ⟨span, spanIs, ends⟩ := exists_ends_expr stands
    simp only [spanIs, Option.getD_some, starts] at done
    cases done
    exact ⟨read, rfl, (stands_token first).through (ends.prepend more)
      (within.append stands.within)⟩
  · simp only [found] at parsed
    obtain ⟨⟨⟨statements, close⟩, last⟩, blockParsed, done⟩ := exists_of_bind_eq_ok parsed
    obtain ⟨_, rfl, inner, closing, rfl, rfl, withinBlock⟩ := places.block blockParsed
    rw [starts] at done
    cases done
    -- The braces have a place of their own, though they are no node of the tree.
    have braces := (stands_token opening).through (ends_token inner closing) (.nil _)
    exact ⟨[opening] ++ (inner ++ [closing]), by simp, (stands_token first).through
      (braces.ends.prepend more)
      (within.append ((withinBlock.extend [closing]).prepend [opening]))⟩

theorem parseBlock_enclosed (places : Places depth) :
    Reads (parseBlock (depth + 1)) fun read result =>
      Enclosed read result.2 (Stmt.outlines result.1) := by
  intro tokens value rest parsed
  unfold parseBlock at parsed
  obtain absent | ⟨closing, left, rfl, _, found⟩ := takeSymbol?_cases .closeBrace tokens
  · simp only [absent] at parsed
    split_ifs at parsed
    obtain ⟨⟨statement, left⟩, statementParsed, goesOn⟩ := exists_of_bind_eq_ok parsed
    obtain ⟨read, rfl, stands⟩ := places.stmt statementParsed
    obtain ⟨⟨⟨statements, close⟩, last⟩, blockParsed, done⟩ := exists_of_bind_eq_ok goesOn
    obtain ⟨_, rfl, inner, closing, rfl, closes, within⟩ := places.block blockParsed
    cases done
    exact ⟨read ++ inner ++ [closing], by simp, read ++ inner, closing, rfl, closes,
      stands.within.append within⟩
  · simp only [found] at parsed
    cases parsed
    exact ⟨[closing], rfl, [], closing, rfl, rfl, .nil _⟩

theorem parseConditional_stands (places : Places depth) :
    Reads (parseConditional (depth + 1)) fun read value => Stands read value.outline := by
  intro tokens value rest parsed
  obtain ⟨⟨test, left⟩, testParsed, goesOn⟩ := exists_of_bind_eq_ok parsed
  obtain ⟨before, rfl, testStands⟩ := places.binary 1 testParsed
  obtain absent | ⟨question, left', rfl, _, found⟩ := takeSymbol?_cases .question left
  · simp only [absent] at goesOn
    cases goesOn
    exact ⟨before, rfl, testStands⟩
  · simp only [found] at goesOn
    obtain ⟨⟨consequent, left''⟩, consequentParsed, goesOn'⟩ := exists_of_bind_eq_ok goesOn
    obtain ⟨inner, rfl, consequentStands⟩ := places.expr consequentParsed
    obtain ⟨_, taken, goesOn''⟩ := exists_of_bind_eq_ok goesOn'
    obtain ⟨colon, rfl, _⟩ := exists_of_takeSymbol_eq_ok taken
    obtain ⟨⟨alternate, last⟩, alternateParsed, done⟩ := exists_of_bind_eq_ok goesOn''
    obtain ⟨after, split, alternateStands⟩ := places.expr alternateParsed
    cases done
    refine ⟨before ++ ([question] ++ inner ++ [colon] ++ after), by simp [split], ?_⟩
    rw [← Expr.span_outline, ← Expr.span_outline]
    exact testStands.through (alternateStands.ends.prepend _) (testStands.within.append
      (((consequentStands.within.prepend [question]).extend [colon]).append
        alternateStands.within))

theorem parseBinary_stands (places : Places depth) (least : Nat) :
    Reads (parseBinary (depth + 1) least) fun read value => Stands read value.outline := by
  intro tokens value rest parsed
  obtain ⟨⟨left, middle⟩, leftParsed, goesOn⟩ := exists_of_bind_eq_ok parsed
  obtain ⟨before, rfl, stands⟩ := places.operand leftParsed
  obtain ⟨read, rfl, whole⟩ := places.operators least left stands goesOn
  exact ⟨before ++ read, by simp, whole⟩

theorem parseOperators_stands (places : Places depth) (least : Nat) {before : List Token}
    (left : Expr) (stands : Stands before left.outline) :
    Reads (parseOperators (depth + 1) least left) fun read value =>
      Stands (before ++ read) value.outline := by
  intro tokens value rest parsed
  unfold parseOperators at parsed
  split at parsed
  · next operator left' taken =>
    split_ifs at parsed with loose
    · cases parsed
      exact ⟨[], rfl, by simpa using stands⟩
    · obtain ⟨⟨right, middle⟩, rightParsed, goesOn⟩ := exists_of_bind_eq_ok parsed
      obtain ⟨after, rfl, rightStands⟩ := places.binary _ rightParsed
      obtain ⟨symbol, rfl, _⟩ := exists_of_takeOperator?_eq_some taken
      have joined := stands.through (rightStands.ends.prepend [symbol])
        (stands.within.append (rightStands.within.prepend [symbol]))
      rw [Expr.span_outline, Expr.span_outline] at joined
      obtain ⟨read, rfl, whole⟩ := places.operators least
        (.binary operator left right { span := Span.join left.span right.span }) joined goesOn
      refine ⟨symbol :: after ++ read, by simp, ?_⟩
      simpa using whole
  · next taken =>
    cases parsed
    exact ⟨[], rfl, by simpa using stands⟩

theorem parseOperand_stands (places : Places depth) :
    Reads (parseOperand (depth + 1)) fun read value => Stands read value.outline := by
  intro tokens value rest parsed
  obtain ⟨⟨primary, left⟩, primaryParsed, goesOn⟩ := exists_of_bind_eq_ok parsed
  obtain ⟨before, rfl, stands⟩ := places.primary primaryParsed
  obtain ⟨read, rfl, whole⟩ := places.suffixes primary stands goesOn
  exact ⟨before ++ read, by simp, whole⟩

theorem parseSuffixes_stands (places : Places depth) {before : List Token} (value : Expr)
    (stands : Stands before value.outline) :
    Reads (parseSuffixes (depth + 1) value) fun read value =>
      Stands (before ++ read) value.outline := by
  intro tokens result rest parsed
  unfold parseSuffixes at parsed
  split at parsed
  · cases parsed
  · next depth' text opening left same =>
    cases same
    obtain ⟨⟨⟨arguments, close⟩, left'⟩, argumentsParsed, goesOn⟩ := exists_of_bind_eq_ok parsed
    obtain ⟨_, rfl, inner, closing, rfl, rfl, within⟩ := places.items .closeParen argumentsParsed
    have call := stands.through
      (ends_token (⟨.symbol .openParen, text, opening⟩ :: inner) closing)
      (stands.within.append ((within.extend [closing]).prepend
        [⟨.symbol .openParen, text, opening⟩]))
    rw [Expr.span_outline] at call
    obtain ⟨read, rfl, whole⟩ := places.suffixes
      (.call _ arguments { span := Span.join _ (some closing.span) }) call goesOn
    refine ⟨⟨.symbol .openParen, text, opening⟩ :: inner ++ closing :: read, by simp, ?_⟩
    simpa using whole
  · next depth' text opening left same =>
    cases same
    obtain ⟨⟨position, left'⟩, positionParsed, goesOn⟩ := exists_of_bind_eq_ok parsed
    obtain ⟨inner, rfl, positionStands⟩ := places.expr positionParsed
    obtain ⟨⟨close, left''⟩, taken, goesOn'⟩ := exists_of_bind_eq_ok goesOn
    obtain ⟨closing, rfl, _, rfl⟩ := exists_of_takeSymbol_eq_ok taken
    have index := stands.through
      (ends_token (⟨.symbol .openBracket, text, opening⟩ :: inner) closing)
      (stands.within.append ((positionStands.within.extend [closing]).prepend
        [⟨.symbol .openBracket, text, opening⟩]))
    rw [Expr.span_outline] at index
    obtain ⟨read, rfl, whole⟩ := places.suffixes
      (.index _ position { span := Span.join _ (some closing.span) }) index goesOn'
    refine ⟨⟨.symbol .openBracket, text, opening⟩ :: inner ++ closing :: read, by simp, ?_⟩
    simpa using whole
  · cases parsed
    exact ⟨[], rfl, by simpa using stands⟩

theorem parseItems_enclosed (places : Places depth) (closing : Symbol) :
    Reads (parseItems (depth + 1) closing) fun read result =>
      Enclosed read result.2 (Expr.outlines result.1) := by
  intro tokens result rest parsed
  unfold parseItems at parsed
  obtain absent | ⟨token, left, rfl, _, found⟩ := takeSymbol?_cases closing tokens
  · simp only [absent] at parsed
    obtain ⟨⟨item, left⟩, itemParsed, goesOn⟩ := exists_of_bind_eq_ok parsed
    obtain ⟨read, rfl, stands⟩ := places.expr itemParsed
    obtain absent' | ⟨comma, left', rfl, _, found'⟩ := takeSymbol?_cases .comma left
    · simp only [absent'] at goesOn
      obtain ⟨⟨close, _⟩, taken, done⟩ := exists_of_bind_eq_ok goesOn
      obtain ⟨token, rfl, _, closes⟩ := exists_of_takeSymbol_eq_ok taken
      cases done
      exact ⟨read ++ [token], by simp, read, token, rfl, closes, stands.within⟩
    · simp only [found'] at goesOn
      obtain ⟨⟨⟨items, close⟩, last⟩, itemsParsed, done⟩ := exists_of_bind_eq_ok goesOn
      obtain ⟨_, rfl, inner, token, rfl, closes, within⟩ := places.items closing itemsParsed
      cases done
      exact ⟨read ++ ([comma] ++ inner) ++ [token], by simp, _, token, rfl, closes,
        stands.within.append (within.prepend [comma])⟩
  · simp only [found] at parsed
    cases parsed
    exact ⟨[token], rfl, [], token, rfl, rfl, .nil _⟩

theorem parsePrimary_stands (places : Places depth) :
    Reads (parsePrimary (depth + 1)) fun read value => Stands read value.outline := by
  intro tokens value rest parsed
  unfold parsePrimary at parsed
  split at parsed
  · cases parsed
  · cases parsed
    exact ⟨[_], rfl, stands_token _⟩
  · cases parsed
    exact ⟨[_], rfl, stands_token _⟩
  · cases parsed
    exact ⟨[_], rfl, stands_token _⟩
  · cases parsed
    exact ⟨[_], rfl, stands_token _⟩
  · cases parsed
    exact ⟨[_], rfl, stands_token _⟩
  · next depth' text opening left same =>
    cases same
    obtain ⟨⟨⟨elements, close⟩, last⟩, elementsParsed, done⟩ := exists_of_bind_eq_ok parsed
    obtain ⟨_, rfl, inner, closing, rfl, rfl, within⟩ :=
      places.items .closeBracket elementsParsed
    cases done
    refine ⟨[⟨.symbol .openBracket, text, opening⟩] ++ (inner ++ [closing]), by simp, ?_⟩
    exact (stands_token _).through (ends_token inner closing)
      ((within.extend [closing]).prepend _)
  · next depth' text opening left same =>
    cases same
    obtain ⟨⟨inner, left'⟩, innerParsed, goesOn⟩ := exists_of_bind_eq_ok parsed
    obtain ⟨read, rfl, stands⟩ := places.expr innerParsed
    obtain ⟨⟨_, _⟩, taken, done⟩ := exists_of_bind_eq_ok goesOn
    obtain ⟨closing, rfl, _, rfl⟩ := exists_of_takeSymbol_eq_ok taken
    cases done
    refine ⟨[⟨.symbol .openParen, text, opening⟩] ++ (read ++ [closing]), by simp, ?_⟩
    exact stands_withSpan (stands_token _) (ends_token read closing)
      ((stands.children_within.extend [closing]).prepend _)
  · cases parsed

/-- What the parsers of expressions and statements give stands for what they read, however deep. -/
theorem places (depth : Nat) : Places depth := by
  induction depth with
  | zero => exact places_zero
  | succ depth inductionHypothesis =>
    exact
      { stmt := parseStmt_stands inductionHypothesis
        expr := parseExpr_stands inductionHypothesis
        arrow := parseArrow_stands inductionHypothesis
        block := parseBlock_enclosed inductionHypothesis
        conditional := parseConditional_stands inductionHypothesis
        binary := parseBinary_stands inductionHypothesis
        operators := parseOperators_stands inductionHypothesis
        operand := parseOperand_stands inductionHypothesis
        suffixes := parseSuffixes_stands inductionHypothesis
        items := parseItems_enclosed inductionHypothesis
        primary := parsePrimary_stands inductionHypothesis }

/-! ### Whole texts -/

theorem parseStmts_within (depth : Nat) {tokens : List Token} {statements : List Stmt}
    (parsed : parseStmts depth tokens = .ok statements) :
    StandWithin tokens (Stmt.outlines statements) := by
  induction depth generalizing tokens statements with
  | zero => cases parsed
  | succ depth inductionHypothesis =>
    cases tokens with
    | nil =>
      cases parsed
      exact .nil _
    | cons token tokens =>
      obtain ⟨⟨statement, left⟩, statementParsed, goesOn⟩ := exists_of_bind_eq_ok parsed
      obtain ⟨read, split, stands⟩ := (places depth).stmt statementParsed
      obtain ⟨tail, tailParsed, done⟩ := exists_of_bind_eq_ok goesOn
      cases done
      rw [split]
      exact stands.within.append (inductionHypothesis tailParsed)

end Tree

/-- A node of a text that is inside it has its place inside that of the text. -/
theorem Outline.Placed.inside {tokens : List Token} {size : Nat} {node : Outline}
    (placed : node.Placed tokens size) (short : size < 2 ^ 32) (children : List Outline) :
    node.Inside (.node (some (.ofOffsets 0 size)) children) := by
  obtain ⟨span, _, _, _, _, spanIs, _, _, _, _, _, _, within⟩ := placed
  refine ⟨span, _, spanIs, rfl, UInt32.zero_le, ?_⟩
  rw [UInt32.le_iff_toNat_le]
  show _ ≤ size.toUInt32.toNat
  rwa [Token.toNat_toUInt32 size short]

/-- In the tree of a program that was parsed from a short text, every node has a place, which runs
from the start of a token to the end of that token or a later one. The children of every node have
their places inside that of the node, one after the other in the order in which they are written. -/
theorem parse_outline_nested (text : String) (short : text.utf8ByteSize < 2 ^ 32)
    (program : Program) (parsed : Program.parse text = .ok program) :
    ∃ tokens, Token.lex text = .ok tokens ∧
      (∀ node ∈ nodesAll program.outline.children, node.Placed tokens text.utf8ByteSize) ∧
      ∀ node ∈ program.outline.nodes, node.Nested := by
  obtain ⟨tokens, lexed, goesOn⟩ := exists_of_bind_eq_ok parsed
  obtain ⟨statements, statementsParsed, done⟩ := exists_of_bind_eq_ok goesOn
  cases done
  have lexed' := Token.ofText_eq_ok lexed
  obtain ⟨ordered, bounded⟩ := Token.lex_inOrder lexed' short
  have within := Tree.parseStmts_within _ statementsParsed
  have below := within.forall_nodes ordered bounded List.infix_rfl
  refine ⟨tokens, lexed', fun node member => (below node member).1,
    List.forall_mem_cons.mpr ⟨⟨fun child member => ?_, within.pairwise ordered⟩,
      fun node member => (below node member).2⟩⟩
  obtain ⟨inner, isInfix, stands⟩ := within.exists_of_mem member
  exact (stands.placed ordered bounded isInfix).inside short _

/-- A text with parentheses around a type, around a name that is returned and around a callee. -/
def groupedCall : String :=
  "const f = (x: (number)[]): T => \x7b return (x); \x7d; (f)([])[0]"

theorem groupedCall_outline_nested :
    ∃ program, Program.parse groupedCall = .ok program ∧ program.outline.nodes.length = 15 ∧
      ∃ tokens, Token.lex groupedCall = .ok tokens ∧
        (∀ node ∈ nodesAll program.outline.children, node.Placed tokens 59) ∧
        ∀ node ∈ program.outline.nodes, node.Nested := by
  have counted : (Program.parse groupedCall).toOption.map (fun program =>
      program.outline.nodes.length) = some 15 := by
    decide +kernel
  cases parsed : Program.parse groupedCall with
  | error failure =>
    rw [parsed] at counted
    cases counted
  | ok program =>
    rw [parsed] at counted
    exact ⟨program, rfl, Option.some.inj counted,
      parse_outline_nested groupedCall (by decide) program parsed⟩

end ArrowCheck
