/-
This file says what the phrases of the stated grammar look like from outside: every
bracket in them is closed, and they start in a few ways only. It follows when the
parser takes a phrase for the head of an arrow function, which it tries first: a
phrase that is none is taken for one only if it is a name in parentheses and a
colon, a type and an arrow stand after it.
-/

import ArrowCheck.Proofs.Derivations
import ArrowCheck.Proofs.Parsing
import ArrowCheck.Proofs.StatedGrammar

namespace ArrowCheck

theorem Token.Avoids.append {symbols : List Symbol} {tokens rest : List Token}
    (first : Avoids symbols tokens) (second : Avoids symbols rest) :
    Avoids symbols (tokens ++ rest) := by
  cases tokens with
  | nil => exact second
  | cons token tokens => exact first

namespace Stated

open Token

variable {Admits : List Token → List Token → Prop} {part : Part}
  {token opening closing name arrow : Token} {tokens inner before after rest : List Token}

/-! ### Where types end -/

/-- How deep in brackets a token leads from a level, if it does not end what stands outside of all
brackets. -/
def scanToken (level : Nat) (token : Token) : Option Nat :=
  match token.kind with
  | .symbol .openParen | .symbol .openBracket | .symbol .openBrace => some (level + 1)
  | .symbol .closeParen | .symbol .closeBracket | .symbol .closeBrace =>
    if level = 0 then none else some (level - 1)
  | .symbol .comma | .symbol .colon | .symbol .semicolon =>
    if level = 0 then none else some level
  | _ => some level

/-- How deep in brackets tokens lead from a level, if none of them ends what stands outside of all
brackets. -/
def scan (level : Nat) (tokens : List Token) : Option Nat :=
  tokens.foldlM scanToken level

@[simp] theorem scan_nil (level : Nat) : scan level [] = some level :=
  rfl

@[simp] theorem scan_cons (level : Nat) (token : Token) (tokens : List Token) :
    scan level (token :: tokens) = (scanToken level token).bind fun next => scan next tokens :=
  rfl

@[simp] theorem scan_append (level : Nat) (first second : List Token) :
    scan level (first ++ second) = (scan level first).bind fun next => scan next second :=
  List.foldlM_append

/-- One level further out nothing more can end. -/
theorem scanToken_succ {level next : Nat} (scanned : scanToken level token = some next) :
    scanToken (level + 1) token = some (next + 1) := by
  unfold scanToken at scanned ⊢
  split at scanned <;> simp at scanned ⊢ <;> omega

theorem scan_succ {level next : Nat} (scanned : scan level tokens = some next) :
    scan (level + 1) tokens = some (next + 1) := by
  induction tokens generalizing level with
  | nil => simpa using scanned
  | cons token tokens inductionHypothesis =>
    obtain ⟨middle, first, more⟩ := Option.bind_eq_some_iff.mp scanned
    exact Option.bind_eq_some_iff.mpr ⟨middle + 1, scanToken_succ first, inductionHypothesis more⟩

/-- Labels, types and their parameters do not end what stands around them. -/
theorem scan_label (level : Nat) (labelled : Grammar.LabelPhrase tokens) :
    scan (level + 1) tokens = some (level + 1) := by
  cases labelled with
  | absent => rfl
  | present named separates => simp [scanToken, named, separates]

theorem scan_allowed {grouping : Grammar.Grouping} (level : Nat)
    (allowed : grouping.Allows tokens) : scan (level + 1) tokens = some (level + 1) := by
  cases grouping with
  | plain =>
    rw [show tokens = [] from allowed]
    rfl
  | labelled => exact scan_label level allowed

mutual

/-- Nothing in a type ends what stands around it. -/
theorem scan_type {grouping : Grammar.Grouping} {tokens : List Token} {written : WrittenType}
    (level : Nat) :
    Grammar.TypePhrase grouping tokens written → scan level tokens = some level
  | .named isName _ => by simp [scanToken, isName]
  | .applied isName _ opens phrase closes _ => by
    simp [scanToken, isName, opens, closes, scan_type level phrase]
  | .brackets phrase opens closes _ => by
    simp [scanToken, opens, closes, scan_type level phrase]
  | .function opens paramsPhrase closes points resultPhrase _ => by
    simp [scanToken, opens, closes, points, scan_types level paramsPhrase,
      scan_type level resultPhrase]
  | .group opens allowed phrase closes => by
    simp [scanToken, opens, closes, scan_allowed level allowed, scan_type (level + 1) phrase]

/-- Nothing in the parameters of a function type ends what stands around their parentheses. -/
theorem scan_types {grouping : Grammar.Grouping} {tokens : List Token}
    {params : List WrittenType} (level : Nat) :
    Grammar.TypesPhrase grouping tokens params → scan (level + 1) tokens = some (level + 1)
  | .none => rfl
  | .last labelled phrase => by simp [scan_label level labelled, scan_type (level + 1) phrase]
  | .cons labelled phrase separates more => by
    simp [scanToken, separates, scan_label level labelled, scan_type (level + 1) phrase,
      scan_types level more]

end

/-- Every bracket of a phrase is closed in it. -/
theorem scan_phrase (phrase : Phrase Admits part tokens) (level : Nat) :
    scan (level + 1) tokens = some (level + 1) := by
  induction phrase generalizing level with
  | literal isLiteral => rcases isLiteral with is | is | is | is <;> simp [scanToken, is]
  | _ => simp_all [scanToken]

/-- What stands after an expression: nothing, or something that closes or separates. -/
def Stops (rest : List Token) : Prop :=
  ∀ token ∈ rest.head?, token.kind ∈ [Kind.symbol .closeParen, .symbol .closeBracket,
    .symbol .comma, .symbol .semicolon, .symbol .colon]

theorem stops_cons {symbol : Symbol} (isSymbol : token.kind = .symbol symbol)
    (stops : symbol ∈ [Symbol.closeParen, .closeBracket, .comma, .semicolon, .colon]) :
    Stops (token :: rest) := by
  rintro _ ⟨⟩
  rw [isSymbol]
  simpa using stops

theorem Stops.avoids (stops : Stops rest) {symbols : List Symbol}
    (others : ∀ symbol ∈ symbols,
      symbol ∉ [Symbol.closeParen, .closeBracket, .comma, .semicolon, .colon]) :
    Avoids symbols rest := by
  intro token member symbol member' same
  have stop := stops token member
  rw [same] at stop
  exact others symbol member' (by simpa using stop)

/-- What can be read as a type with an arrow after it at the start of an expression does not go
beyond the expression. -/
theorem StartsTyped.of_append (phrase : Phrase Admits part tokens) (stops : Stops rest)
    (typed : StartsTyped (tokens ++ rest)) : StartsTyped tokens := by
  obtain ⟨read, written, arrow, left, split, typePhrase, unclosed, points⟩ := typed
  have noArrow : Avoids [.arrow] rest := stops.avoids (by decide)
  obtain ⟨more, rfl, rest_eq⟩ | ⟨more, rfl, left_eq⟩ := List.append_eq_append_iff.mp split
  · -- The type would go on after the expression, where no bracket is open.
    cases more with
    | nil =>
      rw [rest_eq] at noArrow
      exact absurd points (noArrow arrow rfl .arrow (by simp))
    | cons next more =>
      have scanned := scan_type 0 typePhrase
      rw [scan_append] at scanned
      obtain ⟨level, within, goesOn⟩ := Option.bind_eq_some_iff.mp scanned
      have closed := (scan_succ within).symm.trans (scan_phrase phrase 0)
      obtain rfl : level = 0 := by simpa using closed
      have stop := stops next (by rw [rest_eq]; rfl)
      simp only [List.mem_cons, List.not_mem_nil, or_false] at stop
      rcases stop with is | is | is | is | is <;> simp [scanToken, is] at goesOn
  · cases more with
    | nil =>
      rw [List.nil_append] at left_eq
      rw [← left_eq] at noArrow
      exact absurd points (noArrow arrow rfl .arrow (by simp))
    | cons next more =>
      cases left_eq
      exact ⟨read, written, arrow, more, rfl, typePhrase, unclosed, points⟩

/-! ### Types before arrows -/

section

open WrittenType

/-- What was read of tokens ends in something other than a closing parenthesis. -/
def Unclosed (tokens rest : List Token) : Prop :=
  ∃ front last, tokens = front ++ last :: rest ∧ last.kind ≠ .symbol .closeParen

theorem Unclosed.prepend (unclosed : Unclosed tokens rest) (before : List Token) :
    Unclosed (before ++ tokens) rest := by
  obtain ⟨front, last, rfl, other⟩ := unclosed
  exact ⟨before ++ front, last, by simp, other⟩

/-- Only types that start with a parenthesis can end with one. -/
theorem unclosed_phrase {grouping : Grammar.Grouping} {written : WrittenType}
    (phrase : Grammar.TypePhrase grouping tokens written)
    (starts : Avoids [.openParen] tokens) : Unclosed (tokens ++ rest) rest := by
  cases phrase with
  | @named name isName _ => exact ⟨[], name, rfl, by simp [isName]⟩
  | @applied name opening closing inner _ _ _ _ _ closes _ =>
    exact ⟨name :: opening :: inner, closing, by simp, by simp [closes]⟩
  | @brackets opening closing inner _ _ _ closes _ =>
    exact ⟨inner ++ [opening], closing, by simp, by simp [closes]⟩
  | function opens _ _ _ _ _ => exact absurd opens (starts _ rfl .openParen (by simp))
  | group opens _ _ _ => exact absurd opens (starts _ rfl .openParen (by simp))

theorem unclosed_brackets (element : WrittenType) (tokens : List Token) :
    (brackets element tokens).2 = tokens ∨ Unclosed tokens (brackets element tokens).2 := by
  fun_induction brackets element tokens with
  | case1 _ text opening text' closing rest inductionHypothesis =>
    right
    rcases inductionHypothesis with same | unclosed
    · rw [same]
      exact ⟨[_], _, rfl, by simp⟩
    · exact unclosed.prepend [_, _]
  | case2 => exact .inl rfl

theorem exists_openParen (starts : ¬Avoids [.openParen] tokens) :
    ∃ opening more, tokens = opening :: more ∧ opening.kind = .symbol .openParen := by
  cases tokens with
  | nil => exact absurd (by rintro _ ⟨⟩) starts
  | cons opening more =>
    refine ⟨opening, more, rfl, by_contra fun other => starts ?_⟩
    rintro _ ⟨⟩ symbol member is
    obtain rfl := List.mem_singleton.mp member
    exact other is

/-- What starts with a parenthesis and is read up to an arrow is a function type: the arrow would
otherwise make one of what stands in the parentheses. -/
theorem exists_result_of_parseAtom {depth : Nat} {atom : WrittenType} {opening : Token}
    (opens : opening.kind = .symbol .openParen) (points : arrow.kind = .symbol .arrow)
    (parsed : parseAtom (depth + 1) (opening :: tokens) = .ok (atom, arrow :: rest)) :
    ∃ front result last, tokens = front ++ last ∧
      parseType depth last = .ok (result, arrow :: rest) := by
  rw [parseAtom_openParen opens] at parsed
  obtain ⟨⟨params, left⟩, paramsParsed, goesOn⟩ := exists_of_bind_eq_ok parsed
  obtain ⟨read, rfl, _⟩ := parens_reads (sound depth) paramsParsed
  unfold parseAfterParams at goesOn
  obtain absent | ⟨arrow', last, rfl, _, found⟩ := takeSymbol?_cases .arrow left
  · simp only [absent] at goesOn
    split at goesOn
    · cases goesOn
      rw [takeSymbol?_cons points] at absent
      cases absent
    · cases goesOn
  · simp only [found] at goesOn
    obtain ⟨⟨result, left⟩, resultParsed, done⟩ := exists_of_bind_eq_ok goesOn
    cases done
    exact ⟨read ++ [arrow'], result, last, by simp, resultParsed⟩

/-- The parser of types stops before an arrow only after something other than a parenthesis. The
induction is on the depth, through the result of a function type. -/
theorem parseType_unclosed (depth : Nat) {written : WrittenType}
    (parsed : parseType depth tokens = .ok (written, arrow :: rest))
    (points : arrow.kind = .symbol .arrow) : Unclosed tokens (arrow :: rest) := by
  induction depth using Nat.strong_induction_on generalizing tokens written with
  | h depth inductionHypothesis =>
  match depth with
  | 0 => cases parsed
  | 1 => cases parsed
  | depth + 2 =>
    obtain ⟨⟨atom, left⟩, atomParsed, done⟩ := exists_of_bind_eq_ok parsed
    have rest_eq : (brackets atom left).2 = arrow :: rest := congrArg Prod.snd (Except.ok.inj done)
    obtain ⟨first, rfl, phrase⟩ := (sound (depth + 1)).atom atomParsed
    rcases unclosed_brackets atom left with same | unclosed
    · obtain rfl : arrow :: rest = left := rest_eq.symm.trans same
      by_cases starts : Avoids [.openParen] first
      · exact unclosed_phrase phrase starts
      · obtain ⟨opening, more, rfl, opens⟩ := exists_openParen starts
        rw [List.cons_append] at atomParsed ⊢
        obtain ⟨front, result, last, split, resultParsed⟩ :=
          exists_result_of_parseAtom opens points atomParsed
        rw [split]
        exact (inductionHypothesis depth (by omega) resultParsed).prepend (opening :: front)
    · rw [rest_eq] at unclosed
      exact unclosed.prepend first

theorem startsTyped_of_parse {written : WrittenType}
    (parsed : parse tokens = .ok (written, arrow :: rest)) (points : arrow.kind = .symbol .arrow) :
    StartsTyped tokens := by
  obtain ⟨read, split, phrase⟩ := parse_reads parsed
  obtain ⟨front, last, split', other⟩ := parseType_unclosed _ parsed points
  obtain rfl : read = front ++ [last] := by
    rw [← List.append_left_inj (arrow :: rest)]
    simpa using split.symm.trans split'
  exact ⟨front ++ [last], written, arrow, rest, split, phrase, by simpa using other, points⟩

end

/-! ### How phrases start -/

/-- An expression does not start with what closes, separates or opens a statement, and the name that
it may start with does not look like a parameter unless it is the whole expression. -/
def Starts (tokens : List Token) : Prop :=
  ∃ first more, tokens = first :: more ∧
    first.kind ∈ [Kind.name, .number, .quoted, .keyword .true, .keyword .false,
      .symbol .openParen, .symbol .openBracket] ∧
    (first.kind = .name → Avoids [.colon, .comma, .closeParen] more)

theorem Starts.append (starts : Starts tokens)
    (avoids : Avoids [.colon, .comma, .closeParen] rest) : Starts (tokens ++ rest) := by
  obtain ⟨first, more, rfl, kind, named⟩ := starts
  exact ⟨first, more ++ rest, rfl, kind, fun isName => Avoids.append (named isName) avoids⟩

/-- How the phrases of each part start. -/
def Begins : Part → List Token → Prop
  | .expr, tokens | .chain, tokens | .operand, tokens | .primary, tokens => Starts tokens
  | .operators, tokens =>
    ∀ token ∈ tokens.head?, ∃ operator, token.kind = .symbol (.binary operator)
  | .suffixes, tokens =>
    ∀ token ∈ tokens.head?, token.kind = .symbol .openParen ∨ token.kind = .symbol .openBracket
  | .typeParams, tokens => ∀ token ∈ tokens.head?, token.kind = .name
  | _, _ => True

/-- Operators are not other symbols. -/
theorem avoids_operators (begins : Begins .operators tokens) {symbols : List Symbol}
    (others : ∀ operator, Symbol.binary operator ∉ symbols) : Avoids symbols tokens := by
  intro token member symbol member' same
  obtain ⟨operator, is⟩ := begins token member
  rw [is] at same
  cases same
  exact others operator member'

theorem avoids_suffixes (begins : Begins .suffixes tokens) {symbols : List Symbol}
    (noParen : Symbol.openParen ∉ symbols) (noBracket : Symbol.openBracket ∉ symbols) :
    Avoids symbols tokens := by
  intro token member symbol member' same
  rcases begins token member with is | is <;> rw [is] at same <;> cases same
  · exact noParen member'
  · exact noBracket member'

theorem begins_phrase (phrase : Phrase Admits part tokens) : Begins part tokens := by
  have single {token : Token} (kind : token.kind ∈ [Kind.name, .number, .quoted, .keyword .true,
      .keyword .false, .symbol .openParen, .symbol .openBracket]) : Starts [token] :=
    ⟨token, [], rfl, kind, fun _ _ member => by cases member⟩
  have bracket {token : Token} {more : List Token}
      (opens : token.kind = .symbol .openParen ∨ token.kind = .symbol .openBracket) :
      Starts (token :: more) := by
    refine ⟨token, more, rfl, ?_, fun isName => ?_⟩ <;> rcases opens with is | is <;> simp_all
  induction phrase with
  | nameArrow isName points _ =>
    exact ⟨_, _, rfl, by simp [isName], fun _ => avoids_cons points (by simp)⟩
  | paramsArrow opens _ _ _ _ _ => exact bracket (.inl opens)
  | conditional _ asks _ _ _ _ starts =>
    rw [List.append_assoc]
    exact Starts.append starts (avoids_cons asks (by simp))
  | unconditional _ starts => exact starts
  | chain _ _ starts follows => exact starts.append (avoids_operators follows (by simp))
  | operator joins _ _ => rintro _ ⟨⟩; exact ⟨_, joins⟩
  | operand _ _ starts follows =>
    exact starts.append (avoids_suffixes follows (by simp) (by simp))
  | call opens _ _ _ => rintro _ ⟨⟩; exact .inl opens
  | index opens _ _ _ => rintro _ ⟨⟩; exact .inr opens
  | lastTypeParam isName _ _ | typeParam isName _ _ _ _ _ => rintro _ ⟨⟩; exact isName
  | noTypeParams | noOperator | noSuffix => rintro _ ⟨⟩
  | literal isLiteral => exact single (by rcases isLiteral with is | is | is | is <;> simp [is])
  | name isName => exact single (by simp [isName])
  | array opens _ _ => exact bracket (.inr opens)
  | group opens _ _ => exact bracket (.inl opens)
  | _ => trivial

/-! ### Arrow functions on trial -/

/-- After a colon stands what can be read as a type, with an arrow after it. -/
def Captures (rest : List Token) : Prop :=
  ∃ colon more, rest = colon :: more ∧ colon.kind = .symbol .colon ∧ StartsTyped more

/-- A name in parentheses is the head of an arrow function only with an arrow after it, or with a
colon, a type and an arrow. -/
theorem arrowHead?_grouped (opens : opening.kind = .symbol .openParen) (isName : name.kind = .name)
    (closes : closing.kind = .symbol .closeParen) (noArrow : Avoids [.arrow] rest)
    (uncaptured : ¬Captures rest) :
    Tree.arrowHead? (opening :: name :: closing :: rest) = none := by
  have parsed : Tree.parseParens (name :: closing :: rest) = .ok ([Tree.paramOf name none], rest) :=
    Tree.parseParens_of_params
      (Tree.parseParams_last isName (Tree.parseDeclared_none (avoids_cons closes (by simp))) closes)
  have ends {result : Option WrittenType} {left : List Token}
      (declared : Tree.parseDeclared rest = .ok (result, left)) :
      takeSymbol? .arrow left = none := by
    obtain absent | ⟨arrow, more, rfl, points, _⟩ := takeSymbol?_cases .arrow left
    · exact absent
    · rw [Tree.parseDeclared] at declared
      obtain undeclared | ⟨colon, typed, rfl, separates, found⟩ := takeSymbol?_cases .colon rest
      · rw [undeclared] at declared
        cases declared
        exact absurd points (noArrow _ rfl .arrow (by simp))
      · rw [found] at declared
        obtain ⟨⟨written, _⟩, parsed, done⟩ := exists_of_bind_eq_ok declared
        cases done
        exact absurd ⟨colon, typed, rfl, separates, startsTyped_of_parse parsed points⟩ uncaptured
  obtain ⟨kind, text, span⟩ := opening
  cases opens
  show (Tree.parseParens (name :: closing :: rest) >>= _).toOption = none
  rw [parsed]
  show (Tree.parseDeclared rest >>= _).toOption = none
  cases declared : Tree.parseDeclared rest with
  | error failure => rfl
  | ok result =>
    show (takeSymbol .arrow result.2 >>= _).toOption = none
    rw [takeSymbol, ends declared]
    rfl

/-- A primary expression is not taken for an arrow function. -/
theorem arrowHead?_primary (phrase : Phrase Admits .primary tokens)
    (noArrow : Avoids [.arrow] rest) (uncaptured : Grouped tokens → ¬Captures rest) :
    Tree.arrowHead? (tokens ++ rest) = none := by
  cases phrase with
  | literal isLiteral =>
    apply Tree.arrowHead?_of_ne_openParen
    · rcases isLiteral with is | is | is | is <;> simp [is]
    · exact fun _ => noArrow
  | name isName => exact Tree.arrowHead?_of_ne_openParen (by simp [isName]) fun _ => noArrow
  | array opens _ _ =>
    exact Tree.arrowHead?_of_ne_openParen (by simp [opens]) fun isName => by simp [opens] at isName
  | @group opening closing inner opens value closes =>
    obtain ⟨first, more, rfl, kind, named⟩ := begins_phrase value
    show Tree.arrowHead? (opening :: first :: (more ++ [closing] ++ rest)) = none
    by_cases isName : first.kind = .name
    · cases more with
      | nil =>
        exact arrowHead?_grouped opens isName closes noArrow
          (uncaptured ⟨opening, first, closing, rfl, opens, isName, closes⟩)
      | cons second more =>
        -- The name is followed by something that does not follow a parameter.
        exact Tree.arrowHead?_of_error opens (Tree.parseParens_of_name isName (named isName))
    · refine Tree.arrowHead?_of_error opens (Tree.parseParens_of_ne_name isName ?_)
      intro closing
      simp [closing] at kind

/-- What follows a primary expression in an operand with operators after it captures nothing. -/
theorem not_captures_append (suffixes : Begins .suffixes before)
    (operators : Begins .operators after) (uncaptured : before = [] → after = [] → ¬Captures rest) :
    ¬Captures (before ++ (after ++ rest)) := by
  rintro ⟨colon, more, split, separates, typed⟩
  cases before with
  | cons token before =>
    cases split
    rcases suffixes colon rfl with is | is <;> simp [is] at separates
  | nil =>
    cases after with
    | cons token after =>
      cases split
      obtain ⟨operator, is⟩ := operators colon rfl
      simp [is] at separates
    | nil => exact uncaptured rfl rfl ⟨colon, more, split, separates, typed⟩

/-- Operands with operators between them are not taken for an arrow function. -/
theorem arrowHead?_chain (phrase : Phrase Admits .chain tokens) (noArrow : Avoids [.arrow] rest)
    (uncaptured : Grouped tokens → ¬Captures rest) : Tree.arrowHead? (tokens ++ rest) = none := by
  cases phrase with
  | @chain _ after operand operators =>
    cases operand with
    | @operand primary before primaryPhrase suffixes =>
      have beginsSuffixes := begins_phrase suffixes
      have beginsOperators := begins_phrase operators
      rw [List.append_assoc, List.append_assoc]
      refine arrowHead?_primary primaryPhrase ?_ fun grouped => ?_
      · exact Avoids.append (avoids_suffixes beginsSuffixes (by simp) (by simp))
          (Avoids.append (avoids_operators beginsOperators (by simp)) noArrow)
      · refine not_captures_append beginsSuffixes beginsOperators fun noSuffix noOperator => ?_
        subst noSuffix noOperator
        exact uncaptured (by simpa using grouped)

end Stated

end ArrowCheck
