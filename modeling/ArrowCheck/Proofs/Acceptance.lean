/-
This file proves that the parser accepts the stated grammar, if it can tell the
branches of conditional expressions apart, and that it does not accept all of it.

For each part of the language there is a statement of what the parser makes of its
phrases and of the tokens after them, and for each rule a lemma that leads from the
parts of a phrase to the phrase. The bound on the depth of calls is carried along:
it is ten times the number of tokens, and a few calls less inside of operands.
-/

import ArrowCheck.Proofs.StatedPhrases

namespace ArrowCheck

namespace Stated

open Token

variable {Admits : List Token → List Token → Prop} {part : Part}
  {token opening closing name arrow : Token} {tokens inner before after rest : List Token}

/-! ### Types -/

/-- The tokens after all pairs of brackets at the front. -/
def afterBrackets : List Token → List Token
  | ⟨.symbol .openBracket, _, _⟩ :: ⟨.symbol .closeBracket, _, _⟩ :: rest => afterBrackets rest
  | tokens => tokens

theorem brackets_snd (element : WrittenType) (tokens : List Token) :
    (WrittenType.brackets element tokens).2 = afterBrackets tokens := by
  fun_induction WrittenType.brackets element tokens with
  | case1 _ _ _ _ _ _ inductionHypothesis => exact inductionHypothesis
  | case2 element tokens other =>
    unfold afterBrackets
    split
    · exact absurd rfl (other _ _ _ _ _)
    · rfl

theorem afterBrackets_pair (opens : opening.kind = .symbol .openBracket)
    (closes : closing.kind = .symbol .closeBracket) (rest : List Token) :
    afterBrackets (opening :: closing :: rest) = afterBrackets rest := by
  obtain ⟨kind, text, span⟩ := opening
  obtain ⟨kind', text', span'⟩ := closing
  cases opens
  cases closes
  rfl

theorem afterBrackets_of_avoids (avoids : Avoids [.openBracket] rest) :
    afterBrackets rest = rest := by
  unfold afterBrackets
  split
  · exact absurd rfl (avoids _ rfl .openBracket (by simp))
  · rfl

theorem afterBrackets_afterBrackets (tokens : List Token) :
    afterBrackets (afterBrackets tokens) = afterBrackets tokens := by
  fun_induction afterBrackets tokens with
  | case1 _ _ _ _ _ inductionHypothesis => exact inductionHypothesis
  | case2 tokens other =>
    unfold afterBrackets
    split
    · exact absurd rfl (other _ _ _ _ _)
    · rfl

/-- The tokens are parsed as a type, together with the brackets that stand after them. -/
def ParsesType (tokens : List Token) : Prop :=
  ∀ (rest : List Token) (depth : Nat), Avoids [.binary .less] rest → 10 * tokens.length ≤ depth →
    ∃ written, WrittenType.parseType depth (tokens ++ rest) = .ok (written, afterBrackets rest)

/-- The tokens are parsed as the parameters of a function type, unless there are none. -/
def ParsesTypeParams (tokens : List Token) : Prop :=
  ∀ (closing : Token) (rest : List Token) (depth : Nat), closing.kind = .symbol .closeParen →
    10 * tokens.length < depth → tokens ≠ [] →
    ∃ params, WrittenType.parseParams depth (tokens ++ closing :: rest) = .ok (params, rest)

theorem parsesType_of_atom {depth : Nat} {written : WrittenType}
    (parsed : WrittenType.parseAtom depth tokens = .ok (written, rest)) :
    ∃ written, WrittenType.parseType (depth + 1) tokens = .ok (written, afterBrackets rest) := by
  refine ⟨(WrittenType.brackets written rest).1, ?_⟩
  rw [WrittenType.parseType_of_atom parsed, ← brackets_snd written rest]

theorem typeName_parsesType (isName : name.kind = .name) : ParsesType [name] := by
  intro rest depth avoids enough
  obtain ⟨depth, rfl⟩ : ∃ fewer, depth = fewer + 2 := ⟨depth - 2, by simp at enough; omega⟩
  exact parsesType_of_atom (WrittenType.parseAtom_name isName avoids)

theorem brackets_parsesType (element : ParsesType inner)
    (opens : opening.kind = .symbol .openBracket) (closes : closing.kind = .symbol .closeBracket) :
    ParsesType (inner ++ [opening, closing]) := by
  intro rest depth avoids enough
  rw [List.append_assoc, ← afterBrackets_pair opens closes rest]
  exact element _ depth (avoids_cons opens (by simp)) (by simp at enough; omega)

theorem arrayType_parsesType (isName : name.kind = .name) (isArray : name.text = "Array")
    (opens : opening.kind = .symbol (.binary .less)) (element : ParsesType inner)
    (closes : closing.kind = .symbol (.binary .greater)) :
    ParsesType (name :: opening :: inner ++ [closing]) := by
  intro rest depth avoids enough
  simp only [List.length_cons, List.length_append, List.length_nil] at enough
  obtain ⟨depth, rfl⟩ : ∃ fewer, depth = fewer + 2 := ⟨depth - 2, by omega⟩
  have closed : Avoids [.binary .less, .openBracket] (closing :: rest) :=
    avoids_cons closes (by simp)
  obtain ⟨written, parsed⟩ := element (closing :: rest) depth (closed.mono (by simp)) (by omega)
  rw [afterBrackets_of_avoids (closed.mono (by simp))] at parsed
  obtain ⟨kind, text, span⟩ := name
  cases isName
  rw [show ⟨.name, text, span⟩ :: opening :: inner ++ [closing] ++ rest =
    ⟨.name, text, span⟩ :: opening :: (inner ++ closing :: rest) by simp]
  have atom : WrittenType.parseAtom (depth + 1)
      (⟨.name, text, span⟩ :: opening :: (inner ++ closing :: rest)) =
        .ok (.array written (some (span.cover closing.span)), rest) := by
    show (if text = "Array" then _ else _) = _
    rw [if_pos isArray, takeSymbol?_cons opens]
    show (WrittenType.parseType depth (inner ++ closing :: rest) >>= _) = _
    rw [parsed]
    show (takeSymbol (.binary .greater) (closing :: rest) >>= _) = _
    rw [takeSymbol_cons closes]
    rfl
  exact parsesType_of_atom atom

/-- A name before a colon in front of a type is dropped. -/
theorem dropParamName_label {colon : Token} (isName : name.kind = .name)
    (separates : colon.kind = .symbol .colon) (rest : List Token) :
    WrittenType.dropParamName (name :: colon :: rest) = rest := by
  obtain ⟨kind, text, span⟩ := name
  obtain ⟨kind', text', span'⟩ := colon
  cases isName
  cases separates
  rfl

theorem lastTypeParam_parses {colon : Token} (isName : name.kind = .name)
    (separates : colon.kind = .symbol .colon) (type : ParsesType inner) :
    ParsesTypeParams (name :: colon :: inner) := by
  intro closing rest depth closes enough _
  simp only [List.length_cons] at enough
  obtain ⟨depth, rfl⟩ : ∃ fewer, depth = fewer + 1 := ⟨depth - 1, by omega⟩
  have closed : Avoids [.binary .less, .openBracket] (closing :: rest) :=
    avoids_cons closes (by simp)
  obtain ⟨written, parsed⟩ := type (closing :: rest) depth (closed.mono (by simp)) (by omega)
  rw [afterBrackets_of_avoids (closed.mono (by simp)),
    ← dropParamName_label isName separates (inner ++ closing :: rest)] at parsed
  exact ⟨_, WrittenType.parseParams_last parsed closes⟩

theorem typeParam_parses {colon comma : Token} (isName : name.kind = .name)
    (separates : colon.kind = .symbol .colon) (type : ParsesType inner)
    (goesOn : comma.kind = .symbol .comma) (more : ParsesTypeParams after) (nonempty : after ≠ []) :
    ParsesTypeParams (name :: colon :: inner ++ comma :: after) := by
  intro closing rest depth closes enough _
  simp only [List.length_cons, List.length_append] at enough
  obtain ⟨depth, rfl⟩ : ∃ fewer, depth = fewer + 1 := ⟨depth - 1, by omega⟩
  have closed : Avoids [.binary .less, .openBracket] (comma :: (after ++ closing :: rest)) :=
    avoids_cons goesOn (by simp)
  obtain ⟨written, parsed⟩ := type (comma :: (after ++ closing :: rest)) depth
    (closed.mono (by simp)) (by omega)
  rw [afterBrackets_of_avoids (closed.mono (by simp)),
    ← dropParamName_label isName separates (inner ++ comma :: (after ++ closing :: rest))] at parsed
  obtain ⟨params, parsedMore⟩ := more closing rest depth closes (by omega) nonempty
  rw [List.append_assoc]
  exact ⟨_, WrittenType.parseParams_cons parsed goesOn parsedMore⟩

theorem functionType_parsesType (opens : opening.kind = .symbol .openParen)
    (begins : ∀ token ∈ inner.head?, token.kind = .name) (params : ParsesTypeParams inner)
    (closes : closing.kind = .symbol .closeParen) (points : arrow.kind = .symbol .arrow)
    (result : ParsesType after) : ParsesType (opening :: inner ++ closing :: arrow :: after) := by
  intro rest depth avoids enough
  simp only [List.length_cons, List.length_append] at enough
  obtain ⟨depth, rfl⟩ : ∃ fewer, depth = fewer + 2 := ⟨depth - 2, by omega⟩
  have parens : ∃ written, takeParens (WrittenType.parseParams depth)
      (inner ++ closing :: arrow :: (after ++ rest)) = .ok (written, arrow :: (after ++ rest)) := by
    cases inner with
    | nil => exact ⟨[], takeParens_nil closes⟩
    | cons first inner =>
      have filled :
          Avoids [.closeParen] (first :: inner ++ closing :: arrow :: (after ++ rest)) := by
        rintro _ ⟨⟩ symbol _ same
        rw [begins first rfl] at same
        cases same
      rw [takeParens_eq filled]
      exact params closing _ depth closes (by omega) (by simp)
  obtain ⟨written, parsed⟩ := parens
  obtain ⟨resultWritten, resultParsed⟩ := result rest depth avoids (by omega)
  rw [List.append_assoc, ← afterBrackets_afterBrackets]
  exact parsesType_of_atom (WrittenType.parseAtom_function opens parsed points resultParsed)

/-! ### Declared types and parameters -/

/-- The tokens are parsed as a declared type, or as none. -/
def ParsesDeclared (tokens : List Token) : Prop :=
  ∀ rest : List Token, Avoids [.colon, .binary .less, .openBracket] rest →
    ∃ declared, Tree.parseDeclared (tokens ++ rest) = .ok (declared, rest)

/-- The tokens are parsed as the parameters of an arrow function, unless there are none. -/
def ParsesParams (tokens : List Token) : Prop :=
  ∀ (closing : Token) (rest : List Token) (depth : Nat), closing.kind = .symbol .closeParen →
    10 * tokens.length < depth → tokens ≠ [] →
    ∃ params, Tree.parseParams depth (tokens ++ closing :: rest) = .ok (params, rest)

theorem undeclared_parses : ParsesDeclared [] :=
  fun _ avoids => ⟨none, Tree.parseDeclared_none (avoids.mono (by simp))⟩

theorem declared_parses {colon : Token} (separates : colon.kind = .symbol .colon)
    (type : ParsesType inner) : ParsesDeclared (colon :: inner) := by
  intro rest avoids
  obtain ⟨written, parsed⟩ := type rest (depthBound (inner ++ rest)) (avoids.mono (by simp))
    (by simp [depthBound]; omega)
  rw [afterBrackets_of_avoids (avoids.mono (by simp))] at parsed
  exact ⟨some written, Tree.parseDeclared_some separates parsed⟩

theorem lastParam_parses (isName : name.kind = .name) (declared : ParsesDeclared inner) :
    ParsesParams (name :: inner) := by
  intro closing rest depth closes enough _
  obtain ⟨depth, rfl⟩ : ∃ fewer, depth = fewer + 1 := ⟨depth - 1, by omega⟩
  obtain ⟨stated, parsed⟩ := declared (closing :: rest) (avoids_cons closes (by simp))
  exact ⟨_, Tree.parseParams_last isName parsed closes⟩

theorem param_parses {comma : Token} (isName : name.kind = .name) (declared : ParsesDeclared inner)
    (goesOn : comma.kind = .symbol .comma) (more : ParsesParams after) (nonempty : after ≠ []) :
    ParsesParams (name :: inner ++ comma :: after) := by
  intro closing rest depth closes enough _
  simp only [List.length_cons, List.length_append] at enough
  obtain ⟨depth, rfl⟩ : ∃ fewer, depth = fewer + 1 := ⟨depth - 1, by omega⟩
  obtain ⟨stated, parsed⟩ := declared (comma :: (after ++ closing :: rest))
    (avoids_cons goesOn (by simp))
  obtain ⟨params, parsedMore⟩ := more closing rest depth closes (by omega) nonempty
  rw [List.append_assoc]
  exact ⟨_, Tree.parseParams_cons isName parsed goesOn parsedMore⟩

/-! ### Expressions -/

/-- The tokens are parsed as an expression before what does not go on with it. -/
def ParsesExpr (tokens : List Token) : Prop :=
  ∀ (rest : List Token) (depth : Nat), Stops rest → 10 * tokens.length ≤ depth →
    (EndsGrouped tokens → ¬Captures rest) →
    ∃ value, Tree.parseExpr depth (tokens ++ rest) = .ok (value, rest)

/-- The tokens are parsed as the body of an arrow function. -/
def ParsesBody (tokens : List Token) : Prop :=
  ∀ (head : Tree.ArrowHead) (rest : List Token) (depth : Nat), Stops rest →
    10 * tokens.length < depth → (EndsGrouped tokens → ¬Captures rest) →
    ∃ value, Tree.parseArrow depth head (tokens ++ rest) = .ok (value, rest)

/-- The tokens are parsed as the statements of a block. -/
def ParsesBlock (tokens : List Token) : Prop :=
  ∀ (closing : Token) (rest : List Token) (depth : Nat), closing.kind = .symbol .closeBrace →
    10 * tokens.length < depth →
    ∃ statements, Tree.parseBlock depth (tokens ++ closing :: rest) = .ok (statements, rest)

/-- The tokens are parsed as arguments or elements up to a closing symbol. -/
def ParsesItems (tokens : List Token) : Prop :=
  ∀ (closing : Token) (symbol : Symbol) (rest : List Token) (depth : Nat),
    symbol = .closeParen ∨ symbol = .closeBracket → closing.kind = .symbol symbol →
    10 * tokens.length < depth →
    ∃ items, Tree.parseItems depth symbol (tokens ++ closing :: rest) = .ok (items, rest)

/-- The tokens are parsed as an operand without calls and indexing, whatever comes after them. -/
def ParsesPrimary (tokens : List Token) : Prop :=
  ∀ (rest : List Token) (depth : Nat), 10 * tokens.length ≤ depth + 4 →
    ∃ value, Tree.parsePrimary depth (tokens ++ rest) = .ok (value, rest)

/-- The tokens are parsed as the calls and the indexing of any operand before them. -/
def ParsesSuffixes (tokens : List Token) : Prop :=
  ∀ (value : Expr) (rest : List Token) (depth : Nat), Avoids [.openParen, .openBracket] rest →
    10 * tokens.length < depth →
    ∃ value', Tree.parseSuffixes depth value (tokens ++ rest) = .ok (value', rest)

/-- The tokens are parsed as an operand before what does not call or index it. -/
def ParsesOperand (tokens : List Token) : Prop :=
  ∀ (rest : List Token) (depth : Nat), Avoids [.openParen, .openBracket] rest →
    10 * tokens.length ≤ depth + 3 →
    ∃ value, Tree.parseOperand depth (tokens ++ rest) = .ok (value, rest)

/-- A closing token after an expression captures nothing. -/
theorem not_captures {symbol : Symbol} (isSymbol : token.kind = .symbol symbol)
    (other : symbol ≠ .colon) : ¬Captures (token :: rest) := by
  rintro ⟨colon, more, ⟨⟩, separates, _⟩
  rw [isSymbol] at separates
  cases separates
  exact other rfl

/-- An expression before something that closes or separates, other than a colon. -/
theorem ParsesExpr.upTo {symbol : Symbol} {depth : Nat} (parses : ParsesExpr tokens)
    (isSymbol : token.kind = .symbol symbol)
    (stops : symbol ∈ [Symbol.closeParen, .closeBracket, .comma, .semicolon])
    (rest : List Token) (enough : 10 * tokens.length ≤ depth) :
    ∃ value, Tree.parseExpr depth (tokens ++ token :: rest) = .ok (value, token :: rest) := by
  refine parses (token :: rest) depth (stops_cons isSymbol ?_) enough fun _ => ?_
  · simp only [List.mem_cons, List.not_mem_nil, or_false] at stops ⊢
    tauto
  · refine not_captures isSymbol ?_
    rintro rfl
    simp at stops

theorem Starts.ne_nil (starts : Starts tokens) : tokens ≠ [] := by
  obtain ⟨first, more, rfl, _⟩ := starts
  exact List.cons_ne_nil first more

theorem Starts.avoids (starts : Starts tokens) {symbols : List Symbol}
    (noParen : Symbol.openParen ∉ symbols) (noBracket : Symbol.openBracket ∉ symbols) :
    Avoids symbols (tokens ++ rest) := by
  obtain ⟨first, more, rfl, kind, _⟩ := starts
  rintro _ ⟨⟩ symbol member same
  rw [same] at kind
  simp only [List.mem_cons, List.not_mem_nil, reduceCtorEq, Kind.symbol.injEq, false_or,
    or_false] at kind
  rcases kind with rfl | rfl
  · exact noParen member
  · exact noBracket member

theorem Starts.atStatementEnd (starts : Starts tokens) (rest : List Token) :
    Tree.atStatementEnd (tokens ++ rest) = false := by
  obtain ⟨first, more, rfl, kind, _⟩ := starts
  unfold Tree.atStatementEnd
  split <;> simp_all

theorem Starts.not_keyword (starts : Starts tokens) (rest : List Token) :
    ∀ token ∈ (tokens ++ rest).head?,
      token.kind ≠ .keyword .const ∧ token.kind ≠ .keyword .return := by
  obtain ⟨first, more, rfl, kind, _⟩ := starts
  rintro _ ⟨⟩
  constructor <;> intro is <;> simp [is] at kind

theorem Starts.length_pos (starts : Starts tokens) : 0 < tokens.length :=
  List.length_pos_of_ne_nil starts.ne_nil

/-! ### Operands -/

theorem literal_parses (isLiteral : token.kind = .number ∨ token.kind = .quoted ∨
    token.kind = .keyword .true ∨ token.kind = .keyword .false) : ParsesPrimary [token] := by
  intro rest depth enough
  obtain ⟨depth, rfl⟩ : ∃ fewer, depth = fewer + 1 := ⟨depth - 1, by simp at enough; omega⟩
  rcases isLiteral with is | is | is | is
  · exact ⟨_, Tree.parsePrimary_number is⟩
  · exact ⟨_, Tree.parsePrimary_quoted is⟩
  · exact ⟨.bool true _, Tree.parsePrimary_bool is⟩
  · exact ⟨.bool false _, Tree.parsePrimary_bool is⟩

theorem name_parses (isName : token.kind = .name) : ParsesPrimary [token] := by
  intro rest depth enough
  obtain ⟨depth, rfl⟩ : ∃ fewer, depth = fewer + 1 := ⟨depth - 1, by simp at enough; omega⟩
  exact ⟨_, Tree.parsePrimary_name isName⟩

theorem array_parses (opens : opening.kind = .symbol .openBracket) (elements : ParsesItems inner)
    (closes : closing.kind = .symbol .closeBracket) :
    ParsesPrimary (opening :: inner ++ [closing]) := by
  intro rest depth enough
  simp only [List.length_cons, List.length_append, List.length_nil] at enough
  obtain ⟨depth, rfl⟩ : ∃ fewer, depth = fewer + 1 := ⟨depth - 1, by omega⟩
  obtain ⟨⟨items, close⟩, parsed⟩ := elements closing .closeBracket rest depth (.inr rfl) closes
    (by omega)
  rw [List.append_assoc]
  exact ⟨_, Tree.parsePrimary_array opens parsed⟩

theorem group_parses (opens : opening.kind = .symbol .openParen) (value : ParsesExpr inner)
    (closes : closing.kind = .symbol .closeParen) :
    ParsesPrimary (opening :: inner ++ [closing]) := by
  intro rest depth enough
  simp only [List.length_cons, List.length_append, List.length_nil] at enough
  obtain ⟨depth, rfl⟩ : ∃ fewer, depth = fewer + 1 := ⟨depth - 1, by omega⟩
  have few : 10 * inner.length ≤ depth := by omega
  obtain ⟨expr, parsed⟩ := value.upTo closes (by simp) rest few
  rw [List.append_assoc]
  exact ⟨_, Tree.parsePrimary_group opens parsed closes⟩

theorem noItem_parses : ParsesItems [] := by
  intro closing symbol rest depth _ closes enough
  obtain ⟨depth, rfl⟩ : ∃ fewer, depth = fewer + 1 := ⟨depth - 1, by simp at enough; omega⟩
  exact ⟨_, Tree.parseItems_nil closes⟩

theorem lastItem_parses (starts : Starts inner) (value : ParsesExpr inner) :
    ParsesItems inner := by
  intro closing symbol rest depth closer closes enough
  obtain ⟨depth, rfl⟩ : ∃ fewer, depth = fewer + 1 := ⟨depth - 1, by omega⟩
  have few : 10 * inner.length ≤ depth := by omega
  have stops : symbol ∈ [Symbol.closeParen, .closeBracket, .comma, .semicolon] := by
    rcases closer with rfl | rfl <;> simp
  obtain ⟨expr, parsed⟩ := value.upTo closes stops rest few
  have opens : Avoids [symbol] (inner ++ closing :: rest) := by
    rcases closer with rfl | rfl <;> exact starts.avoids (by simp) (by simp)
  refine ⟨_, Tree.parseItems_last opens parsed closes ?_⟩
  rcases closer with rfl | rfl <;> simp

theorem item_parses {comma : Token} (starts : Starts inner) (value : ParsesExpr inner)
    (goesOn : comma.kind = .symbol .comma) (more : ParsesItems after) :
    ParsesItems (inner ++ comma :: after) := by
  intro closing symbol rest depth closer closes enough
  simp only [List.length_cons, List.length_append] at enough
  obtain ⟨depth, rfl⟩ : ∃ fewer, depth = fewer + 1 := ⟨depth - 1, by omega⟩
  have few : 10 * inner.length ≤ depth := by omega
  obtain ⟨expr, parsed⟩ := value.upTo goesOn (by simp) (after ++ closing :: rest) few
  obtain ⟨⟨items, close⟩, parsedMore⟩ := more closing symbol rest depth closer closes (by omega)
  have opens : Avoids [symbol] (inner ++ comma :: (after ++ closing :: rest)) := by
    rcases closer with rfl | rfl <;> exact starts.avoids (by simp) (by simp)
  rw [List.append_assoc]
  exact ⟨_, Tree.parseItems_cons opens parsed goesOn parsedMore⟩

theorem noSuffix_parses : ParsesSuffixes [] := by
  intro value rest depth avoids enough
  obtain ⟨depth, rfl⟩ : ∃ fewer, depth = fewer + 1 := ⟨depth - 1, by simp at enough; omega⟩
  exact ⟨value, Tree.parseSuffixes_end avoids⟩

theorem call_parses (opens : opening.kind = .symbol .openParen) (arguments : ParsesItems inner)
    (closes : closing.kind = .symbol .closeParen) (more : ParsesSuffixes after) :
    ParsesSuffixes (opening :: inner ++ closing :: after) := by
  intro value rest depth avoids enough
  simp only [List.length_cons, List.length_append] at enough
  obtain ⟨depth, rfl⟩ : ∃ fewer, depth = fewer + 1 := ⟨depth - 1, by omega⟩
  obtain ⟨⟨items, close⟩, parsed⟩ := arguments closing .closeParen (after ++ rest) depth (.inl rfl)
    closes (by omega)
  rw [List.append_assoc]
  rw [show opening :: inner ++ (closing :: after ++ rest) =
    opening :: (inner ++ closing :: (after ++ rest)) from rfl, Tree.parseSuffixes_call opens parsed]
  exact more _ rest depth avoids (by omega)

theorem index_parses (opens : opening.kind = .symbol .openBracket) (position : ParsesExpr inner)
    (closes : closing.kind = .symbol .closeBracket) (more : ParsesSuffixes after) :
    ParsesSuffixes (opening :: inner ++ closing :: after) := by
  intro value rest depth avoids enough
  simp only [List.length_cons, List.length_append] at enough
  obtain ⟨depth, rfl⟩ : ∃ fewer, depth = fewer + 1 := ⟨depth - 1, by omega⟩
  have few : 10 * inner.length ≤ depth := by omega
  obtain ⟨expr, parsed⟩ := position.upTo closes (by simp) (after ++ rest) few
  rw [List.append_assoc]
  rw [show opening :: inner ++ (closing :: after ++ rest) =
    opening :: (inner ++ closing :: (after ++ rest)) from rfl,
    Tree.parseSuffixes_index opens parsed closes]
  exact more _ rest depth avoids (by omega)

theorem operand_parses (starts : Starts before) (primary : ParsesPrimary before)
    (suffixes : ParsesSuffixes after) : ParsesOperand (before ++ after) := by
  intro rest depth avoids enough
  have some := starts.length_pos
  rw [List.length_append] at enough
  obtain ⟨depth, rfl⟩ : ∃ fewer, depth = fewer + 1 := ⟨depth - 1, by omega⟩
  obtain ⟨value, parsed⟩ := primary (after ++ rest) depth (by omega)
  rw [List.append_assoc, Tree.parseOperand_of_primary parsed]
  exact suffixes value rest depth avoids (by omega)

/-! ### Operators -/

/-- Operators, each with the operand after it, as tokens in a row. -/
def joined (links : List (Token × List Token)) : List Token :=
  links.flatMap fun link => link.1 :: link.2

/-- An operator with an operand after it that is parsed. -/
def Linked (link : Token × List Token) : Prop :=
  (∃ operator, link.1.kind = .symbol (.binary operator)) ∧ ParsesOperand link.2

/-- The tokens are operators, each with an operand after it that is parsed. -/
def ParsesOperators (tokens : List Token) : Prop :=
  ∃ links, tokens = joined links ∧ ∀ link ∈ links, Linked link

/-- The tokens are parsed as operands with operators between them. -/
def ParsesChain (tokens : List Token) : Prop :=
  ∀ (rest : List Token) (depth : Nat),
    (∀ token ∈ rest.head?, ∀ operator, token.kind ≠ .symbol (.binary operator)) →
    Avoids [.openParen, .openBracket] rest → 10 * tokens.length ≤ depth + 2 →
    ∃ value, Tree.parseBinary depth 1 (tokens ++ rest) = .ok (value, rest)

theorem noOperator_parses : ParsesOperators [] :=
  ⟨[], rfl, List.forall_mem_nil _⟩

theorem operator_parses {operator : Operator} (joins : token.kind = .symbol (.binary operator))
    (operand : ParsesOperand inner) (more : ParsesOperators after) :
    ParsesOperators (token :: inner ++ after) := by
  obtain ⟨links, rfl, linked⟩ := more
  exact ⟨(token, inner) :: links, rfl,
    List.forall_mem_cons.mpr ⟨⟨⟨operator, joins⟩, operand⟩, linked⟩⟩

theorem avoids_joined {links : List (Token × List Token)} (linked : ∀ link ∈ links, Linked link)
    (avoids : Avoids [.openParen, .openBracket] rest) :
    Avoids [.openParen, .openBracket] (joined links ++ rest) := by
  cases links with
  | nil => exact avoids
  | cons link links =>
    obtain ⟨⟨operator, joins⟩, _⟩ := linked link (by simp)
    exact avoids_cons joins (by simp)

/-- An operator that binds too loosely is left for an outer chain. -/
theorem parseOperators_loose {operator : Operator} {depth least : Nat}
    (joins : token.kind = .symbol (.binary operator)) (loose : operator.precedence < least)
    (left : Expr) (links : List (Token × List Token)) :
    Tree.parseOperators (depth + 1) least left (joined ((token, inner) :: links) ++ rest) =
      .ok (left, joined ((token, inner) :: links) ++ rest) := by
  refine Tree.parseOperators_end ?_
  rintro _ ⟨⟩ other is
  cases joins.symm.trans is
  exact loose

/-- Reading operators of at least some precedence ends before an operator that binds more loosely,
or after the last one. The induction is on the number of operators: what a right operand leaves is
shorter than what it was read from. -/
theorem parseOperators_links (loose : ∀ token ∈ rest.head?, ∀ operator,
      token.kind ≠ .symbol (.binary operator)) (avoids : Avoids [.openParen, .openBracket] rest)
    (count : Nat) (links : List (Token × List Token)) (few : links.length ≤ count)
    (linked : ∀ link ∈ links, Linked link) (depth least : Nat)
    (enough : 10 * (joined links).length < depth) (left : Expr) :
    ∃ value remaining, remaining <:+ links ∧
      Tree.parseOperators depth least left (joined links ++ rest) =
        .ok (value, joined remaining ++ rest) ∧
      ∀ link ∈ remaining.head?, ∀ operator, link.1.kind = .symbol (.binary operator) →
        operator.precedence < least := by
  induction count generalizing links depth least left with
  | zero =>
    obtain rfl := List.length_eq_zero_iff.mp (Nat.le_zero.mp few)
    obtain ⟨depth, rfl⟩ : ∃ fewer, depth = fewer + 1 := ⟨depth - 1, by omega⟩
    refine ⟨left, [], List.suffix_rfl, Tree.parseOperators_end ?_, by simp⟩
    exact fun token member operator is => absurd is (loose token member operator)
  | succ count inductionHypothesis =>
    match links with
    | [] => exact inductionHypothesis [] (Nat.zero_le _) linked depth least enough left
    | (symbol, operand) :: links =>
      obtain ⟨⟨⟨operator, joins⟩, parses⟩, linkedMore⟩ := List.forall_mem_cons.mp linked
      have few : links.length ≤ count := Nat.le_of_succ_le_succ few
      have enough : 10 * (operand.length + 1 + (joined links).length) < depth := by
        simp [joined] at enough ⊢
        omega
      obtain ⟨depth, rfl⟩ : ∃ fewer, depth = fewer + 2 := ⟨depth - 2, by omega⟩
      by_cases tight : least ≤ operator.precedence
      · have short : 10 * operand.length ≤ depth + 3 := by omega
        obtain ⟨first, parsedFirst⟩ := parses (joined links ++ rest) depth
          (avoids_joined linkedMore avoids) short
        obtain ⟨right, middle, suffix, parsedRight, _⟩ := inductionHypothesis links few linkedMore
          depth (operator.precedence + 1) (by omega) first
        have shorter : (joined middle).length ≤ (joined links).length := by
          obtain ⟨taken, rfl⟩ := suffix
          simp [joined]
        obtain ⟨value, remaining, suffix', parsed, looser⟩ := inductionHypothesis middle
          (suffix.length_le.trans few) (fun link member => linkedMore link (suffix.mem member))
          (depth + 1) least (by omega)
          (.binary operator left right { span := Span.join left.span right.span })
        refine ⟨value, remaining, suffix'.trans (suffix.trans (List.suffix_cons _ _)), ?_, looser⟩
        rw [← parsed, ← Tree.parseOperators_cons joins tight
          ((Tree.parseBinary_of_operand parsedFirst).trans parsedRight)]
        simp [joined]
      · have stops : operator.precedence < least := Nat.lt_of_not_le tight
        refine ⟨left, (symbol, operand) :: links, List.suffix_rfl,
          parseOperators_loose joins stops left links, ?_⟩
        rintro _ ⟨⟩ other is
        cases joins.symm.trans is
        exact stops

theorem chain_parses (starts : Starts before) (operand : ParsesOperand before)
    (operators : ParsesOperators after) : ParsesChain (before ++ after) := by
  intro rest depth loose avoids enough
  have some := starts.length_pos
  rw [List.length_append] at enough
  obtain ⟨depth, rfl⟩ : ∃ fewer, depth = fewer + 1 := ⟨depth - 1, by omega⟩
  obtain ⟨links, rfl, linked⟩ := operators
  obtain ⟨first, parsed⟩ := operand (joined links ++ rest) depth (avoids_joined linked avoids)
    (by omega)
  obtain ⟨value, remaining, suffix, parsed', looser⟩ := parseOperators_links loose avoids
    links.length links le_rfl linked depth 1 (by omega) first
  obtain rfl : remaining = [] := by
    cases remaining with
    | nil => rfl
    | cons link remaining =>
      -- Every operator binds at least as tightly as the loosest one.
      obtain ⟨⟨operator, joins⟩, _⟩ := linked link (suffix.mem (by simp))
      have loosest : 1 ≤ operator.precedence := by cases operator <;> decide
      exact absurd (looser link rfl operator joins) (Nat.not_lt.mpr loosest)
  exact ⟨value, by rw [List.append_assoc, Tree.parseBinary_of_operand parsed, parsed']; rfl⟩

/-! ### Conditional expressions and arrow functions -/

theorem Grouped.endsGrouped (grouped : Grouped tokens) : EndsGrouped tokens :=
  ⟨[], tokens, rfl, grouped, by simp⟩

/-- What ends in a name in parentheses does so as the last part of something longer. -/
theorem EndsGrouped.append (ends : EndsGrouped after) (before : List Token)
    (separates : token.kind = .symbol .colon ∨ token.kind = .symbol .arrow) :
    EndsGrouped (before ++ token :: after) := by
  obtain ⟨middle, group, rfl, grouped, last⟩ := ends
  refine ⟨before ++ token :: middle, group, by simp, grouped, ?_⟩
  rw [List.getLast?_append, List.getLast?_cons]
  cases lastIs : middle.getLast? with
  | none => simpa [lastIs] using separates
  | some token' => simpa using last token' lastIs

theorem unconditional_parses (phrase : Phrase Admits .chain tokens) (chain : ParsesChain tokens) :
    ParsesExpr tokens := by
  intro rest depth stops enough uncaptured
  have some := (begins_phrase phrase).length_pos
  obtain ⟨depth, rfl⟩ : ∃ fewer, depth = fewer + 2 := ⟨depth - 2, by omega⟩
  have headless : Tree.arrowHead? (tokens ++ rest) = none :=
    arrowHead?_chain phrase (stops.avoids (by decide)) fun grouped => uncaptured grouped.endsGrouped
  have loose : ∀ token ∈ rest.head?, ∀ operator, token.kind ≠ .symbol (.binary operator) := by
    intro token member operator is
    have stop := stops token member
    simp [is] at stop
  obtain ⟨value, parsed⟩ := chain rest depth loose (stops.avoids (by decide)) (by omega)
  exact ⟨value, Tree.parseExpr_of_conditional headless
    (Tree.parseConditional_of_binary parsed (stops.avoids (by decide)))⟩

theorem conditional_parses {question colon : Token} (phrase : Phrase Admits .chain before)
    (test : ParsesChain before) (asks : question.kind = .symbol .question)
    (consequent : ParsesExpr inner) (separates : colon.kind = .symbol .colon)
    (alternatePhrase : Phrase Admits .expr after) (alternate : ParsesExpr after)
    (apart : Apart inner after) :
    ParsesExpr (before ++ question :: inner ++ colon :: after) := by
  intro rest depth stops enough uncaptured
  simp only [List.length_append, List.length_cons] at enough
  obtain ⟨depth, rfl⟩ : ∃ fewer, depth = fewer + 2 := ⟨depth - 2, by omega⟩
  rw [show before ++ question :: inner ++ colon :: after ++ rest =
    before ++ question :: (inner ++ colon :: (after ++ rest)) by simp]
  have headless :
      Tree.arrowHead? (before ++ question :: (inner ++ colon :: (after ++ rest))) = none :=
    arrowHead?_chain phrase (avoids_cons asks (by simp)) fun _ => not_captures asks (by simp)
  obtain ⟨testValue, testParsed⟩ := test (question :: (inner ++ colon :: (after ++ rest))) depth
    (by rintro _ ⟨⟩ operator is; simp [asks] at is) (avoids_cons asks (by simp)) (by omega)
  obtain ⟨consequentValue, consequentParsed⟩ := consequent (colon :: (after ++ rest)) depth
    (stops_cons separates (by simp)) (by omega) (by
      rintro ends ⟨_, _, ⟨⟩, _, typed⟩
      exact apart ⟨ends, typed.of_append alternatePhrase stops⟩)
  obtain ⟨alternateValue, alternateParsed⟩ := alternate rest depth stops (by omega) (by
      intro ends
      exact uncaptured (ends.append _ (.inl separates)))
  exact ⟨_, Tree.parseExpr_of_conditional headless (Tree.parseConditional_branches testParsed asks
    consequentParsed separates alternateParsed)⟩

theorem valueBody_parses (starts : Starts inner) (value : ParsesExpr inner) : ParsesBody inner := by
  intro head rest depth stops enough uncaptured
  obtain ⟨depth, rfl⟩ : ∃ fewer, depth = fewer + 1 := ⟨depth - 1, by omega⟩
  obtain ⟨expr, parsed⟩ := value rest depth stops (by omega) uncaptured
  exact ⟨_, Tree.parseArrow_value (starts.avoids (by simp) (by simp)) parsed⟩

theorem blockBody_parses (opens : opening.kind = .symbol .openBrace) (block : ParsesBlock inner)
    (closes : closing.kind = .symbol .closeBrace) : ParsesBody (opening :: inner ++ [closing]) := by
  intro head rest depth stops enough uncaptured
  simp only [List.length_cons, List.length_append, List.length_nil] at enough
  obtain ⟨depth, rfl⟩ : ∃ fewer, depth = fewer + 1 := ⟨depth - 1, by omega⟩
  obtain ⟨⟨statements, close⟩, parsed⟩ := block closing rest depth closes (by omega)
  rw [List.append_assoc]
  exact ⟨_, Tree.parseArrow_block opens parsed⟩

theorem nameArrow_parses (isName : name.kind = .name) (points : arrow.kind = .symbol .arrow)
    (body : ParsesBody after) : ParsesExpr (name :: arrow :: after) := by
  intro rest depth stops enough uncaptured
  simp only [List.length_cons] at enough
  obtain ⟨depth, rfl⟩ : ∃ fewer, depth = fewer + 1 := ⟨depth - 1, by omega⟩
  obtain ⟨value, parsed⟩ := body ⟨name.span, [{ name := name.text, info := { span := name.span } }],
    none⟩ rest depth stops (by omega) fun ends => uncaptured (ends.append [name] (.inr points))
  refine ⟨value, Tree.parseExpr_of_arrow ?_ parsed⟩
  obtain ⟨kind, text, span⟩ := name
  obtain ⟨kind', text', span'⟩ := arrow
  cases isName
  cases points
  rfl

theorem paramsArrow_parses {declaration : List Token} (opens : opening.kind = .symbol .openParen)
    (params : ParsesParams inner) (closes : closing.kind = .symbol .closeParen)
    (declared : ParsesDeclared declaration) (points : arrow.kind = .symbol .arrow)
    (body : ParsesBody after) :
    ParsesExpr (opening :: inner ++ closing :: declaration ++ arrow :: after) := by
  intro rest depth stops enough uncaptured
  simp only [List.length_cons, List.length_append] at enough
  obtain ⟨depth, rfl⟩ : ∃ fewer, depth = fewer + 1 := ⟨depth - 1, by omega⟩
  have parens : ∃ read, Tree.parseParens
      (inner ++ closing :: (declaration ++ arrow :: (after ++ rest))) =
        .ok (read, declaration ++ arrow :: (after ++ rest)) := by
    by_cases empty : inner = []
    · subst empty
      exact ⟨[], Tree.parseParens_nil closes⟩
    · obtain ⟨read, parsed⟩ := params closing (declaration ++ arrow :: (after ++ rest))
        (depthBound (inner ++ closing :: (declaration ++ arrow :: (after ++ rest)))) closes
        (by simp only [depthBound, List.length_append]; omega) empty
      exact ⟨read, Tree.parseParens_of_params parsed⟩
  obtain ⟨read, parsedParams⟩ := parens
  obtain ⟨result, parsedResult⟩ := declared (arrow :: (after ++ rest))
    (avoids_cons points (by simp))
  obtain ⟨value, parsed⟩ := body ⟨opening.span, read, result⟩ rest depth stops (by omega)
    fun ends => uncaptured (ends.append _ (.inr points))
  refine ⟨value, Tree.parseExpr_of_arrow ?_ parsed⟩
  have headed := Tree.arrowHead?_parens opens parsedParams parsedResult points
  simpa using headed

/-! ### Statements -/

theorem noStatement_parses : ParsesBlock [] := by
  intro closing rest depth closes enough
  obtain ⟨depth, rfl⟩ : ∃ fewer, depth = fewer + 1 := ⟨depth - 1, by simp at enough; omega⟩
  exact ⟨_, Tree.parseBlock_nil closes⟩

theorem const_parses {keyword assign semicolon : Token} {declaration : List Token}
    (declares : keyword.kind = .keyword .const) (isName : name.kind = .name)
    (declared : ParsesDeclared declaration) (assigns : assign.kind = .symbol .assign)
    (init : ParsesExpr inner) (ends : semicolon.kind = .symbol .semicolon)
    (more : ParsesBlock after) :
    ParsesBlock (keyword :: name :: declaration ++ assign :: inner ++ semicolon :: after) := by
  intro closing rest depth closes enough
  simp only [List.length_cons, List.length_append] at enough
  obtain ⟨depth, rfl⟩ : ∃ fewer, depth = fewer + 2 := ⟨depth - 2, by omega⟩
  obtain ⟨stated, parsedType⟩ := declared
    (assign :: (inner ++ semicolon :: (after ++ closing :: rest))) (avoids_cons assigns (by simp))
  have few : 10 * inner.length ≤ depth := by omega
  obtain ⟨value, parsed⟩ := init.upTo ends (by simp) (after ++ closing :: rest) few
  obtain ⟨⟨statements, close⟩, parsedMore⟩ := more closing rest (depth + 1) closes (by omega)
  have statement := Tree.parseStmt_const declares isName parsedType assigns parsed ends
  refine ⟨_, Tree.parseBlock_cons ?_ (by simp) (by simpa using statement) parsedMore⟩
  rintro _ ⟨⟩ symbol _ is
  simp [declares] at is

theorem returnNothing_parses {keyword semicolon : Token}
    (returns : keyword.kind = .keyword .return) (ends : semicolon.kind = .symbol .semicolon)
    (more : ParsesBlock after) : ParsesBlock (keyword :: semicolon :: after) := by
  intro closing rest depth closes enough
  simp only [List.length_cons] at enough
  obtain ⟨depth, rfl⟩ : ∃ fewer, depth = fewer + 2 := ⟨depth - 2, by omega⟩
  obtain ⟨⟨statements, close⟩, parsedMore⟩ := more closing rest (depth + 1) closes (by omega)
  refine ⟨_, Tree.parseBlock_cons ?_ (by simp) (Tree.parseStmt_return returns ends) parsedMore⟩
  rintro _ ⟨⟩ symbol _ is
  simp [returns] at is

theorem returnValue_parses {keyword semicolon : Token} (returns : keyword.kind = .keyword .return)
    (starts : Starts inner) (argument : ParsesExpr inner)
    (ends : semicolon.kind = .symbol .semicolon) (more : ParsesBlock after) :
    ParsesBlock (keyword :: inner ++ semicolon :: after) := by
  intro closing rest depth closes enough
  simp only [List.length_cons, List.length_append] at enough
  obtain ⟨depth, rfl⟩ : ∃ fewer, depth = fewer + 2 := ⟨depth - 2, by omega⟩
  have few : 10 * inner.length ≤ depth := by omega
  obtain ⟨value, parsed⟩ := argument.upTo ends (by simp) (after ++ closing :: rest) few
  obtain ⟨⟨statements, close⟩, parsedMore⟩ := more closing rest (depth + 1) closes (by omega)
  have goesOn := starts.atStatementEnd (semicolon :: (after ++ closing :: rest))
  have statement := Tree.parseStmt_returnValue returns goesOn parsed ends
  refine ⟨_, Tree.parseBlock_cons ?_ (by simp) (by simpa using statement) parsedMore⟩
  rintro _ ⟨⟩ symbol _ is
  simp [returns] at is

theorem statement_parses {semicolon : Token} (starts : Starts inner) (value : ParsesExpr inner)
    (ends : semicolon.kind = .symbol .semicolon) (more : ParsesBlock after) :
    ParsesBlock (inner ++ semicolon :: after) := by
  intro closing rest depth closes enough
  simp only [List.length_cons, List.length_append] at enough
  obtain ⟨depth, rfl⟩ : ∃ fewer, depth = fewer + 2 := ⟨depth - 2, by omega⟩
  have few : 10 * inner.length ≤ depth := by omega
  obtain ⟨expr, parsed⟩ := value.upTo ends (by simp) (after ++ closing :: rest) few
  obtain ⟨⟨statements, close⟩, parsedMore⟩ := more closing rest (depth + 1) closes (by omega)
  have statement := Tree.parseStmt_expr (starts.not_keyword _) parsed ends
  rw [List.append_assoc]
  exact ⟨_, Tree.parseBlock_cons (starts.avoids (by simp) (by simp)) (by simp) statement parsedMore⟩

/-! ### Whole texts -/

/-- What the parser does with the phrases of each part. -/
def Accepted : Part → List Token → Prop
  | .type => ParsesType
  | .typeParams => ParsesTypeParams
  | .declared => ParsesDeclared
  | .params => ParsesParams
  | .expr => ParsesExpr
  | .body => ParsesBody
  | .block => ParsesBlock
  | .chain => ParsesChain
  | .operators => ParsesOperators
  | .operand => ParsesOperand
  | .suffixes => ParsesSuffixes
  | .items => ParsesItems
  | .primary => ParsesPrimary

/-- The parser accepts the phrases of every part, if it can tell the branches of conditional
expressions apart. -/
theorem accepted (phrase : Phrase Apart part tokens) : Accepted part tokens := by
  induction phrase with
  | typeName isName => exact typeName_parsesType isName
  | arrayType isName isArray opens _ closes element =>
    exact arrayType_parsesType isName isArray opens element closes
  | brackets _ opens closes element => exact brackets_parsesType element opens closes
  | functionType opens paramsPhrase closes points _ params result =>
    exact functionType_parsesType opens (begins_phrase paramsPhrase) params closes points result
  | noTypeParams | noParams => exact fun _ _ _ _ _ nonempty => absurd rfl nonempty
  | lastTypeParam isName separates _ type => exact lastTypeParam_parses isName separates type
  | typeParam isName separates _ goesOn _ nonempty type more =>
    exact typeParam_parses isName separates type goesOn more nonempty
  | undeclared => exact undeclared_parses
  | declared separates _ type => exact declared_parses separates type
  | lastParam isName _ declared => exact lastParam_parses isName declared
  | param isName _ goesOn _ nonempty declared more =>
    exact param_parses isName declared goesOn more nonempty
  | nameArrow isName points _ body => exact nameArrow_parses isName points body
  | paramsArrow opens _ closes _ points _ params declared body =>
    exact paramsArrow_parses opens params closes declared points body
  | blockBody opens _ closes block => exact blockBody_parses opens block closes
  | valueBody phrase value => exact valueBody_parses (begins_phrase phrase) value
  | noStatement => exact noStatement_parses
  | const declares isName _ assigns _ ends _ declared init more =>
    exact const_parses declares isName declared assigns init ends more
  | returnNothing returns ends _ more => exact returnNothing_parses returns ends more
  | returnValue returns phrase ends _ argument more =>
    exact returnValue_parses returns (begins_phrase phrase) argument ends more
  | statement phrase ends _ value more =>
    exact statement_parses (begins_phrase phrase) value ends more
  | conditional testPhrase asks _ separates alternatePhrase apart test consequent alternate =>
    exact conditional_parses testPhrase test asks consequent separates alternatePhrase alternate
      apart
  | unconditional phrase chain => exact unconditional_parses phrase chain
  | chain phrase _ operand operators => exact chain_parses (begins_phrase phrase) operand operators
  | noOperator => exact noOperator_parses
  | operator joins _ _ operand more => exact operator_parses joins operand more
  | operand phrase _ primary suffixes =>
    exact operand_parses (begins_phrase phrase) primary suffixes
  | noSuffix => exact noSuffix_parses
  | call opens _ closes _ arguments more => exact call_parses opens arguments closes more
  | index opens _ closes _ position more => exact index_parses opens position closes more
  | noItem => exact noItem_parses
  | lastItem phrase value => exact lastItem_parses (begins_phrase phrase) value
  | item phrase goesOn _ value more => exact item_parses (begins_phrase phrase) value goesOn more
  | literal isLiteral => exact literal_parses isLiteral
  | name isName => exact name_parses isName
  | array opens _ closes elements => exact array_parses opens elements closes
  | group opens _ closes value => exact group_parses opens value closes

/-! ### Small phrases -/

/-- A name alone is an operand with no operators, calls or indices. -/
theorem phrase_name (isName : name.kind = .name) : Phrase Admits .chain [name] :=
  .chain (.operand (.name isName) .noSuffix) .noOperator

/-- A name in parentheses is an expression. -/
theorem phrase_grouped (opens : opening.kind = .symbol .openParen) (isName : name.kind = .name)
    (closes : closing.kind = .symbol .closeParen) :
    Phrase Admits .expr [opening, name, closing] :=
  .unconditional (.chain (.operand (.group opens (.unconditional (phrase_name isName)) closes)
    .noSuffix) .noOperator)

/-- What stands before an arrow function with one parameter in parentheses is told apart from it, if
a name is its body. -/
theorem apart_arrow {value : Token} (opens : opening.kind = .symbol .openParen)
    (isName : name.kind = .name) (closes : closing.kind = .symbol .closeParen)
    (isName' : value.kind = .name) (consequent : List Token) :
    Apart consequent [opening, name, closing, arrow, value] := by
  rintro ⟨_, read, written, arrow', left, split, _, unclosed, points⟩
  -- The arrow is the fourth token, so that the type would end in the parenthesis.
  rcases read with _ | ⟨_, _ | ⟨_, _ | ⟨_, _ | ⟨_, _ | ⟨_, read⟩⟩⟩⟩⟩ <;> simp at split
  · simp [← split.1, opens] at points
  · simp [← split.2.1, isName] at points
  · simp [← split.2.2.1, closes] at points
  · exact unclosed _ rfl (split.2.2.1 ▸ closes)
  · simp [← split.2.2.2.2.1, isName'] at points

end Stated

/-- A text whose tokens are an expression of the stated grammar is parsed, if no conditional
expression in it has a colon that could be that of a result type. -/
theorem parse_stated (text : String) (tokens : List Token) (lexed : Token.lex text = .ok tokens)
    (phrase : Stated.Phrase Stated.Apart .expr tokens) : ∃ value, Expr.parse text = .ok value := by
  have uncaptured : ¬Stated.Captures [] := by
    rintro ⟨_, _, ⟨⟩, _⟩
  obtain ⟨value, parsed⟩ := Stated.accepted phrase [] (Token.depthBound tokens)
    (by simp [Stated.Stops]) (by simp only [Token.depthBound]; omega) fun _ => uncaptured
  rw [List.append_nil] at parsed
  refine ⟨value, ?_⟩
  rw [Expr.parse, Token.ofText, lexed]
  show (Tree.parseExpr (Token.depthBound tokens) tokens >>= _) = _
  rw [parsed]
  rfl

/-- A conditional expression whose first branch is in parentheses and whose second branch is an
arrow function with its parameter in parentheses, in an argument. -/
def groupedBranch : String :=
  "f((x: t[]) => a ? (b) : (c) => d)"

theorem lex_groupedBranch : Token.lex groupedBranch = .ok
    [⟨.name, "f", ⟨0, 1⟩⟩, ⟨.symbol .openParen, "(", ⟨1, 2⟩⟩, ⟨.symbol .openParen, "(", ⟨2, 3⟩⟩,
      ⟨.name, "x", ⟨3, 4⟩⟩, ⟨.symbol .colon, ":", ⟨4, 5⟩⟩, ⟨.name, "t", ⟨6, 7⟩⟩,
      ⟨.symbol .openBracket, "[", ⟨7, 8⟩⟩, ⟨.symbol .closeBracket, "]", ⟨8, 9⟩⟩,
      ⟨.symbol .closeParen, ")", ⟨9, 10⟩⟩, ⟨.symbol .arrow, "=>", ⟨11, 13⟩⟩, ⟨.name, "a", ⟨14, 15⟩⟩,
      ⟨.symbol .question, "?", ⟨16, 17⟩⟩, ⟨.symbol .openParen, "(", ⟨18, 19⟩⟩,
      ⟨.name, "b", ⟨19, 20⟩⟩, ⟨.symbol .closeParen, ")", ⟨20, 21⟩⟩, ⟨.symbol .colon, ":", ⟨22, 23⟩⟩,
      ⟨.symbol .openParen, "(", ⟨24, 25⟩⟩, ⟨.name, "c", ⟨25, 26⟩⟩,
      ⟨.symbol .closeParen, ")", ⟨26, 27⟩⟩, ⟨.symbol .arrow, "=>", ⟨28, 30⟩⟩,
      ⟨.name, "d", ⟨31, 32⟩⟩, ⟨.symbol .closeParen, ")", ⟨32, 33⟩⟩] := by
  decide +kernel

theorem parse_stated_groupedBranch :
    ∃ tokens, Token.lex groupedBranch = .ok tokens ∧
      Stated.Phrase Stated.Apart .expr tokens ∧ ∃ value, Expr.parse groupedBranch = .ok value := by
  have accepted := parse_stated groupedBranch _ lex_groupedBranch
  refine ⟨_, lex_groupedBranch, ?phrase, accepted ?phrase⟩
  exact .unconditional (.chain (.operand (.name rfl) (.call rfl (.lastItem
    (.paramsArrow rfl (.lastParam rfl (.declared rfl (.brackets (.typeName rfl) rfl rfl))) rfl
      .undeclared rfl (.valueBody
        (.conditional (Stated.phrase_name rfl) rfl (Stated.phrase_grouped rfl rfl rfl) rfl
          (.paramsArrow rfl (.lastParam rfl .undeclared) rfl .undeclared rfl
            (.valueBody (.unconditional (Stated.phrase_name rfl))))
          (Stated.apart_arrow rfl rfl rfl rfl _))))) rfl .noSuffix)) .noOperator)

/-- A conditional expression whose first branch is in parentheses and whose second branch is an
arrow function with a lone parameter. -/
def capturedBranch : String :=
  "a ? (b) : c => d"

theorem lex_capturedBranch : Token.lex capturedBranch = .ok
    [⟨.name, "a", ⟨0, 1⟩⟩, ⟨.symbol .question, "?", ⟨2, 3⟩⟩, ⟨.symbol .openParen, "(", ⟨4, 5⟩⟩,
      ⟨.name, "b", ⟨5, 6⟩⟩, ⟨.symbol .closeParen, ")", ⟨6, 7⟩⟩, ⟨.symbol .colon, ":", ⟨8, 9⟩⟩,
      ⟨.name, "c", ⟨10, 11⟩⟩, ⟨.symbol .arrow, "=>", ⟨12, 14⟩⟩, ⟨.name, "d", ⟨15, 16⟩⟩] := by
  decide +kernel

/-- The tokens of the text are an expression of the grammar as it is stated, and the parser refuses
it. It accepts the text without the parentheses. -/
theorem capturedBranch_rejected :
    (∃ tokens, Token.lex capturedBranch = .ok tokens ∧
      Stated.Phrase Stated.AnyBranches .expr tokens) ∧
      Expr.parse capturedBranch = .error (.endOfInput (.symbol .colon)) ∧
      ∃ value, Expr.parse "a ? b : c => d" = .ok value := by
  refine ⟨⟨_, lex_capturedBranch, ?_⟩, ?_, ?_⟩
  · exact .conditional (Stated.phrase_name rfl) rfl (Stated.phrase_grouped rfl rfl rfl) rfl
      (.nameArrow rfl rfl (.valueBody (.unconditional (Stated.phrase_name rfl)))) trivial
  · rw [Expr.parse, Token.ofText, lex_capturedBranch]
    rfl
  · have accepts : (Expr.parse "a ? b : c => d").toOption.isSome = true := by decide +kernel
    cases parsed : Expr.parse "a ? b : c => d" with
    | ok value => exact ⟨value, rfl⟩
    | error failure =>
      rw [parsed] at accepts
      cases accepts

end ArrowCheck
