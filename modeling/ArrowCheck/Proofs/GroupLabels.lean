/-
This file shows that the parser accepts a name in front of a type that is only
grouped, although the grammar has names only in front of the parameters of function
types. Without such names every colon belongs to a declaration, to a conditional
expression or to a function, and a function has an arrow. A text without arrows
that has more colons than declarations and questions is therefore no phrase.
-/

import ArrowCheck.Proofs.Derivations

namespace ArrowCheck.Grammar

/-- The number of tokens of a kind. -/
def count (kind : Token.Kind) (tokens : List Token) : Nat :=
  tokens.countP fun token => token.kind = kind

@[simp] theorem count_nil (kind : Token.Kind) : count kind [] = 0 :=
  rfl

@[simp] theorem count_cons (kind : Token.Kind) (token : Token) (tokens : List Token) :
    count kind (token :: tokens) = (if token.kind = kind then 1 else 0) + count kind tokens := by
  rw [count, List.countP_cons, Nat.add_comm]
  simp [count]

@[simp] theorem count_append (kind : Token.Kind) (first second : List Token) :
    count kind (first ++ second) = count kind first + count kind second :=
  List.countP_append

/-- If there is no arrow, then there are no more colons than declarations and questions. -/
def Accounted (tokens : List Token) : Prop :=
  0 < count (.symbol .arrow) tokens ∨
    count (.symbol .colon) tokens ≤
      count (.keyword .const) tokens + count (.symbol .question) tokens

/-- A type without an arrow in it has no colons. -/
theorem TypePhrase.colons {tokens : List Token} {written : WrittenType} :
    TypePhrase .plain tokens written →
      0 < count (.symbol .arrow) tokens ∨ count (.symbol .colon) tokens = 0
  | .named isName _ => by simp [isName]
  | .applied isName _ opens phrase closes _ => by simpa [isName, opens, closes] using phrase.colons
  | .brackets phrase opens closes _ => by simpa [opens, closes] using phrase.colons
  | .function _ _ _ points _ _ => by
    left
    simp only [count_append, count_cons, points, if_true]
    omega
  | .group opens allowed phrase closes => by
    rw [show _ = [] from allowed]
    simpa [opens, closes] using phrase.colons

theorem DeclaredPhrase.colons {tokens : List Token} {declared : Option WrittenType} :
    DeclaredPhrase .plain tokens declared →
      0 < count (.symbol .arrow) tokens ∨ count (.symbol .colon) tokens ≤ 1
  | .absent => by simp
  | .present separates phrase => by
    have colons := phrase.colons
    simp [separates]
    omega

theorem EndPhrase.accounted {tokens : List Token} : EndPhrase tokens → Accounted tokens
  | .absent => by simp [Accounted]
  | .present ends => by simp [Accounted, ends]

theorem Accounted.append {first second : List Token} (accounted : Accounted first)
    (accounted' : Accounted second) : Accounted (first ++ second) := by
  simp only [Accounted, count_append] at *
  omega

mutual

theorem StmtPhrase.accounted {tokens : List Token} {statement : Stmt} :
    StmtPhrase .plain tokens statement → Accounted tokens
  | .const declares isName declaredPhrase assigns phrase ends _ => by
    have colons := declaredPhrase.colons
    have inner := phrase.accounted.append ends.accounted
    simp [Accounted, declares, isName, assigns] at inner ⊢
    omega
  | .returnNothing returns ends _ => by simpa [Accounted, returns] using ends.accounted
  | .returnValue returns phrase ends _ => by
    simpa [Accounted, returns] using phrase.accounted.append ends.accounted
  | .expr phrase ends _ => phrase.accounted.append ends.accounted

theorem StmtsPhrase.accounted {tokens : List Token} {statements : List Stmt} :
    StmtsPhrase .plain tokens statements → Accounted tokens
  | .nil => by simp [Accounted]
  | .cons phrase more => phrase.accounted.append more.accounted

theorem ExprPhrase.accounted {tokens : List Token} {value : Expr} :
    ExprPhrase .plain tokens value → Accounted tokens
  | .arrow _ points _ _ => by
    left
    simp only [count_append, count_cons, points, if_true]
    omega
  | .conditional testPhrase asks consequentPhrase separates alternatePhrase _ => by
    have inner := (testPhrase.accounted.append consequentPhrase.accounted).append
      alternatePhrase.accounted
    simp [Accounted, asks, separates] at inner ⊢
    omega
  | .chain phrase => phrase.accounted

theorem ChainPhrase.accounted {top : Option Operator} {tokens : List Token} {value : Expr} :
    ChainPhrase .plain top tokens value → Accounted tokens
  | .operand phrase => phrase.accounted
  | .binary leftPhrase _ joins rightPhrase _ _ => by
    simpa [Accounted, joins] using leftPhrase.accounted.append rightPhrase.accounted

theorem OperandPhrase.accounted {tokens : List Token} {value : Expr} :
    OperandPhrase .plain tokens value → Accounted tokens
  | .primary phrase => phrase.accounted
  | .call calleePhrase opens argumentsPhrase closes _ => by
    simpa [Accounted, opens, closes] using calleePhrase.accounted.append argumentsPhrase.accounted
  | .index objectPhrase opens positionPhrase closes _ => by
    simpa [Accounted, opens, closes] using objectPhrase.accounted.append positionPhrase.accounted

theorem ItemsPhrase.accounted {tokens : List Token} {items : List Expr} :
    ItemsPhrase .plain tokens items → Accounted tokens
  | .none => by simp [Accounted]
  | .last phrase => phrase.accounted
  | .cons phrase separates more => by
    simpa [Accounted, separates] using phrase.accounted.append more.accounted

theorem PrimaryPhrase.accounted {tokens : List Token} {value : Expr} :
    PrimaryPhrase .plain tokens value → Accounted tokens
  | .number isNumber _ => by simp [Accounted, isNumber]
  | .string isQuoted _ => by simp [Accounted, isQuoted]
  | .true means _ => by simp [Accounted, means]
  | .false means _ => by simp [Accounted, means]
  | .ident isName _ => by simp [Accounted, isName]
  | .array opens phrase closes _ => by simpa [Accounted, opens, closes] using phrase.accounted
  | .group opens phrase closes _ => by simpa [Accounted, opens, closes] using phrase.accounted

end

/-! ### A text outside the plain grammar -/

/-- A constant whose declared type is grouped with a name in front of it. -/
def labelledGroup : String :=
  "const a: (x: number) = 1;"

theorem lex_labelledGroup : Token.lex labelledGroup = .ok
    [⟨.keyword .const, "const", ⟨0, 5⟩⟩, ⟨.name, "a", ⟨6, 7⟩⟩, ⟨.symbol .colon, ":", ⟨7, 8⟩⟩,
      ⟨.symbol .openParen, "(", ⟨9, 10⟩⟩, ⟨.name, "x", ⟨10, 11⟩⟩, ⟨.symbol .colon, ":", ⟨11, 12⟩⟩,
      ⟨.name, "number", ⟨13, 19⟩⟩, ⟨.symbol .closeParen, ")", ⟨19, 20⟩⟩,
      ⟨.symbol .assign, "=", ⟨21, 22⟩⟩, ⟨.number, "1", ⟨23, 24⟩⟩,
      ⟨.symbol .semicolon, ";", ⟨24, 25⟩⟩] := by
  decide +kernel

/-- The text is read as a program, and its tokens are no phrase of the plain grammar. -/
theorem labelledGroup_not_plain :
    ∃ program, Program.parse labelledGroup = .ok program ∧
      ¬∃ tokens, Token.lex labelledGroup = .ok tokens ∧
        StmtsPhrase .plain tokens program.body := by
  rw [Program.parse, Token.ofText, lex_labelledGroup]
  refine ⟨_, rfl, ?_⟩
  rintro ⟨_, ⟨⟩, phrase⟩
  have accounted := phrase.accounted
  revert accounted
  simp [Accounted]

end ArrowCheck.Grammar
