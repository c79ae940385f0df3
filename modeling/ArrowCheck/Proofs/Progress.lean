/-
This file proves that parsing makes progress. Whatever a parser reads is a phrase of
the grammar, and no phrase is empty, so a parser that succeeds leaves a proper suffix
of its tokens. The attempt to read an arrow function either finds a complete head,
which ends with an arrow, or leaves all tokens to the parser of other expressions.
-/

import ArrowCheck.Proofs.Derivations
import ArrowCheck.Proofs.Parsing

namespace ArrowCheck

open Token Grammar

variable {Value : Type}

/-! ### Phrases are not empty -/

namespace Grammar

variable {grouping : Grouping} {tokens : List Token}

theorem TypePhrase.ne_nil {written : WrittenType} (phrase : TypePhrase grouping tokens written) :
    tokens ≠ [] := by
  cases phrase <;> simp

theorem PrimaryPhrase.ne_nil {value : Expr} (phrase : PrimaryPhrase grouping tokens value) :
    tokens ≠ [] := by
  cases phrase <;> simp

theorem OperandPhrase.ne_nil {value : Expr} (phrase : OperandPhrase grouping tokens value) :
    tokens ≠ [] := by
  cases phrase with
  | primary phrase => exact phrase.ne_nil
  | call | index => simp

theorem ChainPhrase.ne_nil {top : Option Operator} {value : Expr}
    (phrase : ChainPhrase grouping top tokens value) : tokens ≠ [] := by
  cases phrase with
  | operand phrase => exact phrase.ne_nil
  | binary => simp

theorem ExprPhrase.ne_nil {value : Expr} (phrase : ExprPhrase grouping tokens value) :
    tokens ≠ [] := by
  cases phrase with
  | arrow | conditional => simp
  | chain phrase => exact phrase.ne_nil

theorem StmtPhrase.ne_nil {statement : Stmt} (phrase : StmtPhrase grouping tokens statement) :
    tokens ≠ [] := by
  cases phrase with
  | const | returnNothing | returnValue => simp
  | expr phrase => exact List.append_ne_nil_of_left_ne_nil phrase.ne_nil _

end Grammar

theorem Closed.ne_nil {closing : Symbol} {Phrase : List Token → Value → Prop} {read : List Token}
    {value : Value} (closed : Closed closing Phrase read value) : read ≠ [] := by
  obtain ⟨inner, token, rfl, _⟩ := closed
  simp

/-! ### Progress -/

/-- A parser that succeeds leaves a proper suffix of the tokens. -/
def Progresses (parser : List Token → Except ParseError (Value × List Token)) : Prop :=
  ∀ ⦃tokens : List Token⦄ ⦃value : Value⦄ ⦃rest : List Token⦄, parser tokens = .ok (value, rest) →
    rest <:+ tokens ∧ rest ≠ tokens

section

variable {parser : List Token → Except ParseError (Value × List Token)} {value : Value}
  {tokens rest : List Token}

theorem Progresses.length_lt (progresses : Progresses parser)
    (parsed : parser tokens = .ok (value, rest)) : rest.length < tokens.length := by
  obtain ⟨isSuffix, proper⟩ := progresses parsed
  exact Nat.lt_of_le_of_ne isSuffix.length_le fun same => proper (isSuffix.eq_of_length same)

theorem Reads.progresses {Phrase : List Token → Value → Prop} (reads : Reads parser Phrase)
    (nonempty : ∀ ⦃read value⦄, Phrase read value → read ≠ []) : Progresses parser := by
  intro tokens value rest parsed
  obtain ⟨read, rfl, phrase⟩ := reads parsed
  exact ⟨List.suffix_append read rest, fun same =>
    nonempty phrase (List.self_eq_append_left.mp same)⟩

end

theorem takeSymbol_progresses (symbol : Symbol) : Progresses (takeSymbol symbol) := by
  intro tokens span rest taken
  obtain ⟨token, rfl, _⟩ := exists_of_takeSymbol_eq_ok taken
  exact ⟨List.suffix_cons token rest, (List.cons_ne_self token rest).symm⟩

theorem takeName_progresses : Progresses takeName := by
  rintro tokens ⟨name, span⟩ rest taken
  obtain ⟨token, rfl, _⟩ := exists_of_takeName_eq_ok taken
  exact ⟨List.suffix_cons token rest, (List.cons_ne_self token rest).symm⟩

namespace WrittenType

theorem parseType_progresses (depth : Nat) : Progresses (parseType depth) :=
  (sound depth).type.progresses fun _ _ => TypePhrase.ne_nil

theorem parseAtom_progresses (depth : Nat) : Progresses (parseAtom depth) :=
  (sound depth).atom.progresses fun _ _ => TypePhrase.ne_nil

theorem parens_progresses (depth : Nat) : Progresses (takeParens (parseParams depth)) :=
  (parens_reads (sound depth)).progresses fun _ _ => Closed.ne_nil

theorem length_dropParamName_le (tokens : List Token) :
    (dropParamName tokens).length ≤ tokens.length := by
  obtain ⟨label, split, _⟩ := dropParamName_phrase tokens
  exact List.IsSuffix.length_le ⟨label, split.symm⟩

/-- The pairs of brackets after a type are taken off until none is left. -/
theorem brackets_ends (element : WrittenType) (tokens : List Token) :
    (brackets element tokens).2 <:+ tokens ∧
      brackets (brackets element tokens).1 (brackets element tokens).2 =
        brackets element tokens := by
  fun_induction brackets element tokens with
  | case1 element text opening text' closing rest inductionHypothesis =>
    obtain ⟨isSuffix, ended⟩ := inductionHypothesis
    exact ⟨isSuffix.trans ⟨[_, _], rfl⟩, ended⟩
  | case2 element tokens other => exact ⟨List.suffix_rfl, by rw [brackets]; exact other⟩

end WrittenType

namespace Tree

theorem parseDeclared_length_le {tokens rest : List Token} {declared : Option WrittenType}
    (parsed : parseDeclared tokens = .ok (declared, rest)) : rest.length ≤ tokens.length := by
  obtain ⟨read, split, _⟩ := parseDeclared_reads parsed
  exact List.IsSuffix.length_le ⟨read, split.symm⟩

theorem arrowHead?_length_lt {tokens rest : List Token} {head : ArrowHead}
    (found : arrowHead? tokens = some (head, rest)) : rest.length < tokens.length := by
  obtain ⟨before, arrow, rfl, _⟩ := arrowHead?_phrase found
  simp only [List.length_append, List.length_cons]
  omega

variable (depth : Nat)

theorem parseStmt_progresses : Progresses (parseStmt depth) :=
  (sound depth).stmt.progresses fun _ _ => StmtPhrase.ne_nil

theorem parseExpr_progresses : Progresses (parseExpr depth) :=
  (sound depth).expr.progresses fun _ _ => ExprPhrase.ne_nil

theorem parseConditional_progresses : Progresses (parseConditional depth) :=
  (sound depth).conditional.progresses fun _ _ => ExprPhrase.ne_nil

theorem parseBinary_progresses (least : Nat) : Progresses (parseBinary depth least) := by
  have reads : Reads (parseBinary depth least) fun read value =>
      ∃ top, ChainPhrase .labelled top read value := by
    intro tokens value rest parsed
    obtain ⟨read, top, split, phrase, _⟩ := (sound depth).binary parsed
    exact ⟨read, split, top, phrase⟩
  refine reads.progresses ?_
  rintro read value ⟨top, phrase⟩
  exact phrase.ne_nil

theorem parseOperand_progresses : Progresses (parseOperand depth) :=
  (sound depth).operand.progresses fun _ _ => OperandPhrase.ne_nil

theorem parseItems_progresses (closing : Symbol) : Progresses (parseItems depth closing) :=
  ((sound depth).items closing).progresses fun _ _ => Closed.ne_nil

theorem parsePrimary_progresses : Progresses (parsePrimary depth) :=
  (sound depth).primary.progresses fun _ _ => PrimaryPhrase.ne_nil

/-! ### Attempts at arrow functions -/

/-- Where the attempt gives no arrow function, an expression of another form is read from what it
leaves. -/
theorem parseExpr_eq_tryArrow (tokens : List Token) :
    parseExpr (depth + 1) tokens = tryArrow (parseArrow depth) tokens >>= fun result =>
      result.1.elim (parseConditional depth result.2) fun value => .ok (value, result.2) := by
  rw [parseExpr]
  refine bind_congr fun result => ?_
  obtain ⟨arrow, rest⟩ := result
  cases arrow <;> rfl

theorem eq_of_tryArrow_eq_none {parseBody : ArrowHead → List Token →
      Except ParseError (Expr × List Token)} {tokens rest : List Token}
    (tried : tryArrow parseBody tokens = .ok (none, rest)) : rest = tokens := by
  rw [tryArrow] at tried
  split at tried
  · obtain ⟨⟨value, left⟩, _, done⟩ := exists_of_bind_eq_ok tried
    cases done
  · cases tried
    rfl

theorem suffix_of_tryArrow_eq_some {tokens rest : List Token} {value : Expr}
    (tried : tryArrow (parseArrow depth) tokens = .ok (some value, rest)) :
    rest <:+ tokens ∧ rest ≠ tokens := by
  have parsed : parseExpr (depth + 1) tokens = .ok (value, rest) := by
    rw [parseExpr_eq_tryArrow, tried]
    rfl
  exact parseExpr_progresses (depth + 1) parsed

end Tree

end ArrowCheck
