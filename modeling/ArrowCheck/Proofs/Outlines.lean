/-
This file defines the outline of a tree: the places of its nodes, and nothing else.
The children of a node come in the order in which they are written: a callee before
its arguments, an object before its index, parameters before the type of the result
and that before the body, a declared type before the value.

An outline stands for tokens in a row if every node has the place of a part of the
row, and if the children of a node stand for parts of its part, one after the
other. That is a matter of tokens only; what it says about places follows from
the order in which the tokens stand.
-/

import ArrowCheck.Proofs.TokenPlaces
import ArrowCheck.Tree.Basic

namespace ArrowCheck

/-- The places of the nodes of a tree. -/
inductive Outline where
  | node (span : Option Span) (children : List Outline)

namespace Outline

/-- The place of the node on top. -/
def span : Outline → Option Span
  | .node span _ => span

/-- The outlines below the node on top. -/
def children : Outline → List Outline
  | .node _ children => children

@[simp]
theorem span_node (span : Option Span) (children : List Outline) :
    (node span children).span = span :=
  rfl

mutual

/-- The nodes of an outline, each with what is below it. -/
def nodes : Outline → List Outline
  | .node span children => .node span children :: nodesAll children

/-- The nodes of outlines. -/
def nodesAll : List Outline → List Outline
  | [] => []
  | head :: tail => head.nodes ++ nodesAll tail

end

/-- A node has a place that runs from the start of a token to the end of that token or a later one,
so that it is not empty and ends inside the text. -/
def Placed (tokens : List Token) (size : Nat) (node : Outline) : Prop :=
  ∃ (span : Span) (start stop : Nat) (first last : Token), node.span = some span ∧ start ≤ stop ∧
    tokens[start]? = some first ∧ tokens[stop]? = some last ∧
    span.lo = first.span.lo ∧ span.hi = last.span.hi ∧ span.lo < span.hi ∧ span.hi.toNat ≤ size

/-- A node has its place inside that of another one. -/
def Inside (inner outer : Outline) : Prop :=
  ∃ span other, inner.span = some span ∧ outer.span = some other ∧
    other.lo ≤ span.lo ∧ span.hi ≤ other.hi

/-- A node ends before another one starts. -/
def Before (first second : Outline) : Prop :=
  ∃ span other, first.span = some span ∧ second.span = some other ∧ span.hi ≤ other.lo

/-- The children of a node have their places inside that of the node, one after the other. -/
structure Nested (node : Outline) : Prop where
  inside : ∀ child ∈ node.children, child.Inside node
  increasing : node.children.Pairwise Before

end Outline

/-! ### Outlines of trees -/

namespace WrittenType

mutual

/-- The outline of a written type. -/
def outline : WrittenType → Outline
  | .named _ span => .node span []
  | .array element span => .node span [element.outline]
  | .function params result span => .node span (outlines params ++ [result.outline])

/-- The outlines of written types. -/
def outlines : List WrittenType → List Outline
  | [] => []
  | head :: tail => head.outline :: outlines tail

end

/-- The outline of the type that a program declares, if it declares one. -/
def declaredOutlines (declared : Option WrittenType) : List Outline :=
  outlines declared.toList

theorem span_outline (written : WrittenType) : written.outline.span = written.span := by
  cases written <;> rfl

end WrittenType

/-- The outline of a parameter. -/
def Param.outline (param : Param) : Outline :=
  .node param.info.span (WrittenType.declaredOutlines param.declared)

mutual

/-- The outline of an expression. -/
def Expr.outline : Expr → Outline
  | .number _ info | .string _ info | .bool _ info | .ident _ info => .node info.span []
  | .binary _ left right info => .node info.span [left.outline, right.outline]
  | .conditional test consequent alternate info =>
    .node info.span [test.outline, consequent.outline, alternate.outline]
  | .arrow params result body info =>
    .node info.span
      (params.map Param.outline ++ WrittenType.declaredOutlines result ++ body.outlines)
  | .call callee arguments info => .node info.span (callee.outline :: Expr.outlines arguments)
  | .array elements info => .node info.span (Expr.outlines elements)
  | .index object position info => .node info.span [object.outline, position.outline]

/-- The outlines of expressions. -/
def Expr.outlines : List Expr → List Outline
  | [] => []
  | head :: tail => head.outline :: Expr.outlines tail

/-- The outlines of what the body of an arrow function is made of. -/
def Body.outlines : Body → List Outline
  | .value value => [value.outline]
  | .block statements => Stmt.outlines statements

/-- The outline of a statement. -/
def Stmt.outline : Stmt → Outline
  | .const _ declared init info =>
    .node info.span (WrittenType.declaredOutlines declared ++ [init.outline])
  | .return (some argument) info => .node info.span [argument.outline]
  | .return none info => .node info.span []
  | .expr value => .node value.span [value.outline]

/-- The outlines of statements. -/
def Stmt.outlines : List Stmt → List Outline
  | [] => []
  | head :: tail => head.outline :: Stmt.outlines tail

end

/-- The outline of a program. -/
def Program.outline (program : Program) : Outline :=
  .node program.info.span (Stmt.outlines program.body)

theorem Expr.span_outline (value : Expr) : value.outline.span = value.span := by
  cases value <;> rfl

/-- Moving an expression moves the node on top only. -/
theorem Expr.outline_withSpan (value : Expr) (span : Option Span) :
    (value.withSpan span).outline = .node span value.outline.children := by
  cases value <;> rfl

/-! ### Outlines of tokens in a row -/

namespace Outline

open Token

mutual

/-- An outline stands for tokens in a row. -/
inductive Stands : List Token → Outline → Prop where
  | node {tokens : List Token} {span : Span} {children : List Outline}
      (place : InOrder tokens → Extent tokens span) (within : StandWithin tokens children) :
      Stands tokens (.node (some span) children)

/-- Outlines stand for parts of a row of tokens, one after the other. -/
inductive StandWithin : List Token → List Outline → Prop where
  | nil (tokens : List Token) : StandWithin tokens []
  | cons (before : List Token) {inner after : List Token} {head : Outline} {tail : List Outline}
      (first : Stands inner head) (rest : StandWithin after tail) :
      StandWithin (before ++ inner ++ after) (head :: tail)

end

/-- A row of tokens ends with a part that has a place. -/
def Ends (tokens : List Token) (span : Option Span) : Prop :=
  ∃ before after outline, tokens = before ++ after ∧ Stands after outline ∧ outline.span = span

theorem stands_token (token : Token) : Stands [token] (.node (some token.span) []) :=
  .node (fun _ => extent_singleton token) (.nil _)

/-! ### Parts one after the other -/

namespace StandWithin

theorem append {before after : List Token} {outlines others : List Outline}
    (within : StandWithin before outlines) (within' : StandWithin after others) :
    StandWithin (before ++ after) (outlines ++ others) := by
  match within, within' with
  | .nil _, .nil _ => exact .nil _
  | .nil tokens, .cons between first rest =>
    rw [← List.append_assoc, ← List.append_assoc]
    exact .cons (tokens ++ between) first rest
  | .cons between first rest, within' =>
    rw [List.append_assoc]
    exact .cons between first (rest.append within')

theorem prepend {tokens : List Token} {outlines : List Outline}
    (within : StandWithin tokens outlines) (before : List Token) :
    StandWithin (before ++ tokens) outlines :=
  (StandWithin.nil before).append within

theorem extend {tokens : List Token} {outlines : List Outline}
    (within : StandWithin tokens outlines) (after : List Token) :
    StandWithin (tokens ++ after) outlines := by
  have whole := within.append (.nil after)
  rwa [List.append_nil] at whole

/-- An outline among those that stand for parts stands for a part. -/
theorem exists_of_mem {tokens : List Token} {outlines : List Outline} {outline : Outline}
    (within : StandWithin tokens outlines) (member : outline ∈ outlines) :
    ∃ inner, inner <:+: tokens ∧ Stands inner outline := by
  match within with
  | .nil _ => cases member
  | @StandWithin.cons before inner after _ _ first rest =>
    obtain rfl | member := List.mem_cons.mp member
    · exact ⟨inner, List.infix_append before inner after, first⟩
    · obtain ⟨part, isInfix, stands⟩ := rest.exists_of_mem member
      exact ⟨part, isInfix.trans (List.suffix_append _ _).isInfix, stands⟩

theorem exists_of_singleton {tokens : List Token} {outline : Outline}
    (within : StandWithin tokens [outline]) :
    ∃ before inner after, tokens = before ++ inner ++ after ∧ Stands inner outline := by
  cases within with
  | @cons before inner after _ _ first _ => exact ⟨before, inner, after, rfl, first⟩

end StandWithin

/-! ### Building outlines -/

section

variable {tokens before after : List Token} {outline first : Outline} {children : List Outline}
  {span : Option Span}

theorem Stands.children_within (stands : Stands tokens outline) :
    StandWithin tokens outline.children := by
  cases stands with
  | node _ within => exact within

theorem Stands.within (stands : Stands tokens outline) : StandWithin tokens [outline] := by
  have whole := StandWithin.cons [] stands (.nil [])
  rwa [List.nil_append, List.append_nil] at whole

/-- A node that takes the place of the one below it stands for the same tokens. -/
theorem Stands.alone (stands : Stands tokens outline) :
    Stands tokens (.node outline.span [outline]) := by
  have within := stands.within
  cases stands with
  | node place _ => exact .node place within

theorem Stands.ends (stands : Stands tokens outline) : Ends tokens outline.span :=
  ⟨[], tokens, outline, rfl, stands, rfl⟩

theorem Stands.exists_ends (stands : Stands tokens outline) :
    ∃ span, outline.span = some span ∧ Ends tokens (some span) := by
  have ends := stands.ends
  cases stands with
  | @node _ span _ _ _ => exact ⟨span, rfl, ends⟩

theorem Ends.prepend (ends : Ends tokens span) (before : List Token) :
    Ends (before ++ tokens) span := by
  obtain ⟨between, last, outline, rfl, stands, same⟩ := ends
  exact ⟨before ++ between, last, outline, by rw [List.append_assoc], stands, same⟩

theorem ends_token (before : List Token) (token : Token) :
    Ends (before ++ [token]) (some token.span) :=
  (stands_token token).ends.prepend before

/-- A node whose place covers what stands at both ends of its tokens. -/
theorem Stands.through (starts : Stands before first) (ends : Ends after span)
    (within : StandWithin (before ++ after) children) :
    Stands (before ++ after) (.node (Span.join first.span span) children) := by
  obtain ⟨between, last, outline, rfl, stands, rfl⟩ := ends
  cases starts with
  | node place _ =>
    cases stands with
    | node place' _ =>
      refine .node (fun ordered => ?_) within
      rw [← List.append_assoc] at ordered ⊢
      refine (place (ordered.of_infix ?_)).cover (place' (ordered.of_infix ?_)) ordered
      · exact (List.prefix_append _ _).isInfix.trans (List.prefix_append _ _).isInfix
      · exact (List.suffix_append _ _).isInfix

end

/-! ### What the order of tokens says about outlines -/

theorem Stands.exists_extent {tokens : List Token} {outline : Outline}
    (stands : Stands tokens outline) (ordered : InOrder tokens) :
    ∃ span, outline.span = some span ∧ Extent tokens span := by
  cases stands with
  | @node _ span _ place _ => exact ⟨span, rfl, place ordered⟩

theorem StandWithin.pairwise {tokens : List Token} {outlines : List Outline}
    (within : StandWithin tokens outlines) (ordered : InOrder tokens) :
    outlines.Pairwise Before := by
  match within with
  | .nil _ => exact .nil
  | @StandWithin.cons before inner after _ _ first rest =>
    have isSuffix : after <:+: before ++ inner ++ after := (List.suffix_append _ _).isInfix
    refine .cons (fun other member => ?_) (rest.pairwise (ordered.of_infix isSuffix))
    obtain ⟨part, isInfix, stands⟩ := rest.exists_of_mem member
    obtain ⟨span, spanIs, extent⟩ :=
      first.exists_extent (ordered.of_infix (List.infix_append before inner after))
    obtain ⟨span', spanIs', extent'⟩ :=
      stands.exists_extent (ordered.of_infix (isInfix.trans isSuffix))
    exact ⟨span, span', spanIs, spanIs',
      extent.hi_le_lo extent' ordered (List.suffix_append _ _).isInfix isInfix⟩

theorem Stands.nested {tokens : List Token} {outline : Outline} (stands : Stands tokens outline)
    (ordered : InOrder tokens) : outline.Nested := by
  obtain ⟨span, spanIs, extent⟩ := stands.exists_extent ordered
  refine ⟨fun child member => ?_, stands.children_within.pairwise ordered⟩
  obtain ⟨inner, isInfix, standsInner⟩ := stands.children_within.exists_of_mem member
  obtain ⟨span', spanIs', extent'⟩ := standsInner.exists_extent (ordered.of_infix isInfix)
  exact ⟨span', span, spanIs', spanIs, extent'.inside extent ordered isInfix⟩

/-- A part of a row of tokens starts with one of them and ends with that one or a later one. -/
theorem exists_ends_of_infix {tokens all : List Token} {first last : Token}
    (isInfix : tokens <:+: all) (starts : tokens.head? = some first)
    (ends : tokens.getLast? = some last) :
    ∃ start stop : Nat, start ≤ stop ∧ all[start]? = some first ∧ all[stop]? = some last := by
  obtain ⟨before, after, rfl⟩ := isInfix
  obtain ⟨rest, rfl⟩ := List.head?_eq_some_iff.mp starts
  refine ⟨before.length, before.length + rest.length, Nat.le_add_right _ _, by simp, ?_⟩
  rw [List.append_assoc, List.getElem?_append_right (Nat.le_add_right _ _), Nat.add_sub_cancel_left,
    List.getElem?_append_left (Nat.lt_succ_self _), ← ends, List.getLast?_eq_getElem?]
  rfl

section

variable {all : List Token} {size : Nat}

theorem Stands.placed {tokens : List Token} {outline : Outline} (stands : Stands tokens outline)
    (ordered : InOrder all) (bounded : ∀ token ∈ all, token.span.hi.toNat ≤ size)
    (isInfix : tokens <:+: all) : outline.Placed all size := by
  obtain ⟨span, spanIs, extent⟩ := stands.exists_extent (ordered.of_infix isInfix)
  have solid := extent.lo_lt_hi (ordered.of_infix isInfix)
  obtain ⟨first, last, starts, ends, rfl⟩ := extent
  obtain ⟨start, stop, least, found, found'⟩ := exists_ends_of_infix isInfix starts ends
  exact ⟨_, start, stop, first, last, spanIs, least, found, found', rfl, rfl, solid,
    bounded last (isInfix.mem (List.mem_of_mem_getLast? ends))⟩

mutual

/-- Every node of an outline that stands for a part of the tokens of a text has its place there, and
its children have theirs inside it. -/
theorem Stands.forall_nodes (ordered : InOrder all)
    (bounded : ∀ token ∈ all, token.span.hi.toNat ≤ size) {tokens : List Token} {outline : Outline}
    (stands : Stands tokens outline) (isInfix : tokens <:+: all) :
    ∀ node ∈ outline.nodes, node.Placed all size ∧ node.Nested := by
  have here : outline.Placed all size ∧ outline.Nested :=
    ⟨stands.placed ordered bounded isInfix, stands.nested (ordered.of_infix isInfix)⟩
  match stands with
  | .node _ within =>
    exact List.forall_mem_cons.mpr ⟨here, within.forall_nodes ordered bounded isInfix⟩

theorem StandWithin.forall_nodes (ordered : InOrder all)
    (bounded : ∀ token ∈ all, token.span.hi.toNat ≤ size) {tokens : List Token}
    {outlines : List Outline} (within : StandWithin tokens outlines) (isInfix : tokens <:+: all) :
    ∀ node ∈ nodesAll outlines, node.Placed all size ∧ node.Nested := by
  match within with
  | .nil _ => exact List.forall_mem_nil _
  | @StandWithin.cons before inner after _ _ first rest =>
    refine List.forall_mem_append.mpr ⟨first.forall_nodes ordered bounded ?_,
      rest.forall_nodes ordered bounded ?_⟩
    · exact (List.infix_append before inner after).trans isInfix
    · exact (List.suffix_append (before ++ inner) after).isInfix.trans isInfix

end

end

end Outline

end ArrowCheck
