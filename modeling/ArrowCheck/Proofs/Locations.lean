/-
This file proves that everything that is said about a program is said at a place of
it. Names are found wrong where they are used or declared, and types where the
nodes stand whose types do not fit. In the tree of a parsed text every node has a
place, so that no diagnostic about it lacks one.

Where a tree stands is a parameter of the proofs: they show that diagnostics are
at places of the tree, whatever these are. That the places of a parsed tree are
not empty and inside the text is a matter of parsing.
-/

import ArrowCheck.Check.Run
import ArrowCheck.Proofs.InferenceSteps
import ArrowCheck.Proofs.Places
import ArrowCheck.Proofs.StageRuns

namespace ArrowCheck

open Outline

variable {Place : Option Span → Prop}

/-! ### Names -/

/-- All diagnostics are at places with a property. -/
def Located (Place : Option Span → Prop) (diagnostics : List Diagnostic) : Prop :=
  ∀ diagnostic ∈ diagnostics, Place diagnostic.span

theorem located_nil : Located Place [] :=
  List.forall_mem_nil _

theorem Located.append {first second : List Diagnostic} (located : Located Place first)
    (located' : Located Place second) : Located Place (first ++ second) :=
  List.forall_mem_append.mpr ⟨located, located'⟩

namespace NameScope

theorem useFaults_located (scope : NameScope) (name : String) {span : Option Span}
    (place : Place span) : Located Place (scope.useFaults name span) := by
  rw [useFaults]
  split_ifs
  · exact located_nil
  · exact List.forall_mem_singleton.mpr place

theorem declareFaults_located (scope : NameScope) (name : String) {span : Option Span}
    (place : Place span) : Located Place (scope.declareFaults name span) := by
  rw [declareFaults]
  split_ifs
  · exact List.forall_mem_singleton.mpr place
  · exact located_nil

theorem paramFaults_located (scope : NameScope) {params : List Param}
    (placed : AllAt Place (params.map Param.outline)) :
    Located Place (scope.paramFaults params) := by
  induction params generalizing scope with
  | nil => exact located_nil
  | cons param rest inductionHypothesis =>
    obtain ⟨placedHead, placedTail⟩ := allAt_cons.mp placed
    exact (scope.declareFaults_located param.name placedHead.span).append
      (inductionHypothesis _ placedTail)

end NameScope

mutual

/-- Names of an expression are found wrong at its places. -/
theorem Expr.nameFaults_located (scope : NameScope) (expr : Expr) (placed : expr.outline.At Place) :
    Located Place (expr.nameFaults scope) := by
  match expr with
  | .number _ _ | .string _ _ | .bool _ _ => exact located_nil
  | .ident name _ => exact scope.useFaults_located name placed.span
  | .binary _ left right _ | .index left right _ =>
    obtain ⟨placedLeft, placedRight⟩ : left.outline.At Place ∧ right.outline.At Place := by
      simpa using (at_node.mp placed).2
    exact (left.nameFaults_located scope placedLeft).append
      (right.nameFaults_located scope placedRight)
  | .conditional test consequent alternate _ =>
    obtain ⟨placedTest, placedConsequent, placedAlternate⟩ :
        test.outline.At Place ∧ consequent.outline.At Place ∧ alternate.outline.At Place := by
      simpa using (at_node.mp placed).2
    exact ((test.nameFaults_located scope placedTest).append
      (consequent.nameFaults_located scope placedConsequent)).append
        (alternate.nameFaults_located scope placedAlternate)
  | .arrow params result body _ =>
    have placedParts := (at_node.mp placed).2
    rw [allAt_append, allAt_append] at placedParts
    exact (scope.enter.paramFaults_located placedParts.1.1).append
      (body.nameFaults_located _ placedParts.2)
  | .call callee arguments _ =>
    obtain ⟨placedCallee, placedArguments⟩ := allAt_cons.mp (at_node.mp placed).2
    exact (callee.nameFaults_located scope placedCallee).append
      (Expr.nameFaultsAll_located scope arguments placedArguments)
  | .array elements _ => exact Expr.nameFaultsAll_located scope elements (at_node.mp placed).2

theorem Expr.nameFaultsAll_located (scope : NameScope) (exprs : List Expr)
    (placed : AllAt Place (Expr.outlines exprs)) :
    Located Place (Expr.nameFaultsAll scope exprs) := by
  match exprs with
  | [] => exact located_nil
  | head :: tail =>
    obtain ⟨placedHead, placedTail⟩ := allAt_cons.mp placed
    exact (head.nameFaults_located scope placedHead).append
      (Expr.nameFaultsAll_located scope tail placedTail)

theorem Body.nameFaults_located (scope : NameScope) (body : Body)
    (placed : AllAt Place body.outlines) : Located Place (body.nameFaults scope) := by
  match body with
  | .value value => exact value.nameFaults_located scope (allAt_cons.mp placed).1
  | .block statements => exact Stmt.nameFaultsAll_located scope statements placed

theorem Stmt.nameFaultsAll_located (scope : NameScope) (statements : List Stmt)
    (placed : AllAt Place (Stmt.outlines statements)) :
    Located Place (Stmt.nameFaultsAll scope statements) := by
  match statements with
  | [] => exact located_nil
  | .const name declared init info :: rest =>
    obtain ⟨placedHead, placedTail⟩ := allAt_cons.mp placed
    obtain ⟨place, placedParts⟩ := at_node.mp placedHead
    have placedInit := (allAt_cons.mp (allAt_append.mp placedParts).2).1
    exact ((init.nameFaults_located scope placedInit).append
      (scope.declareFaults_located name place)).append
        (Stmt.nameFaultsAll_located _ rest placedTail)
  | .return (some argument) _ :: rest | .expr argument :: rest =>
    obtain ⟨placedHead, placedTail⟩ := allAt_cons.mp placed
    have placedArgument := (allAt_cons.mp (at_node.mp placedHead).2).1
    exact (argument.nameFaults_located scope placedArgument).append
      (Stmt.nameFaultsAll_located scope rest placedTail)
  | .return none _ :: rest =>
    exact Stmt.nameFaultsAll_located scope rest (allAt_cons.mp placed).2

end

/-! ### Types -/

namespace Session

/-- What is composed of steps of inference adds diagnostics at the places of the composition. -/
theorem Composed.located {Change : Scopes → Scopes → Prop} {Result : Type}
    {action : SessionM Result} (composed : Composed Place Change action) {session : Session}
    (located : Located Place session.diagnostics) :
    Ensures action session fun _ after => Located Place after.diagnostics := by
  refine composed.preserves (fun session => Located Place session.diagnostics)
    (fun _ _ located => located) (fun _ _ located => located) ?_ session located
  intro session kind span message place located
  exact located.append (List.forall_mem_singleton.mpr place)

/-- Inference hands out diagnostics at places of the program, and those that were pending. -/
theorem infer_located {program : Program} (placed : AllAt Place (Stmt.outlines program.body))
    {session : Session} (located : Located Place session.diagnostics) :
    Ensures (infer program) session fun result _ => Located Place result.2.diagnostics := by
  have body : Composed Place Scopes.SameOuter (inferBodyOf program) :=
    .bind (composed_inferStmts program.body placed) fun _ => .pure _
  have filled (tree : Program) : Composed Place Scopes.SameOuter (finalize tree) :=
    composed_finalize tree
  have resolved (ty : Ty) : Composed Place Scopes.SameOuter (resolve ty) := .onArena _
  refine Ensures.bind (body.located located) fun result now located => ?_
  refine Ensures.bind ((filled result.1).located located) fun tree now located => ?_
  refine Ensures.bind ((resolved result.2).located located) fun ty now located => ?_
  exact Ensures.pure located

/-- The diagnostics of a program whose names were checked are at places of the program. -/
theorem inferResolved_located {program : Program}
    (placed : AllAt Place (Stmt.outlines program.body)) (lossy : Bool) :
    Ensures (inferResolved program program.nameFaults) (new lossy) fun result _ =>
      Located Place result.2.diagnostics := by
  have names : Located Place program.nameFaults :=
    Stmt.nameFaultsAll_located {} program.body placed
  rw [inferResolved]
  split_ifs
  · exact Ensures.pure names
  · refine Ensures.bind (infer_located placed located_nil) fun result now types => ?_
    exact Ensures.pure (names.append types)

end Session

/-! ### Checks -/

/-- A program is reported with what inference says about it in a new session. -/
theorem SourceFile.check_eq {file : SourceFile} {program : Program}
    (parsed : Program.parse file.text = .ok program) (lossy : Bool) :
    file.check lossy =
      let ((tree, outcome), _) :=
        Session.inferResolved program program.nameFaults (Session.new lossy)
      .ok ⟨file, tree, outcome.diagnostics, outcome.programTy, outcome.skipped⟩ := by
  have parses : Stage.parse.run file = pure ⟨file, program⟩ := by
    simp only [Stage.parse, parsed]
  have first : Chain.toParsed.start file {} = (.ok ⟨file, program⟩, {}) := by
    show (Stage.parse.runNamed file).run {} = _
    rw [Stage.runNamed, parses]
    rfl
  have second : Chain.toResolved.start file {} = (.ok ⟨file, program, program.nameFaults⟩, {}) :=
    Chain.start_add first Stage.resolve
  rw [SourceFile.check, Chain.toTyped, Chain.start_add second (Stage.typing lossy)]
  rfl

/-- A place is told in words that are never those for a missing place. -/
theorem SourceFile.describe_ne_unknown (span : Span) (file : Option SourceFile) :
    SourceFile.describe (some span) file ≠ SourceFile.describe none file := by
  cases file with
  | none =>
    intro same
    have firsts := congrArg (fun text : String => text.toList.head?) same
    simp [SourceFile.describe] at firsts
  | some file =>
    intro same
    have colon : ':' ∈ "unknown position".toList := by
      have spelled : "unknown position" = _ := same.symm
      rw [spelled]
      simp [SourceFile.describe]
    revert colon
    decide

/-- A program has a node at a place. -/
def Program.HasNodeAt (program : Program) (span : Option Span) : Prop :=
  ∃ node ∈ nodesAll program.outline.children, node.span = span

/-- In a program that was parsed from a short text, nodes are at places that are not empty and
inside the text. -/
theorem Program.HasNodeAt.exists_span {text : String} (short : text.utf8ByteSize < 2 ^ 32)
    {program : Program} (parsed : Program.parse text = .ok program) {span : Option Span}
    (hasNode : program.HasNodeAt span) :
    ∃ place, span = some place ∧ place.lo < place.hi ∧ place.hi.toNat ≤ text.utf8ByteSize := by
  obtain ⟨tokens, lexed, goesOn⟩ := exists_of_bind_eq_ok parsed
  obtain ⟨statements, statementsParsed, done⟩ := exists_of_bind_eq_ok goesOn
  cases done
  obtain ⟨ordered, bounded⟩ := Token.lex_inOrder (Token.ofText_eq_ok lexed) short
  have within := Tree.parseStmts_within _ statementsParsed
  obtain ⟨node, member, rfl⟩ := hasNode
  obtain ⟨place, _, _, _, _, is, _, _, _, _, _, solid, inside⟩ :=
    (within.forall_nodes ordered bounded List.infix_rfl node member).1
  exact ⟨place, is, solid, inside⟩

/-- Whatever is said about a parsed program is said at a place: that of an expression, a statement,
a parameter or a written type of the program. The place is not empty and inside the text, and it is
told in words that are not those for a missing place. -/
theorem check_located (file : SourceFile) (short : file.text.utf8ByteSize < 2 ^ 32)
    (program : Program) (parsed : Program.parse file.text = .ok program) (lossy : Bool) :
    ∃ report, file.check lossy = .ok report ∧
      ∀ diagnostic ∈ report.diagnostics, program.HasNodeAt diagnostic.span ∧
        (∃ span, diagnostic.span = some span ∧ span.lo < span.hi ∧
          span.hi.toNat ≤ file.text.utf8ByteSize) ∧
        ∀ shown, SourceFile.describe diagnostic.span shown ≠ "unknown position" := by
  have placed : AllAt program.HasNodeAt (Stmt.outlines program.body) :=
    fun node member => ⟨node, member, rfl⟩
  have located := Session.inferResolved_located placed lossy
  refine ⟨_, SourceFile.check_eq parsed lossy, fun diagnostic member => ?_⟩
  have hasNode := located diagnostic member
  obtain ⟨span, is, solid, inside⟩ := hasNode.exists_span short parsed
  refine ⟨hasNode, ⟨span, is, solid, inside⟩, fun shown => ?_⟩
  rw [is]
  exact SourceFile.describe_ne_unknown span shown

/-- A text in which the types of a returned value, an argument and an element do not fit. -/
def misfits : SourceFile :=
  ⟨"f.tern", "const f = (x: number): string => \x7b return (x); \x7d; [f(true), 1]"⟩

theorem misfits_located :
    ∃ program, Program.parse misfits.text = .ok program ∧
      ∀ lossy, ∃ report, misfits.check lossy = .ok report ∧ report.diagnostics.length = 3 ∧
        ∀ diagnostic ∈ report.diagnostics, program.HasNodeAt diagnostic.span ∧
          (∃ span, diagnostic.span = some span ∧ span.lo < span.hi ∧ span.hi.toNat ≤ 62) ∧
          ∀ shown, SourceFile.describe diagnostic.span shown ≠ "unknown position" := by
  have parses : (Program.parse misfits.text).toOption.isSome = true := by decide +kernel
  have counted : ∀ lossy, (misfits.check lossy).toOption.map (·.diagnostics.length) = some 3 := by
    decide +kernel
  cases parsed : Program.parse misfits.text with
  | error failure =>
    rw [parsed] at parses
    cases parses
  | ok program =>
    refine ⟨program, rfl, fun lossy => ?_⟩
    obtain ⟨report, checked, located⟩ := check_located misfits (by decide) program parsed lossy
    have counted := counted lossy
    rw [checked] at counted
    exact ⟨report, checked, Option.some.inj counted, located⟩

end ArrowCheck
