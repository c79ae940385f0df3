/-
This file compares lossy sessions with strict ones. Lossiness decides how faults are
graded and nothing else: from sessions that differ only in their grading, inference
gives the same types and goes on to sessions that differ only in their grading.

So what inference says about a program is known up to the grading. The typing
diagnostics are all warnings or all errors, and only errors count as such.
-/

import ArrowCheck.Proofs.InferenceSteps
import ArrowCheck.Proofs.Programs

namespace ArrowCheck

/-- A diagnostic with the level that a fault has in lossy or in strict sessions. -/
def Diagnostic.graded (lossy : Bool) (diagnostic : Diagnostic) : Diagnostic :=
  { diagnostic with level := if lossy then .warning else .error }

namespace Session

/-- A session as it is if faults are graded in a given way from the start. -/
def regraded (lossy : Bool) (session : Session) : Session :=
  { session with
    diagnostics := session.diagnostics.map (Diagnostic.graded lossy)
    hasErrors := !lossy && !session.diagnostics.isEmpty
    lossy := lossy }

theorem regraded_new (lossy : Bool) : (new false).regraded lossy = new lossy := by
  cases lossy <;> rfl

theorem regraded_addDiagnostic (lossy : Bool) (kind : Fault.Kind) (span : Option Span)
    (message : String) (session : Session) :
    addDiagnostic kind span message (session.regraded lossy) =
      (addDiagnostic kind span message session).regraded lossy := by
  cases lossy <;> simp [addDiagnostic, regraded, Diagnostic.graded]

/-- No step looks at the grading, so regrading the session first or last is the same. -/
theorem Composed.run_regraded {Place : Option Span → Prop} {Change : Scopes → Scopes → Prop}
    {Result : Type} {action : SessionM Result} (composed : Composed Place Change action)
    (lossy : Bool) (session : Session) :
    action (session.regraded lossy) =
      ((action session).1, (action session).2.regraded lossy) := by
  induction composed generalizing session with
  | pure value => rfl
  | onArena action => rfl
  | modifyScopes _ => rfl
  | @enclosed _ _ action _ inductionHypothesis =>
    let opened : Session := { session with scopes := session.scopes.push }
    show ((action (opened.regraded lossy)).1, { (action (opened.regraded lossy)).2 with
      scopes := (action (opened.regraded lossy)).2.scopes.pop }) = _
    rw [inductionHypothesis opened]
    rfl
  | report kind _ message =>
    exact congrArg (Prod.mk ()) (regraded_addDiagnostic lossy kind _ message session)
  | @inspect _ _ next blind _ inductionHypothesis =>
    have same : next (session.regraded lossy) = next session :=
      (blind _).trans (blind session).symm
    show next (session.regraded lossy) (session.regraded lossy) = _
    rw [same]
    exact inductionHypothesis session session
  | @sequence _ _ _ action next _ _ first rest =>
    show next (action (session.regraded lossy)).1 (action (session.regraded lossy)).2 = _
    rw [first session]
    exact rest session _

/-- All that inference reports is marked as coming from typing. -/
theorem inferStmts_contexts (statements : List Stmt) (lossy : Bool) :
    ∀ diagnostic ∈ (inferStmts statements (new lossy)).2.diagnostics,
      diagnostic.context = some context := by
  refine (composed_inferStmts statements Outline.allAt_true).preserves
    (fun session => ∀ diagnostic ∈ session.diagnostics, diagnostic.context = some context)
    (fun _ _ holds => holds) (fun _ _ holds => holds) ?_ (new lossy) (List.forall_mem_nil _)
  intro session kind span message _ holds
  exact List.forall_mem_append.mpr ⟨holds, List.forall_mem_singleton.mpr rfl⟩

/-- Whether errors were reported is decided by the statements, as nothing is reported when the slots
are filled. -/
theorem infer_flags {settled : Set VarId} {session : Session} (ready : session.Ready settled)
    (program : Program) :
    Ensures (infer program) session fun result _ =>
      result.2.hasErrors = (inferStmts program.body session).2.hasErrors ∧
        result.2.skipped = false := by
  refine Ensures.bind (inferBodyOf_ensures ready program) ?_
  rintro _ now ⟨statements, tys, ran, rfl, continues, covers, -⟩
  refine Ensures.bind (finalize_ensures continues.ready.wellFormed covers) ?_
  rintro _ _ ⟨⟨arena, -, rfl⟩, -⟩
  rw [ran]
  exact ⟨rfl, rfl⟩

/-- What inference says about a program is decided by what its statements leave. -/
theorem infer_eq {settled : Set VarId} {session now : Session} (ready : session.Ready settled)
    {program : Program} {statements : List Stmt} {tys : List Ty}
    (ran : inferStmts program.body session = ((statements, tys), now)) :
    (infer program session).1 =
      (⟨Stmt.withTysAll now.arena.solved statements,
          program.info.typed (now.arena.solved (tys.getLastD .void))⟩,
        { diagnostics := now.diagnostics
          hasErrors := now.hasErrors
          programTy := some (now.arena.solved (tys.getLastD .void))
          skipped := false }) := by
  obtain ⟨hasErrors, skipped⟩ := infer_flags ready program
  obtain ⟨statements', tys', now', ran', -, -, filled, reported, programTy⟩ :=
    infer_fills ready program
  rw [ran] at hasErrors
  obtain ⟨⟨rfl, rfl⟩, rfl⟩ : ((statements, tys) = (statements', tys')) ∧ now = now' :=
    Prod.mk.inj (ran.symm.trans ran')
  generalize (infer program session).1 = result at *
  obtain ⟨tree, diagnostics, _, _, _⟩ := result
  cases filled
  cases reported
  cases hasErrors
  cases programTy
  cases skipped
  rfl

/-- What inference says about a program, up to the grading. -/
theorem infer_graded (program : Program) :
    ∃ (tree : Program) (ty : Ty) (reported : List Diagnostic),
      (∀ diagnostic ∈ reported, diagnostic.context = some context) ∧
      ∀ lossy, (infer program (new lossy)).1 =
        (tree, { diagnostics := reported.map (Diagnostic.graded lossy)
                 hasErrors := !lossy && !reported.isEmpty
                 programTy := some ty
                 skipped := false }) := by
  rcases strict : inferStmts program.body (new false) with ⟨⟨statements, tys⟩, now⟩
  have contexts := inferStmts_contexts program.body false
  rw [strict] at contexts
  refine ⟨⟨Stmt.withTysAll now.arena.solved statements,
    program.info.typed (now.arena.solved (tys.getLastD .void))⟩,
    now.arena.solved (tys.getLastD .void), now.diagnostics, contexts, fun lossy => ?_⟩
  have regraded :=
    (composed_inferStmts program.body Outline.allAt_true).run_regraded lossy (new false)
  rw [regraded_new, strict] at regraded
  exact infer_eq (new_ready lossy) regraded

/-- What inference says about a program after its names were checked, up to the grading. -/
theorem inferResolved_graded (program : Program) (resolution : List Diagnostic) :
    ∃ (tree : Program) (programTy : Option Ty) (reported : List Diagnostic),
      (∀ diagnostic ∈ reported, diagnostic.context = some context) ∧
      ∀ lossy, (inferResolved program resolution (new lossy)).1 =
        (tree, { diagnostics := resolution ++ reported.map (Diagnostic.graded lossy)
                 hasErrors := Diagnostic.anyError resolution || (!lossy && !reported.isEmpty)
                 programTy := programTy
                 skipped := Diagnostic.anyError resolution }) := by
  cases skips : Diagnostic.anyError resolution with
  | true =>
    refine ⟨program, none, [], List.forall_mem_nil _, fun lossy => ?_⟩
    rw [inferResolved, if_pos skips, List.map_nil, List.append_nil]
    rfl
  | false =>
    obtain ⟨tree, ty, reported, contexts, graded⟩ := infer_graded program
    refine ⟨tree, some ty, reported, contexts, fun lossy => ?_⟩
    rw [inferResolved, if_neg (Bool.eq_false_iff.mp skips)]
    show ((infer program (new lossy)).1.1, { (infer program (new lossy)).1.2 with
      diagnostics := resolution ++ (infer program (new lossy)).1.2.diagnostics }) = _
    rw [graded lossy]
    rfl

/-- Lossiness decides how faults are graded and nothing else. Both runs give the same tree and the
same type, and they skip inference alike. After the diagnostics of the names they report the same
faults in the same order, one run as errors and the other as warnings. Where faults are warnings,
there are errors exactly if inference was skipped. -/
theorem inferResolved_lossy (program : Program) (resolution : List Diagnostic) :
    ∃ (tree : Program) (programTy : Option Ty) (typing : List Diagnostic),
      let skipped := Diagnostic.anyError resolution
      let downgraded := typing.map fun fault => { fault with level := .warning }
      (inferResolved program resolution (new false)).1 =
        (tree, { diagnostics := resolution ++ typing
                 hasErrors := skipped || !typing.isEmpty
                 programTy := programTy
                 skipped := skipped }) ∧
      (inferResolved program resolution (new true)).1 =
        (tree, { diagnostics := resolution ++ downgraded
                 hasErrors := skipped
                 programTy := programTy
                 skipped := skipped }) ∧
      ∀ fault ∈ typing, fault.level = .error ∧ fault.context = some context := by
  obtain ⟨tree, programTy, reported, contexts, graded⟩ := inferResolved_graded program resolution
  refine ⟨tree, programTy, reported.map (Diagnostic.graded false), ?_, ?_, ?_⟩
  · rw [graded false, List.isEmpty_map]
    rfl
  · rw [graded true, List.map_map]
    simp only [Bool.not_true, Bool.false_and, Bool.or_false]
    rfl
  · exact List.forall_mem_map.mpr fun fault member => ⟨rfl, contexts fault member⟩

end Session

end ArrowCheck
