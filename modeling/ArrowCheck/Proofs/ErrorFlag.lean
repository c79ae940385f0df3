/-
This file proves that the flag of a session agrees with its diagnostics. Whether an
error was reported is recorded twice: as a flag, and by the errors among the
diagnostics that are pending. Every step of inference keeps the two together, and
handing out the diagnostics takes both away at once, so that a session can be used
again for the next program. If names were wrong, a session is not used at all.

Nothing is assumed of what a session is asked, not even that the variables in it
exist.
-/

import ArrowCheck.Proofs.InferenceSteps
import ArrowCheck.Typing.Request

namespace ArrowCheck.Session

/-- The sessions that a new one can become, whatever is asked of it. -/
inductive Attained : Session → Prop
  | new (lossy : Bool) : Attained (new lossy)
  | perform {session : Session} (attained : Attained session) (request : Request) :
    Attained (perform request session).2
  | inferStmt {session : Session} (attained : Attained session) (statement : Stmt) :
    Attained (inferStmt statement session).2
  | finalize {session : Session} (attained : Attained session) (program : Program) :
    Attained (finalize program session).2

/-- The flag of a session says whether there is an error among the pending diagnostics. -/
def Flagged (session : Session) : Prop :=
  session.hasErrors = Diagnostic.anyError session.diagnostics

variable {session : Session}

/-! ### Steps -/

/-- A report sets the flag exactly if it is graded as an error. -/
theorem Flagged.addDiagnostic (flagged : session.Flagged) (kind : Fault.Kind) (span : Option Span)
    (message : String) : (addDiagnostic kind span message session).Flagged := by
  have graded (lossy : Bool) :
      decide ((if lossy then Level.warning else Level.error) = .error) = !lossy := by
    cases lossy <;> rfl
  simp only [Flagged, Session.addDiagnostic, Diagnostic.anyError, List.any_append, List.any_cons,
    List.any_nil, Bool.or_false, Diagnostic.isError, graded]
  exact congrArg (· || !session.lossy) flagged

/-- What is composed of steps of inference keeps flag and diagnostics together. -/
theorem Composed.flagged {Place : Option Span → Prop} {Change : Scopes → Scopes → Prop}
    {Result : Type} {action : SessionM Result} (composed : Composed Place Change action)
    (flagged : session.Flagged) :
    Ensures action session fun _ after => after.Flagged := by
  refine composed.preserves Flagged (fun _ _ flagged => flagged) (fun _ _ flagged => flagged) ?_
    session flagged
  intro session kind span message _ flagged
  exact flagged.addDiagnostic kind span message

/-! ### Whole programs -/

/-- Inference hands out its diagnostics with a flag that agrees with them, and leaves neither
behind. -/
theorem infer_flagged (flagged : session.Flagged) (program : Program) :
    Ensures (infer program) session fun result after =>
      result.2.hasErrors = Diagnostic.anyError result.2.diagnostics ∧
        result.2.skipped = false ∧ after.diagnostics = [] ∧ after.hasErrors = false := by
  have body : Composed (fun _ => True) Scopes.SameOuter (inferBodyOf program) :=
    .bind (composed_inferStmts program.body Outline.allAt_true) fun _ => .pure _
  have filled (tree : Program) : Composed (fun _ => True) Scopes.SameOuter (finalize tree) :=
    composed_finalize tree
  have resolved (ty : Ty) : Composed (fun _ => True) Scopes.SameOuter (resolve ty) := .onArena _
  refine Ensures.bind (body.flagged flagged) fun result now flagged => ?_
  refine Ensures.bind ((filled result.1).flagged flagged) fun tree now flagged => ?_
  refine Ensures.bind ((resolved result.2).flagged flagged) fun ty now flagged => ?_
  exact Ensures.pure ⟨flagged, rfl, rfl, rfl⟩

/-- What inference does once names were checked: nothing at all if there is an error among the
diagnostics of that check, and otherwise what it does without them. -/
theorem inferResolved_flagged (flagged : session.Flagged) (program : Program)
    (resolution : List Diagnostic) :
    Ensures (inferResolved program resolution) session fun result after =>
      result.2.hasErrors = Diagnostic.anyError result.2.diagnostics ∧
        result.2.skipped = Diagnostic.anyError resolution ∧
        (result.2.skipped = false → after.diagnostics = [] ∧ after.hasErrors = false) ∧
        (result.2.skipped = true →
          result.2.diagnostics = resolution ∧ result.1 = program ∧ after = session) := by
  cases skips : Diagnostic.anyError resolution with
  | true =>
    rw [inferResolved, if_pos skips]
    refine Ensures.pure ⟨skips.symm, rfl, ?_, fun _ => ⟨rfl, rfl, rfl⟩⟩
    intro unskipped
    cases unskipped
  | false =>
    rw [inferResolved, if_neg (Bool.eq_false_iff.mp skips)]
    refine Ensures.bind (infer_flagged flagged program) ?_
    rintro ⟨tree, outcome⟩ after ⟨agrees, unskipped, handedOut⟩
    refine Ensures.pure ⟨?_, unskipped, fun _ => handedOut, fun skipped => ?_⟩
    · show outcome.hasErrors = (resolution ++ outcome.diagnostics).any Diagnostic.isError
      rw [List.any_append, show resolution.any Diagnostic.isError = false from skips,
        Bool.false_or]
      exact agrees
    · exact absurd skipped (Bool.eq_false_iff.mp unskipped)

/-! ### Whole sessions -/

/-- What one request preserves. -/
theorem perform_flagged (flagged : session.Flagged) (request : Request) :
    Ensures (perform request) session fun _ after => after.Flagged := by
  have keeps {Result : Type} {action : SessionM Result}
      (composed : Composed (fun _ => True) Scopes.SameOuter action) :
      Ensures action session fun _ after => after.Flagged :=
    composed.flagged flagged
  match request with
  | .fresh | .compress _ | .resolve _ | .occurs _ _ => exact Ensures.map (keeps (.onArena _))
  | .unify _ _ _ => exact Ensures.map (keeps (composed_unify trivial _ _))
  | .copy _ => exact Ensures.map (keeps (composed_freshInstance _))
  | .isFree _ | .push | .pop | .bind _ _ => exact flagged
  | .lookup _ => exact Ensures.map (keeps (composed_lookup _))
  | .binary operator _ _ _ => exact Ensures.map (keeps (composed_solveBinary trivial operator _ _))
  | .ofWritten written => exact Ensures.map (keeps (composed_ofWritten written))
  | .inferExpr expr =>
    exact keeps (.bind (composed_inferExpr expr fun _ _ => trivial) fun _ =>
      .bind (.onArena _) fun _ => .pure _)
  | .inferStmts program =>
    exact keeps (.bind (composed_inferStmts program.body Outline.allAt_true) fun _ =>
      .bind (composed_finalize _) fun _ => .pure _)
  | .infer program =>
    refine Ensures.bind (infer_flagged flagged program) ?_
    rintro _ after ⟨-, -, noneLeft, unset⟩
    exact Ensures.pure (by rw [Flagged, noneLeft, unset]; rfl)
  | .inferResolved program resolution =>
    refine Ensures.bind (inferResolved_flagged flagged program resolution) ?_
    rintro ⟨_, outcome⟩ after ⟨-, -, handsOut, leavesAlone⟩
    refine Ensures.pure ?_
    cases skipped : outcome.skipped with
    | true => rwa [(leavesAlone skipped).2.2]
    | false =>
      obtain ⟨noneLeft, unset⟩ := handsOut skipped
      rw [Flagged, noneLeft, unset]
      rfl

theorem Attained.flagged (attained : session.Attained) : session.Flagged := by
  induction attained with
  | new lossy => rfl
  | perform _ request inductionHypothesis => exact perform_flagged inductionHypothesis request
  | inferStmt _ statement inductionHypothesis =>
    have composed : Composed (fun _ => True) Scopes.SameOuter (Session.inferStmt statement) :=
      composed_inferStmt statement fun _ _ => trivial
    exact composed.flagged inductionHypothesis
  | finalize _ program inductionHypothesis =>
    have composed : Composed (fun _ => True) Scopes.SameOuter (Session.finalize program) :=
      composed_finalize program
    exact composed.flagged inductionHypothesis

/-- In every session that a new one can become, the flag is set exactly if there is an error among
the pending diagnostics. Whatever program such a session infers, the flag that it hands out says
whether there is an error among the diagnostics that it hands out, and nothing is left pending. If
the names of the program were wrong, what was found about them is handed out as it is, and the tree
and the session are left alone. -/
theorem attained_flag_exact (session : Session) (attained : session.Attained) :
    (session.hasErrors = true ↔ ∃ diagnostic ∈ session.diagnostics, diagnostic.level = .error) ∧
      (∀ program, let ((_, outcome), after) := infer program session
        outcome.hasErrors = Diagnostic.anyError outcome.diagnostics ∧
          outcome.skipped = false ∧ after.diagnostics = [] ∧ after.hasErrors = false) ∧
      ∀ program resolution, let ((tree, outcome), after) := inferResolved program resolution session
        outcome.hasErrors = Diagnostic.anyError outcome.diagnostics ∧
          outcome.skipped = Diagnostic.anyError resolution ∧
          (outcome.skipped = false → after.diagnostics = [] ∧ after.hasErrors = false) ∧
          (outcome.skipped = true →
            outcome.diagnostics = resolution ∧ tree = program ∧ after = session) := by
  have flagged := attained.flagged
  refine ⟨?_, infer_flagged flagged, inferResolved_flagged flagged⟩
  rw [show session.hasErrors = _ from flagged, Diagnostic.anyError, List.any_eq_true]
  simp only [Diagnostic.isError, decide_eq_true_eq]

/-- A session that could not make two types equal, and what becomes of its error: it is kept while a
program with wrong names is turned away, and handed out with the next program. -/
theorem clash_flag_exact :
    let session := (perform (.unify {} .number .string) (new false)).2
    let wrongNames := [NameFault.diagnostic (.unresolved "x") none]
    session.Attained ∧ (∃ diagnostic ∈ session.diagnostics, diagnostic.level = .error) ∧
      (inferResolved { body := [] } wrongNames session).2 = session ∧
      (infer { body := [] } session).1.2.hasErrors = true ∧
      (infer { body := [] } session).2.hasErrors = false := by
  have attained := (Attained.new false).perform (.unify {} .number .string)
  obtain ⟨flag, inferred, resolved⟩ := attained_flag_exact _ attained
  obtain ⟨-, -, -, leavesAlone⟩ :=
    resolved { body := [] } [NameFault.diagnostic (.unresolved "x") none]
  obtain ⟨-, -, -, unset⟩ := inferred { body := [] }
  exact ⟨attained, flag.mp (by decide), (leavesAlone (by decide)).2.2, by decide, unset⟩

end ArrowCheck.Session
