/-
This file proves that what comes later in a program does not change what was
inferred before. Slots hold variables until the end, so a later statement could
bind a variable of an earlier one. It never does: no type is monomorphic outside
all functions, so a later statement uses earlier names through copies only, and
all variables that are free between two statements stay as they are.
-/

import ArrowCheck.Proofs.Programs

namespace ArrowCheck.Session

open Arena

/-- More statements are inferred in the session that the earlier ones leave. -/
theorem inferStmts_append (first second : List Stmt) (session : Session) :
    inferStmts (first ++ second) session =
      let ((statements, tys), now) := inferStmts first session
      let ((statements', tys'), after) := inferStmts second now
      ((statements ++ statements', tys ++ tys'), after) := by
  induction first generalizing session with
  | nil => rfl
  | cons head tail inductionHypothesis =>
    show (let ((statements, tys), after) := inferStmts (tail ++ second) (inferStmt head session).2
      (((inferStmt head session).1.1 :: statements, (inferStmt head session).1.2 :: tys),
        after)) = _
    rw [inductionHypothesis]
    rfl

theorem length_inferStmts (statements : List Stmt) (session : Session) :
    (inferStmts statements session).1.1.length = statements.length := by
  induction statements generalizing session with
  | nil => rfl
  | cons head tail inductionHypothesis =>
    rw [List.length_cons, ← inductionHypothesis (inferStmt head session).2]
    rfl

/-- Later statements leave every free variable alone where no type is monomorphic. -/
theorem inferStmts_extends_unreached {session : Session} (ready : session.Ready ∅)
    (polymorphic : session.scopes.current.monomorphic = []) (statements : List Stmt) :
    Ensures (inferStmts statements) session fun _ after =>
      session.arena.Extends (session.arena.unreached []) after.arena ∧
        session.diagnostics <+: after.diagnostics := by
  have ready' : session.Ready (session.arena.unreached []) := by
    refine ⟨ready.wellFormed, settles_unreached _ _, ready.covers, ?_⟩
    rw [polymorphic]
    exact List.forall_mem_nil _
  exact (inferStmts_continues statements ready').mono fun _ _ ⟨continues, _⟩ =>
    ⟨continues.extends_, continues.reports⟩

/-- A program and the same program with more statements at its end: inference from a new session
annotates the common statements in the same way, and reports first what it reports for the shorter
program. -/
theorem infer_append_stable (first second : List Stmt) (info info' : Info) (lossy : Bool) :
    let shorter := (infer ⟨first, info⟩ (new lossy)).1
    let longer := (infer ⟨first ++ second, info'⟩ (new lossy)).1
    shorter.1.body.length = first.length ∧
      longer.1.body.take first.length = shorter.1.body ∧
      shorter.2.diagnostics <+: longer.2.diagnostics := by
  intro shorter longer
  have ready := new_ready lossy
  obtain ⟨statements, tys, now, ran, continues, _, typed, reported⟩ :=
    infer_ensures ready ⟨first, info⟩
  obtain ⟨statements', tys', now', ran', _, _, typed', reported'⟩ :=
    infer_ensures ready ⟨first ++ second, info'⟩
  have covers : now.arena.CoversEach (Stmt.tysAll statements) := by
    have spec := (inferStmts_continues first ready).2.2
    rw [ran] at spec
    exact spec
  have length : statements.length = first.length := by
    rw [← length_inferStmts first (new lossy), ran]
  -- The longer run goes on where the shorter one ended, and leaves its variables alone.
  rw [inferStmts_append, ran] at ran'
  obtain ⟨same, same'⟩ := Prod.mk.inj ran'
  obtain ⟨rfl, rfl⟩ := Prod.mk.inj same
  subst same'
  obtain ⟨extends_, reports⟩ :=
    inferStmts_extends_unreached continues.ready continues.monomorphic second
  refine ⟨?_, ?_, ?_⟩
  · rw [typed, Stmt.withTysAll_eq_map, List.length_map, length]
  · rw [typed, typed', Stmt.withTysAll_eq_map, List.map_append,
      List.take_left' (by rw [List.length_map, length]), ← Stmt.withTysAll_eq_map]
    exact Stmt.withTysAll_congr fun ty member =>
      extends_.solved_eq continues.ready.wellFormed (covers ty member)
  · rw [reported, reported']
    exact reports

end ArrowCheck.Session
