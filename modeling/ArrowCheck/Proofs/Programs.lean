/-
This file describes what inference does with whole programs. The statements are
inferred one after the other, and only then is every slot filled with what its
type stands for by that time. Handing out the diagnostics changes nothing else.
-/

import ArrowCheck.Proofs.Inference
import ArrowCheck.Typing.Outcome

namespace ArrowCheck.Session

open Arena

variable {settled : Set VarId} {session : Session}

/-- A new session is ready, with nothing to be left alone yet. -/
theorem new_ready (lossy : Bool) : (new lossy).Ready ∅ := by
  refine ready_empty (wellFormed_of_unlinked fun id => ?_) (List.forall_mem_nil _)
  exact target_eq_none_of_size_le (Nat.zero_le id)

theorem inferStmts_continues (statements : List Stmt) {session : Session}
    (ready : session.Ready settled) :
    Ensures (inferStmts statements) session fun result after =>
      session.Continues settled after ∧ after.arena.CoversEach result.2 ∧
        after.arena.CoversEach (Stmt.tysAll result.1) := by
  induction statements generalizing session with
  | nil =>
    exact Ensures.pure ⟨(Advances.refl ready).continues ready, coversEach_nil _, coversEach_nil _⟩
  | cons head tail inductionHypothesis =>
    refine Ensures.bind (inferStmt_framed head ready) ?_
    intro ⟨head', ty⟩ _ ⟨continues, apart, covers⟩
    refine Ensures.bind (inductionHypothesis continues.ready) ?_
    intro ⟨tail', tys⟩ after ⟨continues', coversTys, covers'⟩
    refine Ensures.pure ⟨continues.trans continues', ?_, ?_⟩
    · exact List.forall_mem_cons.mpr ⟨continues'.extends_.covers apart.covers, coversTys⟩
    · rw [Stmt.tysAll, coversEach_append]
      exact ⟨continues'.extends_.coversEach covers, covers'⟩

/-- Filling the slots of a tree changes no meaning. -/
theorem finalize_ensures (wellFormed : session.arena.WellFormed) {program : Program}
    (covers : session.arena.CoversEach program.tys) :
    Ensures (finalize program) session fun result after =>
      (∃ arena, session.arena.Shortens arena ∧ after = { session with arena := arena }) ∧
        result = program.withTys session.arena.solved := by
  refine Program.mapTys_ensures ?_ ⟨session.arena, .refl wellFormed, rfl⟩
  intro ty member _ ⟨arena, shortens, same⟩
  subst same
  refine (onArena_ensures (resolve_ensures shortens.wellFormed
    (shortens.covers (covers ty member)))).mono ?_
  intro value _ ⟨last, ⟨shortens', valueIs⟩, same⟩
  subst same
  exact ⟨⟨last, shortens.trans shortens', rfl⟩, valueIs.trans (shortens.solved ty)⟩

theorem covers_getLastD {arena : Arena} {tys : List Ty} (covers : arena.CoversEach tys) :
    arena.Covers (tys.getLastD .void) := by
  cases tys with
  | nil => exact covers_prim _
  | cons head tail =>
    rw [List.getLastD_cons]
    exact covers _ List.getLastD_mem_cons

theorem inferBodyOf_ensures (ready : session.Ready settled) (program : Program) :
    Ensures (inferBodyOf program) session fun result now =>
      ∃ statements tys, inferStmts program.body session = ((statements, tys), now) ∧
        result = (⟨statements, program.info.typed (tys.getLastD .void)⟩, tys.getLastD .void) ∧
        session.Continues settled now ∧ now.arena.CoversEach result.1.tys ∧
        now.arena.Covers result.2 := by
  refine Ensures.bind ((Ensures.run _ session).and (inferStmts_continues program.body ready)) ?_
  intro ⟨statements, tys⟩ now ⟨ran, continues, coversTys, covers⟩
  have coversTy := covers_getLastD coversTys
  refine Ensures.pure ⟨statements, tys, ran, rfl, continues, ?_, coversTy⟩
  exact coversEach_append.mpr ⟨coversEach_singleton.mpr coversTy, covers⟩

/-- Inference of a program fills the slots with the meanings that their types have after the last
statement, and gives the program the meaning of the last type. -/
theorem infer_fills (ready : session.Ready settled) (program : Program) :
    Ensures (infer program) session fun result after =>
      ∃ statements tys now, inferStmts program.body session = ((statements, tys), now) ∧
        session.Continues settled now ∧
        (∃ arena, now.arena.Shortens arena ∧
          after = { now with arena := arena, diagnostics := [], hasErrors := false }) ∧
        result.1 = ⟨Stmt.withTysAll now.arena.solved statements,
          program.info.typed (now.arena.solved (tys.getLastD .void))⟩ ∧
        result.2.diagnostics = now.diagnostics ∧
        result.2.programTy = some (now.arena.solved (tys.getLastD .void)) := by
  refine Ensures.bind (inferBodyOf_ensures ready program) ?_
  intro _ now ⟨statements, tys, ran, same, continues, covers, coversTy⟩
  subst same
  refine Ensures.bind (finalize_ensures continues.ready.wellFormed covers) ?_
  intro _ _ ⟨⟨arena, shortens, same⟩, filled⟩
  subst same filled
  refine Ensures.bind (onArena_ensures (resolve_ensures shortens.wellFormed
    (shortens.covers coversTy))) ?_
  intro _ _ ⟨last, ⟨shortens', valueIs⟩, same⟩
  subst same
  exact ⟨statements, tys, now, ran, continues, ⟨last, shortens.trans shortens', rfl⟩, rfl, rfl,
    congrArg some (valueIs.trans (shortens.solved _))⟩

theorem infer_ensures (ready : session.Ready settled) (program : Program) :
    Ensures (infer program) session fun result after =>
      ∃ statements tys now, inferStmts program.body session = ((statements, tys), now) ∧
        session.Continues settled now ∧
        (∃ arena, now.arena.Shortens arena ∧
          after = { now with arena := arena, diagnostics := [], hasErrors := false }) ∧
        result.1 = ⟨Stmt.withTysAll now.arena.solved statements,
          program.info.typed (now.arena.solved (tys.getLastD .void))⟩ ∧
        result.2.diagnostics = now.diagnostics := by
  obtain ⟨statements, tys, now, ran, continues, shortened, filled, reported, _⟩ :=
    infer_fills ready program
  exact ⟨statements, tys, now, ran, continues, shortened, filled, reported⟩

end ArrowCheck.Session
