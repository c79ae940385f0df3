/-
This file proves that the arena of a session stays well formed, whatever is asked
of the session. As long as requests only mention variables that exist, all links
do so too, and no chain of links returns to where it began, also where
unification failed. Walks along the links therefore come to an end within their
bounds and never leave the arena.
-/

import ArrowCheck.Proofs.Programs
import ArrowCheck.Typing.Request

namespace ArrowCheck

open Arena Relation

/-- The types that a request supplies mention only variables that exist. -/
def Request.Within (arena : Arena) : Request → Prop
  | .unify _ first second | .binary _ first second _ => arena.Covers first ∧ arena.Covers second
  | .compress ty | .resolve ty | .copy ty | .occurs _ ty | .bind _ ty => arena.Covers ty
  | .inferStmts program => arena.CoversEach program.info.tys
  | .fresh | .isFree _ | .push | .pop | .lookup _ | .ofWritten _ | .inferExpr _ | .infer _
  | .inferResolved _ _ => True

namespace Session

/-- The sessions that a new one can become through requests and statements. A type is shown by
resolving it, and a type is unified at a site or without one in the same way. -/
inductive Reachable : Session → Prop
  | new (lossy : Bool) : Reachable (new lossy)
  | perform {session : Session} (reachable : Reachable session) (request : Request)
    (within : request.Within session.arena) : Reachable (perform request session).2
  | inferStmt {session : Session} (reachable : Reachable session) (statement : Stmt) :
    Reachable (inferStmt statement session).2

/-- What anything that can be asked of a session does to it. -/
structure Evolves (before after : Session) : Prop where
  ready : after.Ready ∅
  extends_ : before.arena.Extends ∅ after.arena

variable {before after session : Session}

theorem Advances.evolves (advances : before.Advances ∅ after) (ready : before.Ready ∅) :
    before.Evolves after :=
  ⟨advances.ready ready, advances.extends_⟩

theorem Continues.evolves (continues : before.Continues ∅ after) : before.Evolves after :=
  ⟨continues.ready, continues.extends_⟩

theorem Evolves.of_shortens (evolves : before.Evolves after) {arena : Arena}
    (shortens : after.arena.Shortens arena) : before.Evolves { after with arena := arena } := by
  have extends_ := shortens.toPreserves.extends evolves.ready.wellFormed evolves.ready.settles
  exact ⟨evolves.ready.extend extends_ rfl, evolves.extends_.trans extends_⟩

/-- Scopes may change in any way that mentions no other variables. -/
theorem evolves_of_scopes (ready : session.Ready ∅) {scopes : Scopes}
    (covers : ∀ ty ∈ scopes.tys, session.arena.Covers ty) :
    session.Evolves { session with scopes := scopes } :=
  ⟨⟨ready.wellFormed, ready.settles, covers, fun ty member =>
    (apart_empty (covers ty (Scopes.mem_tys_of_monomorphic member))).avoids⟩,
    .refl ready.wellFormed ready.settles⟩

theorem infer_evolves (ready : session.Ready ∅) (program : Program) :
    Ensures (infer program) session fun _ after => session.Evolves after := by
  refine (infer_ensures ready program).mono ?_
  intro _ _ ⟨_, _, now, _, continues, ⟨arena, shortens, same⟩, _⟩
  subst same
  have evolves := continues.evolves.of_shortens shortens
  have same := Extends.refl evolves.ready.wellFormed evolves.ready.settles
  exact ⟨evolves.ready.extend same rfl, evolves.extends_⟩

/-- What one request preserves. -/
theorem perform_evolves (ready : session.Ready ∅) (request : Request)
    (within : request.Within session.arena) :
    Ensures (perform request) session fun _ after => session.Evolves after := by
  match request with
  | .fresh =>
    exact Ensures.map ((fresh_yields ready).mono fun _ _ yields => yields.evolves ready)
  | .unify site first second =>
    exact Ensures.map ((unify_advances ready site (apart_empty within.1)
      (apart_empty within.2)).mono fun _ _ step => step.1.evolves ready)
  | .compress ty =>
    exact Ensures.map ((compress_yields ready (apart_empty within)).mono
      fun _ _ step => step.1.evolves ready)
  | .resolve ty =>
    exact Ensures.map ((resolve_advances ready within).mono fun _ _ step => step.1.evolves ready)
  | .copy ty =>
    exact Ensures.map ((freshInstance_yields ready within).mono
      fun _ _ step => step.1.evolves ready)
  | .occurs id ty =>
    refine Ensures.map ((onArena_ensures (occursIn_ensures ready.wellFormed id within)).mono ?_)
    intro _ _ ⟨arena, ⟨shortens, _⟩, same⟩
    subst same
    exact (Advances.of_preserves ready shortens.toPreserves).evolves ready
  | .isFree id => exact (Advances.refl ready).evolves ready
  | .push => exact evolves_of_scopes ready (Scopes.forall_mem_push ready.covers)
  | .pop => exact evolves_of_scopes ready (Scopes.forall_mem_pop ready.covers)
  | .bind name ty => exact evolves_of_scopes ready (Scopes.forall_mem_bind ready.covers within)
  | .lookup name =>
    refine Ensures.map ((lookup_yields ready name).mono fun found after spec => ?_)
    match found, spec with
    | none, same =>
      subst same
      exact (Advances.refl ready).evolves ready
    | some ty, ⟨yields, _⟩ => exact yields.evolves ready
  | .binary operator left right span =>
    exact Ensures.map ((solveBinary_yields ready operator span (apart_empty within.1)
      (apart_empty within.2)).mono fun _ _ step => step.1.evolves ready)
  | .ofWritten written =>
    exact Ensures.map ((ofWritten_yields written ready).mono fun _ _ step => step.1.evolves ready)
  | .inferExpr expr =>
    refine Ensures.bind (inferExpr_framed expr ready) fun ⟨expr', ty⟩ _ ⟨yields, _⟩ => ?_
    refine Ensures.bind (resolve_advances (yields.ready ready) yields.apart.covers) ?_
    intro _ after ⟨advances, _⟩
    exact Ensures.pure ((yields.toAdvances.trans advances).evolves ready)
  | .inferStmts program =>
    refine Ensures.bind (inferStmts_continues program.body ready) ?_
    intro ⟨raw, tys⟩ now ⟨continues, _, covers⟩
    refine Ensures.bind (finalize_ensures continues.ready.wellFormed
      (coversEach_append.mpr ⟨continues.extends_.coversEach within, covers⟩)) ?_
    intro _ _ ⟨⟨arena, shortens, same⟩, _⟩
    subst same
    exact Ensures.pure (continues.evolves.of_shortens shortens)
  | .infer program =>
    exact Ensures.bind (infer_evolves ready program) fun _ _ evolves => Ensures.pure evolves
  | .inferResolved program resolution =>
    refine Ensures.bind ?_ fun _ _ evolves => Ensures.pure evolves
    rw [inferResolved]
    split_ifs
    · exact Ensures.pure ((Advances.refl ready).evolves ready)
    · exact Ensures.bind (infer_evolves ready program) fun _ _ evolves => Ensures.pure evolves

/-! ### Whole sessions -/

theorem Reachable.sound (reachable : session.Reachable) :
    session.Ready ∅ ∧ session.arena.marks = (none, false) := by
  induction reachable with
  | new lossy => exact ⟨new_ready lossy, rfl⟩
  | perform reachable request within inductionHypothesis =>
    obtain ⟨ready, marks⟩ := inductionHypothesis
    have evolves := perform_evolves ready request within
    exact ⟨evolves.ready, evolves.extends_.marks.trans marks⟩
  | inferStmt reachable statement inductionHypothesis =>
    obtain ⟨ready, marks⟩ := inductionHypothesis
    have continues := (inferStmt_framed statement ready).1
    exact ⟨continues.ready, continues.extends_.marks.trans marks⟩

/-- In every session that a new one can become, also through unifications that fail, links mention
only variables that exist, and no variable is reached from itself along links. No walk has left the
arena or used up the number of links that it may follow, and none does so in answering any further
request about variables that exist. -/
theorem reachable_arena_wellFormed (session : Session) (reachable : session.Reachable) :
    (∀ id ty, session.arena.target id = some ty → session.arena.Covers ty) ∧
      (∀ id, ¬ TransGen session.arena.Points id id) ∧
      session.arena.stray = none ∧ session.arena.endless = false ∧
      ∀ request : Request, request.Within session.arena →
        ∃ response after, session.answer request = .ok (response, after) ∧
          after.arena.endless = false := by
  obtain ⟨ready, marks⟩ := reachable.sound
  obtain ⟨unstrayed, ended⟩ := Prod.mk.inj marks
  refine ⟨ready.wellFormed.covers, ready.wellFormed.acyclic, unstrayed, ended, ?_⟩
  intro request within
  rcases performed : perform request session with ⟨response, after⟩
  have unmarked : after.arena.marks = (none, false) := by
    have sound := (reachable.perform request within).sound
    rw [performed] at sound
    exact sound.2
  obtain ⟨unstrayed', ended'⟩ := Prod.mk.inj unmarked
  refine ⟨response, after, ?_, ended'⟩
  simp only [answer, performed, unstrayed']

/-- A session with one variable that could not be made equal to the arrays of itself. -/
theorem infinite_refused_reachable :
    let session := (perform (.unify {} (.var 0) (.array (.var 0)))
      (perform .fresh (new false)).2).2
    session.diagnostics.length = 1 ∧ ∀ id, ¬ TransGen session.arena.Points id id := by
  have fresh : (perform .fresh (new false)).2.Reachable :=
    (Reachable.new false).perform .fresh trivial
  have known : (perform .fresh (new false)).2.arena.Covers (.var 0) :=
    covers_var.mpr Nat.zero_lt_one
  exact ⟨by decide, (reachable_arena_wellFormed _ (fresh.perform
    (.unify {} (.var 0) (.array (.var 0))) ⟨known, covers_array.mpr known⟩)).2.1⟩

end Session

end ArrowCheck
