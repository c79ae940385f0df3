/-
This file proves that types only ever become more specific. Whatever a session is
asked, and however often, types that stood for the same type go on to do so, a
variable that was resolved is not made free again, and what a type stands for is
found from what it stood for before. Operations that fail, and programs with
errors, are no exception: what they did before they failed stays.
-/

import ArrowCheck.Proofs.Reachability

namespace ArrowCheck.Session

open Arena Relation

/-- What one operation can make of a session, as long as the types that it is given mention only
variables that exist. -/
inductive Step (session : Session) : Session → Prop
  | perform (request : Request) (within : request.Within session.arena) :
    Step session (perform request session).2
  | inferExpr (expr : Expr) : Step session (inferExpr expr session).2
  | inferStmt (statement : Stmt) : Step session (inferStmt statement session).2
  | finalize (program : Program) (covers : session.arena.CoversEach program.tys) :
    Step session (finalize program session).2

variable {before middle after session later : Session}

theorem Ready.sessionWellFormed {settled : Set VarId} (ready : session.Ready settled) :
    session.WellFormed :=
  ⟨ready.wellFormed, ready.covers⟩

theorem Evolves.refl (ready : session.Ready ∅) : session.Evolves session :=
  (Advances.refl ready).evolves ready

theorem Evolves.trans (first : before.Evolves middle) (second : middle.Evolves after) :
    before.Evolves after :=
  ⟨second.ready, first.extends_.trans second.extends_⟩

/-- What one operation preserves. -/
theorem Step.evolves (step : Step before after) (ready : before.Ready ∅) :
    before.Evolves after := by
  cases step with
  | perform request within => exact perform_evolves ready request within
  | inferExpr expr => exact (inferExpr_framed expr ready).1.evolves ready
  | inferStmt statement => exact (inferStmt_framed statement ready).1.evolves
  | finalize program covers =>
    obtain ⟨⟨arena, shortens, same⟩, _⟩ := finalize_ensures ready.wellFormed covers
    rw [same]
    exact (Evolves.refl ready).of_shortens shortens

/-- What any number of operations preserves. -/
theorem evolves_of_steps (steps : ReflTransGen Step before after) (ready : before.Ready ∅) :
    before.Evolves after := by
  induction steps with
  | refl => exact .refl ready
  | tail _ step inductionHypothesis =>
    exact inductionHypothesis.trans (step.evolves inductionHypothesis.ready)

theorem resolve_eq (wellFormed : session.arena.WellFormed) {ty : Ty}
    (covers : session.arena.Covers ty) : (resolve ty session).1 = session.arena.solved ty :=
  (resolve_ensures wellFormed covers).2

/-- A variable that has been given a meaning keeps having one. -/
theorem Evolves.isFree_eq_false (evolves : session.Evolves later) {id : VarId}
    (known : id < session.arena.size) (linked : session.arena.isFree id = false) :
    later.arena.isFree id = false := by
  by_contra free
  rw [Bool.not_eq_false, isFree_iff] at free
  have unlinked := evolves.extends_.unlinked id free.2
  rw [isFree_iff.mpr ⟨known, unlinked⟩] at linked
  exact Bool.noConfusion linked

/-- After any number of operations on a well-formed session, the session is well formed. Types that
were resolved to the same type still are, variables that were resolved still are, and a type is
resolved to what its earlier resolved form is resolved to. -/
theorem types_specialise (session later : Session) (wellFormed : session.WellFormed)
    (steps : ReflTransGen Step session later) :
    later.WellFormed ∧
      (∀ first second, session.arena.Covers first → session.arena.Covers second →
        (resolve first session).1 = (resolve second session).1 →
          (resolve first later).1 = (resolve second later).1) ∧
      (∀ id < session.arena.size,
        session.arena.isFree id = false → later.arena.isFree id = false) ∧
      ∀ ty, session.arena.Covers ty →
        (resolve ty later).1 = (resolve (resolve ty session).1 later).1 := by
  have evolves := evolves_of_steps steps wellFormed.ready
  have extends_ := evolves.extends_
  have resolved {ty : Ty} (covers : session.arena.Covers ty) :
      (resolve ty later).1 = later.arena.solved ty :=
    resolve_eq extends_.wellFormed (extends_.covers covers)
  refine ⟨evolves.ready.sessionWellFormed, ?_, fun id => evolves.isFree_eq_false, ?_⟩
  · intro first second covers covers' same
    rw [resolve_eq wellFormed.arena covers, resolve_eq wellFormed.arena covers'] at same
    rw [resolved covers, resolved covers']
    exact extends_.solved_congr same
  · intro ty covers
    rw [resolve_eq wellFormed.arena covers, resolved covers,
      resolved (covers.solved wellFormed.arena)]
    exact (extends_.solved_solved ty).symm

/-- Two variables that were made equal both become the type of numbers when one of them is unified
with it, also though that unification fails because of the type of strings. -/
theorem equal_variables_specialise :
    let session := (perform (.unify {} (.var 0) (.var 1))
      (perform .fresh (perform .fresh (new false)).2).2).2
    let request := Request.unify {} (.fn [.var 1] (.var 1)) (.fn [.number] .string)
    let later := (perform request session).2
    later.diagnostics.length = 1 ∧ (resolve (.var 1) later).1 = .number ∧
      (resolve (.var 0) later).1 = (resolve (.var 1) later).1 ∧
      later.arena.isFree 0 = false := by
  intro session request later
  have reachable : session.Reachable :=
    (((Reachable.new false).perform .fresh trivial).perform .fresh trivial).perform
      (.unify {} (.var 0) (.var 1)) ⟨covers_var.mpr Nat.zero_lt_two, covers_var.mpr Nat.one_lt_two⟩
  have covers (id : VarId) (less : id < 2) : session.arena.Covers (.var id) :=
    covers_var.mpr less
  have within : request.Within session.arena := by
    refine ⟨covers_fn.mpr ⟨List.forall_mem_singleton.mpr (covers 1 ?_), covers 1 ?_⟩,
      covers_fn.mpr ⟨List.forall_mem_singleton.mpr (covers_prim _), covers_prim _⟩⟩ <;> decide
  obtain ⟨_, same, linked, _⟩ := types_specialise session later
    reachable.sound.1.sessionWellFormed (.single (.perform request within))
  refine ⟨by decide, by decide, same _ _ (covers 0 ?_) (covers 1 ?_) ?_, linked 0 ?_ ?_⟩ <;> decide

end ArrowCheck.Session
