/-
This file proves that looking at types cannot be noticed. Following a chain of
links, resolving a type, showing it and searching it for a variable all rewrite
links on their way, and how many they rewrite depends on what they find. But they
only ever shorten chains, so whoever looks at the session afterwards finds the
same scopes, the same diagnostics, the same free variables and the same resolved
types as before.
-/

import ArrowCheck.Proofs.Specificity

namespace ArrowCheck.Session

open Arena

/-- Two sessions differ in nothing that can be seen: at most in the links by which resolved types
are found. -/
structure Undisturbed (before after : Session) : Prop where
  scopes : after.scopes = before.scopes
  diagnostics : after.diagnostics = before.diagnostics
  hasErrors : after.hasErrors = before.hasErrors
  lossy : after.lossy = before.lossy
  size : after.arena.size = before.arena.size
  marks : after.arena.marks = before.arena.marks
  isFree : ∀ id, after.arena.isFree id = before.arena.isFree id
  resolved : ∀ ty, before.arena.Covers ty → (resolve ty after).1 = (resolve ty before).1

variable {session : Session}

/-- Shortening chains cannot be noticed. -/
theorem undisturbed_of_shortens (wellFormed : session.arena.WellFormed) {arena : Arena}
    (shortens : session.arena.Shortens arena) :
    session.Undisturbed { session with arena := arena } := by
  refine ⟨rfl, rfl, rfl, rfl, shortens.size, shortens.marks, fun id => ?_, fun ty covers => ?_⟩
  · rw [Bool.eq_iff_iff, isFree_iff, isFree_iff, shortens.target_eq_none wellFormed, shortens.size]
  · rw [resolve_eq wellFormed covers, resolve_eq shortens.wellFormed (shortens.covers covers)]
    exact shortens.solved ty

/-- What only shortens chains cannot be noticed. -/
theorem onArena_undisturbed {Result : Type} {action : ArenaM Result}
    {post : Result → Arena → Prop} (wellFormed : session.arena.WellFormed)
    (holds : Ensures action session.arena fun value arena =>
      session.arena.Shortens arena ∧ post value arena) :
    session.Undisturbed (onArena action session).2 :=
  undisturbed_of_shortens wellFormed holds.1

/-- What leaves the arena as it is leaves the session as it is. -/
theorem onArena_of_eq {Result : Type} {action : ArenaM Result} {value : Result}
    (same : action session.arena = (value, session.arena)) :
    onArena action session = (value, session) := by
  rw [onArena, same]

/-- A resolved type has only free variables, so resolving it again does nothing. -/
theorem resolve_resolved (wellFormed : session.arena.WellFormed) {ty : Ty}
    (covers : session.arena.Covers ty) :
    Ensures (resolve ty) session fun value after =>
      (∀ id ∈ value.vars, session.arena.isFree id = true) ∧
        resolve value after = (value, after) := by
  have undisturbed := onArena_undisturbed wellFormed (resolve_ensures wellFormed covers)
  have free : ∀ id ∈ (resolve ty session).1.vars, session.arena.isFree id = true := by
    rw [resolve_eq wellFormed covers]
    exact fun id => isFree_of_mem_solved wellFormed covers
  refine ⟨free, onArena_of_eq (resolve_of_free fun id occurs => ?_)⟩
  exact (undisturbed.isFree id).trans (free id occurs)

/-- Following a type, resolving it, showing it and searching it for a variable leave all as it was
that can be seen of the session. A resolved type has only free variables and is resolved to itself.
A variable is found in a type exactly if it occurs in the resolved type. -/
theorem inspections_undisturbed (session : Session) (wellFormed : session.arena.WellFormed)
    (ty : Ty) (covers : session.arena.Covers ty) (id : VarId) :
    session.Undisturbed (compress ty session).2 ∧
      session.Undisturbed (resolve ty session).2 ∧
      session.Undisturbed ((Ty.text <$> resolve ty) session).2 ∧
      session.Undisturbed (occursIn id ty session).2 ∧
      (∀ other ∈ (resolve ty session).1.vars, session.arena.isFree other = true) ∧
      (Ensures (resolve ty) session fun value after => resolve value after = (value, after)) ∧
      ((occursIn id ty session).1 = true ↔ id ∈ (resolve ty session).1.vars) := by
  have resolved := onArena_undisturbed wellFormed (resolve_ensures wellFormed covers)
  have searched := occursIn_ensures wellFormed id covers
  obtain ⟨free, again⟩ := resolve_resolved wellFormed covers
  refine ⟨onArena_undisturbed wellFormed (compress_ensures wellFormed covers), resolved, resolved,
    onArena_undisturbed wellFormed searched, free, again, ?_⟩
  rw [resolve_eq wellFormed covers]
  exact searched.2

/-- Following a variable that is linked to arrays by way of two others rewrites its link, which
cannot be noticed. -/
theorem linked_chain_undisturbed :
    let session := (perform (.unify {} (.var 2) (.array (.var 3)))
      (perform (.unify {} (.var 1) (.var 2)) (perform (.unify {} (.var 0) (.var 1))
        (perform .fresh (perform .fresh (perform .fresh (perform .fresh
          (new false)).2).2).2).2).2).2).2
    (compress (.var 0) session).2.arena ≠ session.arena ∧
      session.Undisturbed (compress (.var 0) session).2 ∧
      (occursIn 3 (.var 0) session).1 = true ∧ 3 ∈ (resolve (.var 0) session).1.vars := by
  intro session
  have created : (perform .fresh (perform .fresh (perform .fresh (perform .fresh
      (new false)).2).2).2).2.Reachable :=
    ((((Reachable.new false).perform .fresh trivial).perform .fresh trivial).perform .fresh
      trivial).perform .fresh trivial
  have known {arena : Arena} (size : arena.size = 4) (id : Fin 4) : arena.Covers (.var id) :=
    covers_var.mpr (id.isLt.trans_eq size.symm)
  have reachable : session.Reachable :=
    ((created.perform (.unify {} (.var 0) (.var 1)) ⟨known rfl 0, known rfl 1⟩).perform
      (.unify {} (.var 1) (.var 2)) ⟨known rfl 1, known rfl 2⟩).perform
        (.unify {} (.var 2) (.array (.var 3))) ⟨known rfl 2, covers_array.mpr (known rfl 3)⟩
  obtain ⟨followed, _, _, _, _, _, found⟩ :=
    inspections_undisturbed session reachable.sound.1.wellFormed (.var 0) (known rfl 0) 3
  exact ⟨by decide, followed, by decide, found.mp (by decide)⟩

end ArrowCheck.Session
