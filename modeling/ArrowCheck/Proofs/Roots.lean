/-
This file describes what inference holds on to. At any moment some types are held
by what is still going on: the monomorphic types, and the types of expressions
whose parents are not finished. They are the roots, and only variables that they
reach are ever bound.

A future of an arena is an arena that it may become while only what the roots
reach is bound. Inference leads from roots to other roots, and a future of the
roots that it ends with is a future of those that it started with.
-/

import ArrowCheck.Proofs.Inference

namespace ArrowCheck

open Arena

/-! ### Futures -/

/-- What an arena may become while only variables that the roots reach are bound. -/
def Arena.Future (arena : Arena) (roots : List Ty) (final : Arena) : Prop :=
  arena.Extends (arena.unreached roots) final

/-- Roots may be exchanged for others that reach as much. -/
theorem Arena.Future.exchange {arena final : Arena} {roots roots' : List Ty}
    (future : arena.Future roots final) (wellFormed : arena.WellFormed)
    (reach : ∀ ty ∈ roots, ∀ id ∈ (arena.solved ty).vars,
      ∃ other ∈ roots', id ∈ (arena.solved other).vars) : arena.Future roots' final := by
  refine future.anti wellFormed fun id ⟨known, free, absent⟩ => ⟨known, free, ?_⟩
  intro ty member occurs
  obtain ⟨other, member', occurs'⟩ := reach ty member id occurs
  exact absent other member' occurs'

theorem Arena.Future.mono {arena final : Arena} {roots roots' : List Ty}
    (future : arena.Future roots final) (wellFormed : arena.WellFormed) (subset : roots ⊆ roots') :
    arena.Future roots' final :=
  future.exchange wellFormed fun ty member _ occurs => ⟨ty, subset member, occurs⟩

/-- A root may be exchanged for parts that reach as much. -/
theorem Arena.Future.split {arena final : Arena} {ty : Ty} {parts roots : List Ty}
    (future : arena.Future (ty :: roots) final) (wellFormed : arena.WellFormed)
    (reach : ∀ id ∈ (arena.solved ty).vars, ∃ part ∈ parts, id ∈ (arena.solved part).vars) :
    arena.Future (parts ++ roots) final := by
  refine future.exchange wellFormed fun other member id occurs => ?_
  rcases List.mem_cons.mp member with same | member
  · rw [same] at occurs
    obtain ⟨part, member, occurs⟩ := reach id occurs
    exact ⟨part, List.mem_append_left _ member, occurs⟩
  · exact ⟨other, List.mem_append_right _ member, occurs⟩

namespace Session

variable {roots roots' given results : List Ty} {before after session : Session} {final : Arena}
  {Result : Type}

/-! ### Roots -/

/-- The roots of a session: they reach all that may be bound. -/
structure Rooted (session : Session) (roots : List Ty) : Prop where
  ready : session.Ready ∅
  covers : session.arena.CoversEach roots
  monomorphic : session.scopes.current.monomorphic ⊆ roots

theorem Rooted.ready_unreached (rooted : session.Rooted roots) :
    session.Ready (session.arena.unreached roots) :=
  ⟨rooted.ready.wellFormed, settles_unreached _ _, rooted.ready.covers,
    fun _ member => avoids_unreached (rooted.monomorphic member)⟩

theorem Rooted.apart_unreached (rooted : session.Rooted roots) :
    ∀ ty ∈ roots, session.arena.Apart (session.arena.unreached roots) ty :=
  fun ty member => ⟨rooted.covers ty member, avoids_unreached member⟩

/-- Whatever variables are left alone, roots apart from them become other roots apart from them. -/
def Leads (before : Session) (roots : List Ty) (after : Session) (roots' : List Ty) : Prop :=
  ∀ settled, before.Ready settled → (∀ ty ∈ roots, before.arena.Apart settled ty) →
    after.Ready settled ∧ before.arena.Extends settled after.arena ∧
      ∀ ty ∈ roots', after.arena.Apart settled ty

/-- What does not take part stays apart as well. -/
theorem Leads.frame (leads : before.Leads given after results) (subset : given ⊆ roots) :
    before.Leads roots after (results ++ roots) := by
  intro settled ready apart
  obtain ⟨ready', extends_, apart'⟩ := leads settled ready fun ty member => apart ty (subset member)
  exact ⟨ready', extends_, List.forall_mem_append.mpr
    ⟨apart', fun ty member => extends_.keeps (apart ty member)⟩⟩

theorem Leads.trans {middle : Session} {roots'' : List Ty}
    (leads : before.Leads roots middle roots')
    (leads' : middle.Leads roots' after roots'') : before.Leads roots after roots'' := by
  intro settled ready apart
  obtain ⟨ready', extends_, apart'⟩ := leads settled ready apart
  obtain ⟨ready'', extends_', apart''⟩ := leads' settled ready' apart'
  exact ⟨ready'', extends_.trans extends_', apart''⟩

theorem Leads.rooted (leads : before.Leads roots after roots') (rooted : before.Rooted roots)
    (monomorphic : after.scopes.current.monomorphic ⊆ roots') : after.Rooted roots' := by
  obtain ⟨ready, _, apart⟩ := leads ∅ rooted.ready fun ty member =>
    apart_empty (rooted.covers ty member)
  exact ⟨ready, fun ty member => (apart ty member).covers, monomorphic⟩

/-- A future of the roots at the end is a future of the roots at the start. -/
theorem Leads.future (leads : before.Leads roots after roots') (rooted : before.Rooted roots)
    (future : after.arena.Future roots' final) : before.arena.Future roots final := by
  obtain ⟨ready, extends_, apart⟩ := leads _ rooted.ready_unreached rooted.apart_unreached
  refine extends_.trans (future.anti ready.wellFormed fun id member => ?_)
  refine ⟨(ready.settles id member).1, extends_.free id member, fun ty rootMember occurs => ?_⟩
  exact (apart ty rootMember).avoids id occurs member

/-! ### Steps from roots to roots -/

/-- What statements do that start with some roots and end with others. -/
structure Runs (before : Session) (roots : List Ty) (after : Session) (roots' : List Ty) :
    Prop where
  leads : before.Leads roots after roots'
  silent : after.diagnostics = [] → before.diagnostics = []
  outer : after.scopes.outer = before.scopes.outer
  monomorphic : after.scopes.current.monomorphic = before.scopes.current.monomorphic

/-- What expressions do that start with some roots and end with others. -/
structure Infers (before : Session) (roots : List Ty) (after : Session) (roots' : List Ty) : Prop
    extends Runs before roots after roots' where
  scopes : after.scopes = before.scopes

theorem Runs.rooted (runs : before.Runs roots after roots') (rooted : before.Rooted roots)
    (subset : roots ⊆ roots') : after.Rooted roots' := by
  refine runs.leads.rooted rooted ?_
  rw [runs.monomorphic]
  exact List.Subset.trans rooted.monomorphic subset

/-- The descriptions of a step for all variables that may be left alone, taken together. -/
theorem Rooted.continues_runs (rooted : session.Rooted roots) {action : SessionM Result}
    {ty : Result → Ty} {typed : Result → Session → Prop}
    (frame : ∀ settled, session.Ready settled → Ensures action session fun value after =>
      session.Continues settled after ∧ after.arena.Apart settled (ty value) ∧
        typed value after) :
    Ensures action session fun value after => session.Runs roots after (ty value :: roots) := by
  have continues := (frame ∅ rooted.ready).1
  refine ⟨fun settled ready apart => ?_, continues.silent, continues.outer, continues.monomorphic⟩
  obtain ⟨continues, apart', _⟩ := frame settled ready
  exact ⟨continues.ready, continues.extends_, List.forall_mem_cons.mpr
    ⟨apart', fun other member => continues.extends_.keeps (apart other member)⟩⟩

theorem Rooted.advances_infers (rooted : session.Rooted roots) {action : SessionM Result}
    {tys : Result → List Ty} {typed : Result → Session → Prop}
    (frame : ∀ settled, session.Ready settled →
      (∀ other ∈ roots, session.arena.Apart settled other) →
      Ensures action session fun value after => session.Advances settled after ∧
        (∀ ty ∈ tys value, after.arena.Apart settled ty) ∧ typed value after) :
    Ensures action session fun value after =>
      session.Infers roots after (tys value ++ roots) ∧ typed value after := by
  obtain ⟨advances, _, typed⟩ := frame ∅ rooted.ready fun other member =>
    apart_empty (rooted.covers other member)
  refine ⟨⟨⟨fun settled ready apart => ?_, advances.silent, ?_, ?_⟩, advances.scopes⟩, typed⟩
  · obtain ⟨advances, apart', _⟩ := frame settled ready apart
    exact ⟨advances.ready ready, advances.extends_, List.forall_mem_append.mpr
      ⟨apart', fun other member => advances.keeps (apart other member)⟩⟩
  · rw [advances.scopes]
  · rw [advances.scopes]

theorem Rooted.yields_infers (rooted : session.Rooted roots) {action : SessionM Result}
    {ty : Result → Ty} {typed : Result → Session → Prop}
    (frame : ∀ settled, session.Ready settled →
      (∀ other ∈ roots, session.arena.Apart settled other) →
      Ensures action session fun value after =>
        session.Yields settled (ty value) after ∧ typed value after) :
    Ensures action session fun value after =>
      session.Infers roots after (ty value :: roots) ∧ typed value after := by
  have frame' (settled : Set VarId) (ready : session.Ready settled)
      (apart : ∀ other ∈ roots, session.arena.Apart settled other) :
      Ensures action session fun value after => session.Advances settled after ∧
        (∀ other ∈ [ty value], after.arena.Apart settled other) ∧ typed value after :=
    (frame settled ready apart).mono fun _ _ ⟨yields, typed⟩ =>
      ⟨yields.toAdvances, List.forall_mem_singleton.mpr yields.apart, typed⟩
  exact rooted.advances_infers frame'

theorem Rooted.keeps_infers (rooted : session.Rooted roots) {action : SessionM Result}
    {typed : Result → Session → Prop}
    (frame : ∀ settled, session.Ready settled →
      (∀ other ∈ roots, session.arena.Apart settled other) →
      Ensures action session fun value after =>
        session.Advances settled after ∧ typed value after) :
    Ensures action session fun value after =>
      session.Infers roots after roots ∧ typed value after := by
  have frame' (settled : Set VarId) (ready : session.Ready settled)
      (apart : ∀ other ∈ roots, session.arena.Apart settled other) :
      Ensures action session fun value after => session.Advances settled after ∧
        (∀ other ∈ ([] : List Ty), after.arena.Apart settled other) ∧ typed value after :=
    (frame settled ready apart).mono fun _ _ ⟨advances, typed⟩ =>
      ⟨advances, List.forall_mem_nil _, typed⟩
  exact rooted.advances_infers frame'

theorem Rooted.fresh_infers (rooted : session.Rooted roots) :
    Ensures fresh session fun ty after => session.Infers roots after (ty :: roots) := by
  have frame (settled : Set VarId) (ready : session.Ready settled) :
      Ensures fresh session fun ty after => session.Yields settled ty after ∧ True :=
    (fresh_yields ready).mono fun _ _ yields => ⟨yields, trivial⟩
  exact (rooted.yields_infers fun settled ready _ => frame settled ready).1

theorem yields_leads {given : List Ty} {action : SessionM Result} {ty : Result → Ty}
    {typed : Result → Session → Prop}
    (frame : ∀ settled, session.Ready settled →
      (∀ other ∈ given, session.arena.Apart settled other) →
      Ensures action session fun value after =>
        session.Yields settled (ty value) after ∧ typed value after) :
    Ensures action session fun value after => session.Leads given after [ty value] := by
  intro settled ready apart
  have yields := (frame settled ready apart).1
  exact ⟨yields.ready ready, yields.extends_, List.forall_mem_singleton.mpr yields.apart⟩

/-- A future of some of the roots at the end is a future of the roots at the start. -/
theorem Runs.past {fewer : List Ty} (runs : before.Runs roots after roots')
    (rooted : before.Rooted roots) (future : after.arena.Future fewer final)
    (subset : fewer ⊆ roots') : before.arena.Future roots final := by
  obtain ⟨ready, _⟩ := runs.leads ∅ rooted.ready fun ty member =>
    apart_empty (rooted.covers ty member)
  exact runs.leads.future rooted (future.mono ready.wellFormed subset)

theorem Runs.frame {more : List Ty} (runs : before.Runs roots after roots')
    (subset : roots ⊆ more) : before.Runs more after (roots' ++ more) :=
  ⟨runs.leads.frame subset, runs.silent, runs.outer, runs.monomorphic⟩

end Session

end ArrowCheck
