/-
This file proves what makes generalisation sound. The generic variables are those
that occur in the type of a name but in no monomorphic type, and no root reaches
them. So whatever happens later binds none of them, and an instance of the type of
a name is an instance of it ever after.
-/

import ArrowCheck.Proofs.Roots

namespace ArrowCheck

open Arena

/-! ### The contexts of scopes -/

namespace Scopes

/-- All bindings, of which the first counts for a name. -/
def bindings (scopes : Scopes) : List (String × Ty) :=
  (scopes.current :: scopes.outer).flatMap Frame.bindings

/-- The context that scopes stand for when types have given values. -/
def context (scopes : Scopes) (value : Ty → Ty) : Context :=
  ⟨scopes.bindings.map (Prod.map id value), scopes.current.monomorphic.map value⟩

/-- The types that names are bound to. -/
def bound (scopes : Scopes) : List Ty :=
  scopes.bindings.map Prod.snd

theorem mem_tys_of_bound {scopes : Scopes} {ty : Ty} (member : ty ∈ scopes.bound) :
    ty ∈ scopes.tys := by
  obtain ⟨binding, member, same⟩ := List.mem_map.mp member
  obtain ⟨frame, inFrames, member⟩ := List.mem_flatMap.mp member
  refine mem_tys_of_frame inFrames (List.mem_append_left _ ?_)
  exact List.mem_map.mpr ⟨binding, member, same⟩

variable (scopes : Scopes) (value : Ty → Ty)

theorem find?_eq_lookup (name : String) : scopes.find? name = scopes.bindings.lookup name := by
  rw [find?, bindings]
  generalize scopes.current :: scopes.outer = frames
  induction frames with
  | nil => rfl
  | cons frame frames inductionHypothesis =>
    rw [List.findSome?_cons, List.flatMap_cons, List.lookup_append, ← inductionHypothesis]
    cases frame.bindings.lookup name <;> rfl

theorem lookup_map_value (bindings : List (String × Ty)) (name : String) :
    (bindings.map (Prod.map id value)).lookup name = (bindings.lookup name).map value := by
  induction bindings with
  | nil => rfl
  | cons binding bindings inductionHypothesis =>
    obtain ⟨bound, ty⟩ := binding
    simp only [List.map_cons, Prod.map_apply, id_eq, List.lookup_cons, inductionHypothesis]
    cases name == bound <;> rfl

theorem mem_bound_of_find? {scopes : Scopes} {name : String} {ty : Ty}
    (found : scopes.find? name = some ty) : ty ∈ scopes.bound := by
  rw [find?_eq_lookup] at found
  obtain ⟨before, after, bindings, _⟩ := List.lookup_eq_some_iff.mp found
  rw [bound, bindings]
  simp

theorem lookup_context {scopes : Scopes} {name : String} {ty : Ty}
    (found : scopes.find? name = some ty) :
    (scopes.context value).bindings.lookup name = some (value ty) := by
  rw [context, lookup_map_value, ← find?_eq_lookup, found, Option.map_some]

theorem context_push : scopes.push.context value = scopes.context value :=
  rfl

theorem context_bind (name : String) (ty : Ty) :
    (scopes.bind name ty).context value = (scopes.context value).bind name (value ty) :=
  rfl

theorem context_enter (params : List Param) (tys : List Ty) :
    (scopes.enter params tys).context value =
      (scopes.context value).enter params (tys.map value) := by
  induction params generalizing scopes tys with
  | nil => rfl
  | cons param params inductionHypothesis =>
    cases tys with
    | nil => rfl
    | cons ty tys =>
      rw [enter, inductionHypothesis, List.map_cons, Context.enter]
      congr 1
      rw [context, keep, List.map_append]
      rfl

theorem monomorphic_enter (params : List Param) (tys : List Ty) :
    scopes.current.monomorphic ⊆ (scopes.enter params tys).current.monomorphic ∧
      (scopes.enter params tys).current.monomorphic ⊆ scopes.current.monomorphic ++ tys := by
  induction params generalizing scopes tys with
  | nil => exact ⟨List.Subset.refl _, List.subset_append_left _ _⟩
  | cons param params inductionHypothesis =>
    cases tys with
    | nil => exact ⟨List.Subset.refl _, List.subset_append_left _ _⟩
    | cons ty tys =>
      obtain ⟨more, only⟩ := inductionHypothesis ((scopes.bind param.name ty).keep ty) tys
      refine ⟨List.Subset.trans (List.subset_append_left _ _) more, List.Subset.trans only ?_⟩
      rw [keep, List.append_assoc, List.singleton_append]
      exact List.Subset.refl _

theorem bound_enter (params : List Param) (tys : List Ty) {other : Ty}
    (member : other ∈ (scopes.enter params tys).bound) :
    other ∈ (scopes.enter params tys).current.monomorphic ∨ other ∈ scopes.bound := by
  induction params generalizing scopes tys with
  | nil => exact .inr member
  | cons param params inductionHypothesis =>
    cases tys with
    | nil => exact .inr member
    | cons ty tys =>
      rcases inductionHypothesis _ tys member with fixed | earlier
      · exact .inl fixed
      · rcases List.mem_cons.mp earlier with same | earlier
        · refine .inl ((monomorphic_enter _ params tys).1 ?_)
          rw [same]
          exact List.mem_append_right _ (List.mem_singleton_self ty)
        · exact .inr earlier

end Scopes

namespace Session

variable {settled : Set VarId} {roots roots' : List Ty} {before after session : Session}
  {final : Arena}

/-! ### Generic variables -/

/-- The variables of types that are not monomorphic. -/
def generic (session : Session) (tys : List Ty) : Set VarId :=
  { id | (∃ ty ∈ tys, id ∈ (session.arena.solved ty).vars) ∧ ¬ session.Monomorphic id }

theorem ready_generic (ready : session.Ready ∅) {tys : List Ty}
    (covers : session.arena.CoversEach tys) : session.Ready (session.generic tys) where
  wellFormed := ready.wellFormed
  settles id := by
    intro ⟨⟨ty, member, occurs⟩, _⟩
    exact ⟨(covers ty member).solved ready.wellFormed id occurs,
      meaning_of_free (target_of_mem_solved ready.wellFormed occurs)⟩
  covers := ready.covers
  avoids kept member id occurs := fun ⟨_, generic⟩ => generic ⟨kept, member, occurs⟩

/-- As long as the generic variables of types are left alone, they get no others. -/
theorem mem_generic_of_later {tys : List Ty}
    (extends_ : before.arena.Extends (before.generic tys) after.arena)
    (monomorphic : before.scopes.current.monomorphic ⊆ after.scopes.current.monomorphic)
    {ty : Ty} {id : VarId} (member : ty ∈ tys) (occurs : id ∈ (after.arena.solved ty).vars)
    (generic : ¬ after.Monomorphic id) : id ∈ before.generic tys := by
  rw [← extends_.solved_solved] at occurs
  obtain ⟨source, inside, occurs⟩ := mem_vars_solved.mp occurs
  by_cases fixed : before.Monomorphic source
  · obtain ⟨kept, keptMember, within⟩ := fixed
    refine absurd ⟨kept, monomorphic keptMember, ?_⟩ generic
    rw [← extends_.solved_solved]
    exact mem_vars_solved.mpr ⟨source, within, occurs⟩
  · have settled : source ∈ before.generic tys := ⟨⟨ty, member, inside⟩, fixed⟩
    rw [extends_.free source settled, Ty.mem_vars_var] at occurs
    rw [occurs]
    exact settled

/-- The roots of a session, which reach no generic variable of a name. -/
structure Pool (session : Session) (roots : List Ty) : Prop extends Rooted session roots where
  avoids : ∀ ty ∈ roots, session.arena.Avoids (session.generic session.scopes.bound) ty

theorem Pool.ready_bound (pool : session.Pool roots) :
    session.Ready (session.generic session.scopes.bound) :=
  ready_generic pool.ready fun ty member => pool.ready.covers ty (Scopes.mem_tys_of_bound member)

/-- Inference goes on with its roots as long as new names have monomorphic types. -/
theorem Pool.lead (pool : before.Pool roots) (leads : before.Leads roots after roots')
    (bound : ∀ ty ∈ after.scopes.bound,
      ty ∈ after.scopes.current.monomorphic ∨ ty ∈ before.scopes.bound)
    (monomorphic : before.scopes.current.monomorphic ⊆ after.scopes.current.monomorphic)
    (monomorphic' : after.scopes.current.monomorphic ⊆ roots') : after.Pool roots' := by
  obtain ⟨_, extends_, apart⟩ := leads _ pool.ready_bound fun ty member =>
    ⟨pool.covers ty member, pool.avoids ty member⟩
  refine ⟨leads.rooted pool.toRooted monomorphic', fun ty member => ?_⟩
  refine (apart ty member).avoids.mono fun id ⟨⟨other, otherMember, occurs⟩, generic⟩ => ?_
  rcases bound other otherMember with fixed | earlier
  · exact absurd ⟨other, fixed, occurs⟩ generic
  · exact mem_generic_of_later extends_ monomorphic earlier occurs generic

theorem Pool.fewer (pool : session.Pool roots) (subset : roots' ⊆ roots)
    (monomorphic : session.scopes.current.monomorphic ⊆ roots') : session.Pool roots' :=
  ⟨⟨pool.ready, fun ty member => pool.covers ty (subset member), monomorphic⟩,
    fun ty member => pool.avoids ty (subset member)⟩

/-- Inference goes on with its roots where the scopes have not changed. -/
theorem Pool.step (pool : before.Pool roots) (leads : before.Leads roots after roots')
    (scopes : after.scopes = before.scopes) (subset : roots ⊆ roots') : after.Pool roots' := by
  refine pool.lead leads ?_ ?_ ?_ <;> rw [scopes]
  · exact fun ty member => .inr member
  · exact List.Subset.refl _
  · exact List.Subset.trans pool.monomorphic subset

theorem Infers.pool (infers : before.Infers roots after roots') (pool : before.Pool roots)
    (subset : roots ⊆ roots') : after.Pool roots' :=
  pool.step infers.leads infers.scopes subset

/-- A name may be given a type that was inferred from the names in scope alone: what the type shares
with the roots is monomorphic. -/
theorem Pool.bind (pool : before.Pool roots) {ty : Ty} (leads : before.Leads [] after [ty])
    (scopes : after.scopes = before.scopes) (name : String) :
    Pool { after with scopes := after.scopes.bind name ty } roots := by
  have later : after.Pool ([ty] ++ roots) :=
    pool.step (leads.frame (List.nil_subset roots)) scopes (List.subset_append_right _ _)
  obtain ⟨_, extends_, apart⟩ := leads _ (ready_generic pool.ready pool.covers)
    (List.forall_mem_nil _)
  have covers := later.covers ty List.mem_cons_self
  refine ⟨⟨later.ready.bind covers name, fun other member =>
    later.covers other (List.mem_append_right _ member), ?_⟩, fun root member id occurs => ?_⟩
  · exact fun other member => pool.monomorphic (scopes ▸ member)
  · intro ⟨⟨other, otherMember, occurs'⟩, generic⟩
    rcases List.mem_cons.mp otherMember with same | earlier
    · -- The new type was inferred from no roots, so it avoids what is generic in them.
      rw [same] at occurs'
      have shared := mem_generic_of_later extends_ (by rw [scopes]; exact List.Subset.refl _) member
        occurs generic
      exact (apart ty List.mem_cons_self).avoids id occurs' shared
    · exact later.avoids root (List.mem_append_right _ member) id occurs
        ⟨⟨other, earlier, occurs'⟩, generic⟩

theorem Pool.generic_subset (pool : session.Pool roots) :
    session.generic session.scopes.bound ⊆ session.arena.unreached roots := by
  intro id member
  obtain ⟨known, free⟩ := pool.ready_bound.settles id member
  exact ⟨known, free, fun root rootMember occurs => pool.avoids root rootMember id occurs member⟩

/-- Values for the generic variables of names: each is replaced by what its copy stands for, and
every other variable is left as it is. -/
noncomputable def copies (session : Session) (values : VarId → Ty) (final : Arena) (id : VarId) :
    Ty :=
  open Classical in
  if id ∈ session.generic session.scopes.bound then final.solved (values id) else .var id

/-- What monomorphic types come to hold is never replaced. -/
theorem copies_of_monomorphic (pool : session.Pool roots) (past : session.arena.Future roots final)
    (values : VarId → Ty) {root : Ty} (member : root ∈ session.scopes.current.monomorphic)
    {id : VarId} (occurs : id ∈ (final.solved root).vars) :
    session.copies values final id = .var id := by
  have apart := past.keeps (pool.apart_unreached root (pool.monomorphic member))
  exact if_neg fun generic => apart.avoids id occurs (pool.generic_subset generic)

/-- The copies stand for what they replace. -/
theorem subst_copies (pool : session.Pool roots) (past : session.arena.Future roots final)
    {values : VarId → Ty} (fixed : ∀ id, session.Monomorphic id → values id = .var id) {stored : Ty}
    (bound : stored ∈ session.scopes.bound) {id : VarId}
    (occurs : id ∈ (session.arena.solved stored).vars) :
    final.solved (values id) = (final.meaning id).subst (session.copies values final) := by
  by_cases monomorphic : session.Monomorphic id
  · rw [fixed id monomorphic, solved_var]
    obtain ⟨root, member, within⟩ := monomorphic
    refine (Ty.subst_eq_self fun other inside =>
      copies_of_monomorphic pool past values member ?_).symm
    rw [← past.solved_solved]
    exact mem_vars_solved.mpr ⟨id, within, inside⟩
  · have generic : id ∈ session.generic session.scopes.bound :=
      ⟨⟨stored, bound, occurs⟩, monomorphic⟩
    rw [past.free id (pool.generic_subset generic), Ty.subst_var]
    exact (if_pos generic).symm

/-- An instance of the type of a name is an instance of it ever after. -/
theorem Instantiates.future {stored ty : Ty} (instantiates : before.Instantiates stored ty after)
    (pool : before.Pool roots) (bound : stored ∈ before.scopes.bound)
    (past : before.arena.Future roots final) (future : after.arena.Extends settled final) :
    (before.scopes.context final.solved).Instance (final.solved stored) (final.solved ty) := by
  obtain ⟨values, solved, fixed, _⟩ := instantiates
  have copied (id : VarId) (occurs : id ∈ (before.arena.solved stored).vars) :=
    subst_copies pool past fixed bound occurs
  refine ⟨before.copies values final, ?_, fun root member id occurs => ?_⟩
  · calc final.solved ty
      _ = final.solved ((before.arena.solved stored).subst values) := by
        rw [← future.solved_solved, solved]
      _ = (before.arena.solved stored).subst fun id => final.solved (values id) :=
        Ty.subst_subst _ _ _
      _ = (before.arena.solved stored).subst fun id =>
          (final.meaning id).subst (before.copies values final) := Ty.subst_congr copied
      _ = (final.solved (before.arena.solved stored)).subst (before.copies values final) :=
        (Ty.subst_subst _ _ _).symm
      _ = (final.solved stored).subst (before.copies values final) := by rw [past.solved_solved]
  · obtain ⟨root, member, same⟩ := List.mem_map.mp member
    rw [← same] at occurs
    exact copies_of_monomorphic pool past values member occurs

end Session

end ArrowCheck
