/-
This file describes what the operations of a session do to it. An operation makes
meanings more specific, adds diagnostics at the end, and leaves the scopes as it
found them. Free variables that none of the types it is given can reach are left
alone, and so is the rest of the session: the types that it gives are apart from
those variables as well. Names give nothing away either, since a name whose type
is not monomorphic is only ever used through a copy.
-/

import ArrowCheck.Proofs.Copies
import ArrowCheck.Proofs.TypeRules
import ArrowCheck.Proofs.Unification

namespace ArrowCheck

open Arena

/-! ### The types that scopes mention -/

/-- The types that a frame mentions. -/
def Frame.tys (frame : Frame) : List Ty :=
  frame.bindings.map Prod.snd ++ frame.monomorphic

namespace Scopes

/-- The types that scopes mention. -/
def tys (scopes : Scopes) : List Ty :=
  scopes.current.tys ++ scopes.outer.flatMap Frame.tys

variable {scopes : Scopes} {holds : Ty → Prop}

theorem forall_mem_tys : (∀ ty ∈ scopes.tys, holds ty) ↔
    (∀ ty ∈ scopes.current.tys, holds ty) ∧
      ∀ frame ∈ scopes.outer, ∀ ty ∈ frame.tys, holds ty := by
  simp only [tys, List.forall_mem_append, List.forall_mem_flatMap]

theorem forall_mem_push (all : ∀ ty ∈ scopes.tys, holds ty) : ∀ ty ∈ scopes.push.tys, holds ty := by
  obtain ⟨current, outer⟩ := forall_mem_tys.mp all
  refine forall_mem_tys.mpr ⟨fun ty member => ?_, List.forall_mem_cons.mpr ⟨current, outer⟩⟩
  exact current ty (List.mem_append_right _ member)

theorem forall_mem_pop (all : ∀ ty ∈ scopes.tys, holds ty) : ∀ ty ∈ scopes.pop.tys, holds ty := by
  obtain ⟨current, outer⟩ := scopes
  cases outer with
  | nil => exact all
  | cons frame outer =>
    exact forall_mem_tys.mpr (List.forall_mem_cons.mp (forall_mem_tys.mp all).2)

theorem forall_mem_bind {name : String} {ty : Ty} (all : ∀ other ∈ scopes.tys, holds other)
    (new : holds ty) : ∀ other ∈ (scopes.bind name ty).tys, holds other := by
  obtain ⟨current, outer⟩ := forall_mem_tys.mp all
  rw [forall_mem_tys]
  exact ⟨List.forall_mem_cons.mpr ⟨new, current⟩, outer⟩

theorem forall_mem_keep {ty : Ty} (all : ∀ other ∈ scopes.tys, holds other) (new : holds ty) :
    ∀ other ∈ (scopes.keep ty).tys, holds other := by
  obtain ⟨current, outer⟩ := forall_mem_tys.mp all
  rw [forall_mem_tys]
  refine ⟨?_, outer⟩
  rw [Frame.tys, keep, ← List.append_assoc]
  exact List.forall_mem_append.mpr ⟨current, List.forall_mem_singleton.mpr new⟩

theorem mem_tys_of_monomorphic {ty : Ty} (member : ty ∈ scopes.current.monomorphic) :
    ty ∈ scopes.tys :=
  List.mem_append_left _ (List.mem_append_right _ member)

theorem mem_tys_of_frame {frame : Frame} (member : frame ∈ scopes.current :: scopes.outer) {ty : Ty}
    (inside : ty ∈ frame.tys) : ty ∈ scopes.tys := by
  rcases List.mem_cons.mp member with same | outer
  · rw [same] at inside
    exact List.mem_append_left _ inside
  · exact List.mem_append_right _ (List.mem_flatMap.mpr ⟨frame, outer, inside⟩)

theorem mem_tys_of_find? {name : String} {ty : Ty} (found : scopes.find? name = some ty) :
    ty ∈ scopes.tys := by
  obtain ⟨frame, member, found⟩ := List.exists_of_findSome?_eq_some found
  obtain ⟨before, after, bindings, _⟩ := List.lookup_eq_some_iff.mp found
  refine mem_tys_of_frame member ?_
  rw [Frame.tys, bindings]
  simp

end Scopes

namespace Session

/-! ### Steps -/

/-- A session that can be worked with while some free variables are left alone. -/
structure Ready (settled : Set VarId) (session : Session) : Prop where
  wellFormed : session.arena.WellFormed
  settles : session.arena.Settles settled
  covers : ∀ ty ∈ session.scopes.tys, session.arena.Covers ty
  avoids : ∀ ty ∈ session.scopes.current.monomorphic, session.arena.Avoids settled ty

/-- No variable of a session is reached from itself, and links and scopes mention only variables
that exist. -/
structure WellFormed (session : Session) : Prop where
  arena : session.arena.WellFormed
  scopes : session.arena.CoversEach session.scopes.tys

/-- What an operation does to a session. -/
structure Advances (settled : Set VarId) (before after : Session) : Prop where
  extends_ : before.arena.Extends settled after.arena
  reports : before.diagnostics <+: after.diagnostics
  scopes : after.scopes = before.scopes
  lossy : after.lossy = before.lossy

/-- What an operation does to a session when it gives a type. -/
structure Yields (settled : Set VarId) (before : Session) (ty : Ty) (after : Session) : Prop
    extends Advances settled before after where
  apart : after.arena.Apart settled ty

variable {settled : Set VarId} {before middle after session : Session}

/-- No variable has to be left alone. -/
theorem ready_empty (wellFormed : session.arena.WellFormed)
    (covers : ∀ ty ∈ session.scopes.tys, session.arena.Covers ty) : session.Ready ∅ where
  wellFormed := wellFormed
  settles id member := absurd member (Set.notMem_empty id)
  covers := covers
  avoids _ _ id _ := Set.notMem_empty id

theorem WellFormed.ready (wellFormed : session.WellFormed) : session.Ready ∅ :=
  ready_empty wellFormed.arena wellFormed.scopes

theorem Ready.extend (ready : before.Ready settled)
    (extends_ : before.arena.Extends settled after.arena) (scopes : after.scopes = before.scopes) :
    after.Ready settled where
  wellFormed := extends_.wellFormed
  settles := extends_.settles ready.settles
  covers ty member := by
    rw [scopes] at member
    exact extends_.covers (ready.covers ty member)
  avoids ty member := by
    rw [scopes] at member
    exact extends_.apart ty (ready.covers ty (Scopes.mem_tys_of_monomorphic member))
      (ready.avoids ty member)

theorem Ready.apart (ready : session.Ready settled) {ty : Ty}
    (member : ty ∈ session.scopes.current.monomorphic) : session.arena.Apart settled ty :=
  ⟨ready.covers ty (Scopes.mem_tys_of_monomorphic member), ready.avoids ty member⟩

namespace Advances

theorem ready (advances : before.Advances settled after) (ready : before.Ready settled) :
    after.Ready settled :=
  ready.extend advances.extends_ advances.scopes

theorem refl (ready : session.Ready settled) : session.Advances settled session :=
  ⟨.refl ready.wellFormed ready.settles, List.prefix_rfl, rfl, rfl⟩

theorem trans (first : before.Advances settled middle) (second : middle.Advances settled after) :
    before.Advances settled after :=
  ⟨first.extends_.trans second.extends_, first.reports.trans second.reports,
    second.scopes.trans first.scopes, second.lossy.trans first.lossy⟩

theorem keeps (advances : before.Advances settled after) {ty : Ty}
    (apart : before.arena.Apart settled ty) : after.arena.Apart settled ty :=
  advances.extends_.keeps apart

/-- Nothing was reported before if nothing is reported after. -/
theorem silent (advances : before.Advances settled after) (silent : after.diagnostics = []) :
    before.diagnostics = [] := by
  have reports := advances.reports
  rw [silent] at reports
  exact List.prefix_nil.mp reports

/-- Changing no meaning is an advance. -/
theorem of_preserves (ready : session.Ready settled) {arena : Arena}
    (preserves : session.arena.Preserves arena) :
    session.Advances settled { session with arena := arena } :=
  ⟨preserves.extends ready.wellFormed ready.settles, List.prefix_rfl, rfl, rfl⟩

theorem yields {ty : Ty} (first : before.Advances settled middle)
    (second : middle.Yields settled ty after) : before.Yields settled ty after :=
  ⟨first.trans second.toAdvances, second.apart⟩

end Advances

/-- A variable that settled variables do not include is apart from them while it is free. -/
theorem apart_of_free {arena : Arena} {id : VarId} (known : id < arena.size)
    (free : arena.meaning id = .var id) (unsettled : id ∉ settled) :
    arena.Apart settled (.var id) := by
  refine ⟨covers_var.mpr known, avoids_var.mpr fun other occurs => ?_⟩
  rw [free, Ty.mem_vars_var] at occurs
  rw [occurs]
  exact unsettled

/-! ### Operations on the arena -/

theorem fresh_yields (ready : session.Ready settled) :
    Ensures fresh session (session.Yields settled) := by
  refine (onArena_ensures (fresh_ensures session.arena)).mono ?_
  intro _ _ ⟨_, ⟨created, grown⟩, same⟩
  subst created grown same
  have preserves := preserves_grown ready.wellFormed
  refine ⟨.of_preserves ready preserves, apart_of_free ?_ ?_ ?_⟩
  · show session.arena.size < session.arena.grown.size
    rw [size_grown]
    exact Nat.lt_succ_self _
  · rw [preserves.meaning]
    exact meaning_of_free (target_eq_none_of_size_le (le_refl _))
  · exact fun member => Nat.lt_irrefl _ (ready.settles _ member).1

theorem compress_yields (ready : session.Ready settled) {ty : Ty}
    (apart : session.arena.Apart settled ty) :
    Ensures (compress ty) session fun head after =>
      session.Yields settled head after ∧
        session.arena.solved head = session.arena.solved ty := by
  refine (onArena_ensures (compress_ensures ready.wellFormed apart.covers)).mono ?_
  intro head _ ⟨arena, ⟨shortens, heads, _⟩, same⟩
  subst same
  have advances := Advances.of_preserves ready shortens.toPreserves
  refine ⟨⟨advances, advances.keeps ⟨heads.covers, ?_⟩⟩, heads.solved⟩
  rw [Avoids, heads.solved]
  exact apart.avoids

theorem resolve_advances (ready : session.Ready settled) {ty : Ty}
    (covers : session.arena.Covers ty) :
    Ensures (resolve ty) session fun value after =>
      session.Advances settled after ∧ value = session.arena.solved ty := by
  refine (onArena_ensures (resolve_ensures ready.wellFormed covers)).mono ?_
  intro value _ ⟨arena, ⟨shortens, valueIs⟩, same⟩
  subst same
  exact ⟨.of_preserves ready shortens.toPreserves, valueIs⟩

theorem unify_advances (ready : session.Ready settled) (site : Site) {first second : Ty}
    (apart : session.arena.Apart settled first) (apart' : session.arena.Apart settled second) :
    Ensures (unify site first second) session fun _ after =>
      session.Advances settled after ∧
        (after.diagnostics = [] → after.arena.solved first = after.arena.solved second) := by
  refine (unify_unified ready.wellFormed site apart.covers apart'.covers).mono ?_
  intro verdict after unified
  obtain ⟨added, appended, silent⟩ := unified.reports
  refine ⟨⟨?_, ⟨added, appended.symm⟩, unified.scopes, unified.lossy⟩, fun nothing => ?_⟩
  · exact unified.extends_ settled ready.settles
      (avoidsAll_singleton.mpr ⟨apart.avoids, apart'.avoids⟩)
  · rw [appended, List.append_eq_nil_iff] at nothing
    exact equates_singleton.mp (unified.equates (silent.mpr nothing.2))

theorem report_advances (ready : session.Ready settled) (fault : Fault) (span : Option Span) :
    Ensures (report fault span) session fun _ after =>
      session.Advances settled after ∧ after.diagnostics ≠ [] :=
  ⟨⟨.refl ready.wellFormed ready.settles, List.prefix_append _ _, rfl, rfl⟩,
    List.append_ne_nil_of_right_ne_nil _ (List.cons_ne_nil _ _)⟩

/-- What is refused may have any type. -/
theorem report_fresh_yields (ready : session.Ready settled) (fault : Fault) (span : Option Span) :
    Ensures (do report fault span; fresh) session fun ty after =>
      session.Yields settled ty after ∧ after.diagnostics ≠ [] := by
  refine Ensures.bind (report_advances ready fault span) fun _ middle ⟨advances, loud⟩ => ?_
  refine (fresh_yields (advances.ready ready)).mono fun ty after yields => ?_
  exact ⟨advances.yields yields, fun silent => loud (yields.silent silent)⟩

/-! ### Written types -/

mutual

theorem ofWritten_yields (written : WrittenType) {session : Session}
    (ready : session.Ready settled) :
    Ensures (ofWritten written) session fun ty after =>
      session.Yields settled ty after ∧ written.Denotes ty := by
  have known {name : String} {span : Option Span} {primitive : Primitive}
      (member : (name, primitive) ∈ WrittenType.primitives) :
      Ensures (pure (.prim primitive)) session fun ty after =>
        session.Yields settled ty after ∧ (WrittenType.named name span).Denotes ty :=
    Ensures.pure ⟨⟨.refl ready, apart_prim primitive⟩, .primitive member⟩
  match written with
  | .named name span =>
    rw [ofWritten]
    split_ifs with number string bool void
    · subst number
      exact known (by decide)
    · subst string
      exact known (by decide)
    · subst bool
      exact known (by decide)
    · subst void
      exact known (by decide)
    · refine (fresh_yields ready).mono fun ty after yields => ⟨yields, .other ty ?_⟩
      intro primitive member
      simp only [WrittenType.primitives, List.mem_cons, Prod.mk.injEq, List.not_mem_nil] at member
      tauto
  | .array element span =>
    rw [ofWritten]
    refine Ensures.bind (ofWritten_yields element ready) fun ty after ⟨yields, denotes⟩ => ?_
    exact Ensures.pure ⟨⟨yields.toAdvances, apart_array.mpr yields.apart⟩, .array denotes⟩
  | .function params result span =>
    rw [ofWritten]
    refine Ensures.bind (ofWrittenAll_advances params ready) ?_
    intro paramTys middle ⟨advances, apart, denote⟩
    refine Ensures.bind (ofWritten_yields result (advances.ready ready)) ?_
    intro resultTy after ⟨yields, denotes⟩
    refine Ensures.pure ⟨⟨advances.trans yields.toAdvances, apart_fn.mpr ⟨?_, yields.apart⟩⟩,
      .function denote denotes⟩
    exact fun ty member => yields.keeps (apart ty member)

theorem ofWrittenAll_advances (written : List WrittenType) {session : Session}
    (ready : session.Ready settled) :
    Ensures (ofWrittenAll written) session fun tys after =>
      session.Advances settled after ∧ (∀ ty ∈ tys, after.arena.Apart settled ty) ∧
        WrittenType.DenoteAll written tys := by
  match written with
  | [] => exact Ensures.pure ⟨.refl ready, List.forall_mem_nil _, .nil⟩
  | head :: tail =>
    rw [ofWrittenAll]
    refine Ensures.bind (ofWritten_yields head ready) fun ty middle ⟨yields, denotes⟩ => ?_
    refine Ensures.bind (ofWrittenAll_advances tail (yields.ready ready)) ?_
    intro tys after ⟨advances, apart, denote⟩
    refine Ensures.pure ⟨yields.toAdvances.trans advances, ?_, .cons denotes denote⟩
    exact List.forall_mem_cons.mpr ⟨advances.keeps yields.apart, apart⟩

end

/-! ### Names -/

/-- A variable occurs in the meaning of a monomorphic type. -/
def Monomorphic (session : Session) (id : VarId) : Prop :=
  ∃ ty ∈ session.scopes.current.monomorphic, id ∈ (session.arena.solved ty).vars

/-- The meaning of a type, with new variables in the place of those that are not monomorphic. -/
def Instantiates (before : Session) (stored ty : Ty) (after : Session) : Prop :=
  ∃ values : VarId → Ty, after.arena.solved ty = (before.arena.solved stored).subst values ∧
    (∀ id, before.Monomorphic id → values id = .var id) ∧
    ∀ id ∈ (before.arena.solved stored).vars, ¬ before.Monomorphic id →
      ∃ created, values id = .var created ∧ before.arena.size ≤ created

theorem resolveAll_ensures (tys : List Ty) {session : Session}
    (wellFormed : session.arena.WellFormed) (covers : ∀ ty ∈ tys, session.arena.Covers ty) :
    Ensures (resolveAll tys) session fun values after =>
      ∃ arena, session.arena.Shortens arena ∧ after = { session with arena := arena } ∧
        values = tys.map session.arena.solved := by
  induction tys generalizing session with
  | nil => exact Ensures.pure ⟨_, .refl wellFormed, rfl, rfl⟩
  | cons head tail inductionHypothesis =>
    obtain ⟨covers, coversTail⟩ := List.forall_mem_cons.mp covers
    refine Ensures.bind (onArena_ensures (resolve_ensures wellFormed covers)) ?_
    intro value _ ⟨middle, ⟨shortens, valueIs⟩, same⟩
    subst valueIs same
    refine Ensures.bind (inductionHypothesis shortens.wellFormed
      fun ty member => shortens.covers (coversTail ty member)) ?_
    intro values _ ⟨last, shortens', same, valuesAre⟩
    subst valuesAre same
    refine Ensures.pure ⟨last, shortens.trans shortens', rfl, ?_⟩
    rw [List.map_cons, List.map_congr_left fun ty _ => (shortens.solved ty).symm]

theorem monomorphicVars_ensures (ready : session.Ready settled) :
    Ensures monomorphicVars session fun ids after =>
      ∃ arena, session.arena.Shortens arena ∧ after = { session with arena := arena } ∧
        ∀ id, id ∈ ids ↔ session.Monomorphic id := by
  refine Ensures.get_bind (Ensures.bind (resolveAll_ensures _ ready.wellFormed
    fun ty member => (ready.apart member).covers) ?_)
  intro values _ ⟨arena, shortens, same, valuesAre⟩
  subst valuesAre same
  refine Ensures.pure ⟨arena, shortens, rfl, fun id => ?_⟩
  simp only [List.mem_flatMap, List.mem_map, exists_exists_and_eq_and, Monomorphic]

/-- An instance is apart from settled variables, also where the type itself is not. -/
theorem Instantiates.avoids {stored ty : Ty} (ready : before.Ready settled)
    (instantiates : before.Instantiates stored ty after) : after.arena.Avoids settled ty := by
  obtain ⟨values, solved, fixed, renamed⟩ := instantiates
  intro id occurs
  rw [solved] at occurs
  obtain ⟨source, inside, occurs⟩ := Ty.mem_vars_subst.mp occurs
  by_cases monomorphic : before.Monomorphic source
  · rw [fixed source monomorphic, Ty.mem_vars_var] at occurs
    rw [occurs]
    obtain ⟨kept, member, within⟩ := monomorphic
    exact ready.avoids kept member source within
  · obtain ⟨created, valueIs, above⟩ := renamed source inside monomorphic
    rw [valueIs, Ty.mem_vars_var] at occurs
    rw [occurs]
    exact fun member => Nat.not_lt.mpr above (ready.settles created member).1

theorem freshInstance_yields (ready : session.Ready settled) {stored : Ty}
    (covers : session.arena.Covers stored) :
    Ensures (freshInstance stored) session fun ty after =>
      session.Yields settled ty after ∧ session.Instantiates stored ty after := by
  refine Ensures.bind (monomorphicVars_ensures ready) ?_
  intro kept _ ⟨middle, shortens, same, keptIff⟩
  subst same
  refine (onArena_ensures (copy_ensures shortens.wellFormed kept (shortens.covers covers))).mono ?_
  intro ty _ ⟨arena, ⟨preserves, isCopy⟩, same⟩
  subst same
  obtain ⟨values, copied, fixed, renamed⟩ := isCopy.renames
  have instantiates : session.Instantiates stored ty { session with arena := arena } := by
    refine ⟨values, ?_, fun id monomorphic => fixed id ((keptIff id).mpr monomorphic), ?_⟩
    · rw [isCopy.solved shortens.wellFormed preserves, ← shortens.solved]
      exact copied
    · rw [← shortens.solved, ← shortens.size]
      intro id occurs generic
      exact renamed id occurs fun member => generic ((keptIff id).mp member)
  exact ⟨⟨.of_preserves ready (shortens.toPreserves.trans preserves),
    isCopy.covers, instantiates.avoids ready⟩, instantiates⟩

theorem lookup_yields (ready : session.Ready settled) (name : String) :
    Ensures (lookup name) session fun found after =>
      match found with
      | none => after = session
      | some ty => session.Yields settled ty after ∧
          ∃ stored, session.scopes.find? name = some stored ∧
            session.Instantiates stored ty after := by
  refine Ensures.get_bind ?_
  cases found : session.scopes.find? name with
  | none => exact Ensures.pure rfl
  | some stored =>
    have covers := ready.covers stored (Scopes.mem_tys_of_find? found)
    show Ensures (if _ then _ else _) _ _
    split_ifs with member
    · refine Ensures.pure ⟨⟨.refl ready, ready.apart member⟩, stored, rfl, .var, ?_, ?_, ?_⟩
      · exact (Ty.subst_eq_self fun id _ => rfl).symm
      · exact fun id _ => rfl
      · exact fun id occurs generic => absurd ⟨stored, member, occurs⟩ generic
    · refine Ensures.bind (freshInstance_yields ready covers) fun ty after ⟨yields, copied⟩ => ?_
      exact Ensures.pure ⟨yields, stored, rfl, copied⟩

end Session

end ArrowCheck
