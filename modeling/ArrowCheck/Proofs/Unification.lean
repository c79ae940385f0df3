/-
This file proves that unification decides whether two types can be made equal,
and that it makes them equal in the most general way.

A step of unification is described by the equations that it is given. It only
makes meanings more specific. If it succeeds, the equations hold in the arena
that it leaves, and every solution of the old arena under which they hold still
solves the new one; if it fails, no solution of the old arena makes them hold.
Steps one after the other serve the equations of both, also after a failure, so
the walk over two types needs no other description.

The walk follows a variable on either side only into what the variable stands
for. The variables followed on one way into a type therefore all differ, and the
bound that the walk carries is never used up.
-/

import Mathlib.Data.Finset.Insert
import ArrowCheck.Proofs.Refinement
import ArrowCheck.Typing.Unify

namespace ArrowCheck

open Arena

/-- Values under which the two sides of every equation are equal. -/
def Equates (values : VarId → Ty) (equations : List (Ty × Ty)) : Prop :=
  ∀ equation ∈ equations, equation.1.subst values = equation.2.subst values

theorem equates_append {values : VarId → Ty} {first second : List (Ty × Ty)} :
    Equates values (first ++ second) ↔ Equates values first ∧ Equates values second :=
  List.forall_mem_append

theorem equates_singleton {values : VarId → Ty} {first second : Ty} :
    Equates values [(first, second)] ↔ first.subst values = second.subst values :=
  List.forall_mem_singleton

/-- Both sides of every equation are apart from a set of variables. -/
def Arena.AvoidsAll (arena : Arena) (settled : Set VarId) (equations : List (Ty × Ty)) : Prop :=
  ∀ equation ∈ equations, arena.Avoids settled equation.1 ∧ arena.Avoids settled equation.2

theorem Arena.avoidsAll_append {arena : Arena} {settled : Set VarId}
    {first second : List (Ty × Ty)} :
    arena.AvoidsAll settled (first ++ second) ↔
      arena.AvoidsAll settled first ∧ arena.AvoidsAll settled second :=
  List.forall_mem_append

theorem Arena.avoidsAll_singleton {arena : Arena} {settled : Set VarId} {first second : Ty} :
    arena.AvoidsAll settled [(first, second)] ↔
      arena.Avoids settled first ∧ arena.Avoids settled second :=
  List.forall_mem_singleton

/-- Both sides of every equation mention only variables that exist. -/
def Arena.CoversAll (arena : Arena) (equations : List (Ty × Ty)) : Prop :=
  ∀ equation ∈ equations, arena.Covers equation.1 ∧ arena.Covers equation.2

/-- Variables in whose meanings the meaning of a type stands. -/
def Arena.Trail (arena : Arena) (ty : Ty) (trail : Finset VarId) : Prop :=
  ∀ id ∈ trail, id < arena.size ∧ Ty.Inside (arena.solved ty) (arena.meaning id)

namespace Arena.Trail

variable {arena : Arena} {ty : Ty} {trail : Finset VarId}

theorem card_le (along : arena.Trail ty trail) : trail.card ≤ arena.size := by
  have inside : trail ⊆ Finset.range arena.size :=
    fun id member => Finset.mem_range.mpr (along id member).1
  exact (Finset.card_le_card inside).trans_eq (Finset.card_range _)

theorem notMem {id : VarId} (along : arena.Trail (.var id) trail) : id ∉ trail :=
  fun member => (along id member).2.ne (solved_var id)

/-- A trail stays one when meanings become more specific. -/
theorem extend {after : Arena} (along : arena.Trail ty trail) (extends_ : arena.Extends ∅ after) :
    after.Trail ty trail := by
  intro id member
  obtain ⟨known, inside⟩ := along id member
  refine ⟨known.trans_le extends_.size_le, ?_⟩
  rw [← extends_.solved_solved ty, extends_.refines id]
  exact inside.subst _

/-- Going into what a type stands for makes the trail longer by the variable that was followed. -/
theorem enter {head : Ty} (along : arena.Trail ty trail) (known : arena.Covers ty)
    (heads : arena.Heads ty head) :
    ∃ longer : Finset VarId, (∀ part, Ty.Inside part head → arena.Trail part longer) ∧
      trail.card ≤ longer.card ∧ ∀ id, ty = .var id → trail.card < longer.card := by
  have deeper : ∀ part, Ty.Inside part head → arena.Trail part trail := by
    intro part within id member
    obtain ⟨known, inside⟩ := along id member
    have partInside := within.subst arena.meaning
    rw [← Arena.solved, ← Arena.solved, heads.solved] at partInside
    exact ⟨known, partInside.trans inside⟩
  cases ty with
  | var id =>
    -- The variable is not on the trail yet, since no type stands inside itself.
    refine ⟨insert id trail, fun part within other member => ?_, ?_, fun _ _ => ?_⟩
    · rcases Finset.mem_insert.mp member with rfl | member
      · have partInside := within.subst arena.meaning
        rw [← Arena.solved, ← Arena.solved, heads.solved, solved_var] at partInside
        exact ⟨covers_var.mp known, partInside⟩
      · exact deeper part within other member
    · exact Finset.card_le_card (Finset.subset_insert _ _)
    · rw [Finset.card_insert_of_notMem along.notMem]
      exact Nat.lt_succ_self _
  | prim _ | fn _ _ | array _ => exact ⟨trail, deeper, le_refl _, by simp⟩

end Arena.Trail

namespace Session

/-- What a step of unification does with equations. -/
structure Unified (equations : List (Ty × Ty)) (before : Session) (verdict : Bool)
    (after : Session) : Prop where
  size : after.arena.size = before.arena.size
  extends_ : ∀ settled, before.arena.Settles settled → before.arena.AvoidsAll settled equations →
    before.arena.Extends settled after.arena
  equates : verdict = true → Equates after.arena.meaning equations
  general : verdict = true → ∀ values, Solves values before.arena → Equates values equations →
    Solves values after.arena
  refutes : verdict = false → ∀ values, Solves values before.arena → ¬ Equates values equations
  scopes : after.scopes = before.scopes
  lossy : after.lossy = before.lossy
  reports : ∃ added, after.diagnostics = before.diagnostics ++ added ∧
    (verdict = true ↔ added = [])

namespace Unified

variable {first second equations : List (Ty × Ty)} {before middle after : Session}
  {verdict verdict' : Bool}

theorem refines (unified : Unified equations before verdict after) :
    before.arena.Extends ∅ after.arena :=
  unified.extends_ ∅ (fun id member => absurd member (Set.notMem_empty id))
    fun _ _ => ⟨fun id _ => Set.notMem_empty id, fun id _ => Set.notMem_empty id⟩

/-- Steps one after the other serve the equations of both. -/
theorem append (covers : before.arena.CoversAll second)
    (unified : Unified first before verdict middle)
    (unified' : Unified second middle verdict' after) :
    Unified (first ++ second) before (verdict && verdict') after where
  size := unified'.size.trans unified.size
  extends_ settled settles avoids := by
    rw [avoidsAll_append] at avoids
    have extended := unified.extends_ settled settles avoids.1
    refine extended.trans (unified'.extends_ settled (extended.settles settles) ?_)
    intro equation member
    obtain ⟨left, right⟩ := covers equation member
    exact ⟨extended.apart _ left (avoids.2 equation member).1,
      extended.apart _ right (avoids.2 equation member).2⟩
  equates both := by
    rw [Bool.and_eq_true] at both
    refine equates_append.mpr ⟨fun equation member => ?_, unified'.equates both.2⟩
    exact unified'.refines.solved_congr (unified.equates both.1 equation member)
  general both values solves holds := by
    rw [Bool.and_eq_true] at both
    rw [equates_append] at holds
    exact unified'.general both.2 values (unified.general both.1 values solves holds.1) holds.2
  refutes either values solves holds := by
    rw [equates_append] at holds
    cases succeeded : verdict with
    | false => exact unified.refutes succeeded values solves holds.1
    | true =>
      rw [succeeded, Bool.true_and] at either
      exact unified'.refutes either values (unified.general succeeded values solves holds.1) holds.2
  scopes := unified'.scopes.trans unified.scopes
  lossy := unified'.lossy.trans unified.lossy
  reports := by
    obtain ⟨added, appended, silent⟩ := unified.reports
    obtain ⟨added', appended', silent'⟩ := unified'.reports
    refine ⟨added ++ added', ?_, ?_⟩
    · rw [appended', appended, List.append_assoc]
    · rw [Bool.and_eq_true, silent, silent', List.append_eq_nil_iff]

/-- Equations may be exchanged for others that the same solutions satisfy. -/
theorem exchange (wellFormed : before.arena.WellFormed)
    (unified : Unified first before verdict after)
    (same : ∀ values, Solves values before.arena → (Equates values first ↔ Equates values second))
    (avoids : ∀ settled, before.arena.AvoidsAll settled second →
      before.arena.AvoidsAll settled first) :
    Unified second before verdict after where
  size := unified.size
  extends_ settled settles apart := unified.extends_ settled settles (avoids settled apart)
  equates succeeded := (same _ (unified.refines.solves_meaning wellFormed)).mp
    (unified.equates succeeded)
  general succeeded values solves holds := unified.general succeeded values solves
    ((same values solves).mpr holds)
  refutes failed values solves holds := unified.refutes failed values solves
    ((same values solves).mpr holds)
  scopes := unified.scopes
  lossy := unified.lossy
  reports := unified.reports

/-- Shortening chains first makes no difference. -/
theorem after_shortening {arena : Arena} (wellFormed : before.arena.WellFormed)
    (shortens : Shortens before.arena arena)
    (unified : Unified equations { before with arena := arena } verdict after) :
    Unified equations before verdict after where
  size := unified.size.trans shortens.size
  extends_ settled settles avoids := by
    have extended := shortens.toPreserves.extends wellFormed settles
    refine extended.trans (unified.extends_ settled (extended.settles settles) ?_)
    intro equation member
    rw [Avoids, Avoids, shortens.solved, shortens.solved]
    exact avoids equation member
  equates := unified.equates
  general succeeded values solves := unified.general succeeded values
    ((shortens.solves_iff wellFormed).mpr solves)
  refutes failed values solves := unified.refutes failed values
    ((shortens.solves_iff wellFormed).mpr solves)
  scopes := unified.scopes
  lossy := unified.lossy
  reports := unified.reports

/-- Equations that always hold need no step. -/
theorem trivial (wellFormed : before.arena.WellFormed)
    (holds : ∀ values, Equates values equations) : Unified equations before true before where
  size := rfl
  extends_ _ settles _ := .refl wellFormed settles
  equates _ := holds _
  general _ _ solves _ := solves
  refutes failed := nomatch failed
  scopes := rfl
  lossy := rfl
  reports := ⟨[], (List.append_nil _).symm, by simp⟩

end Unified

/-! ### Single steps -/

section Steps

variable {session : Session} {equations : List (Ty × Ty)}

/-- What no solution satisfies is refused. -/
theorem refuse_unified (wellFormed : session.arena.WellFormed)
    (refutes : ∀ values, Solves values session.arena → ¬ Equates values equations)
    (site : Site) (fault : Fault) :
    Ensures (refuse site fault) session (Unified equations session) where
  size := rfl
  extends_ _ settles _ := .refl wellFormed settles
  equates succeeded := nomatch succeeded
  general succeeded := nomatch succeeded
  refutes _ := refutes
  scopes := rfl
  lossy := rfl
  reports := by
    refine ⟨_, rfl, ?_⟩
    show false = true ↔ _
    simp

theorem refuse_resolved_unified (wellFormed : session.arena.WellFormed) {first second : Ty}
    (refutes : ∀ values, Solves values session.arena → ¬ Equates values equations)
    (covers : session.arena.Covers first) (covers' : session.arena.Covers second) (site : Site)
    (fault : Ty → Ty → Fault) :
    Ensures (do
        let first ← resolve first
        let second ← resolve second
        refuse site (fault first second)) session (Unified equations session) := by
  refine Ensures.bind (onArena_ensures (resolve_ensures wellFormed covers)) ?_
  intro shown _ ⟨middle, ⟨shortens, _⟩, same⟩
  subst same
  refine Ensures.bind (onArena_ensures (resolve_ensures shortens.wellFormed
    (shortens.covers covers'))) ?_
  intro shown' _ ⟨last, ⟨shortens', _⟩, same⟩
  subst same
  have both : Shortens session.arena last := shortens.trans shortens'
  refine (refuse_unified both.wellFormed (fun values solves => ?_) site _).mono fun _ _ unified =>
    unified.after_shortening wellFormed both
  exact refutes values ((both.solves_iff wellFormed).mp solves)

/-- Binding a free variable makes it equal to a type in the most general way. -/
theorem link_unified (wellFormed : session.arena.WellFormed) {id : VarId} {ty : Ty}
    (known : id < session.arena.size) (free : session.arena.target id = none)
    (covers : session.arena.Covers ty) (absent : id ∉ (session.arena.solved ty).vars) :
    Unified [(.var id, ty)] session true
      { session with arena := session.arena.link id ty } where
  size := size_link _ _ _
  extends_ settled settles avoids := by
    rw [avoidsAll_singleton] at avoids
    refine extends_bind wellFormed known free covers absent settles ?_ avoids.2
    refine avoids_var.mp avoids.1 id ?_
    rw [meaning_of_free free, Ty.mem_vars_var]
  equates _ := by
    have solved := solved_bind wellFormed known free covers absent
    refine equates_singleton.mpr ((solved (.var id)).trans (Eq.trans ?_ (solved ty).symm))
    rw [solved_var, meaning_of_free free, Ty.subst_var, single_self,
      subst_single_of_not_mem _ absent]
  general _ values solves holds := by
    rw [equates_singleton, Ty.subst_var] at holds
    exact (solves_bind known free).mpr ⟨solves, holds⟩
  refutes failed := nomatch failed
  scopes := rfl
  lossy := rfl
  reports := ⟨[], (List.append_nil _).symm, by simp⟩

/-- A free variable is bound to a type unless it occurs in it. -/
theorem bindVar_unified (wellFormed : session.arena.WellFormed) (site : Site) {id : VarId}
    {ty : Ty} (known : id < session.arena.size) (free : session.arena.target id = none)
    (covers : session.arena.Covers ty) (proper : session.arena.solved ty ≠ .var id) :
    Ensures (bindVar site id ty) session (Unified [(.var id, ty)] session) := by
  rw [bindVar]
  refine Ensures.bind (onArena_ensures (occursIn_ensures wellFormed id covers)) ?_
  intro verdict _ ⟨middle, ⟨shortens, found⟩, same⟩
  subst same
  cases verdict with
  | true =>
    have occurs := found.mp rfl
    refine Ensures.bind (onArena_ensures (resolve_ensures shortens.wellFormed
      (shortens.covers covers))) ?_
    intro shown _ ⟨last, ⟨shortens', _⟩, same⟩
    subst same
    have both : Shortens session.arena last := shortens.trans shortens'
    refine (refuse_unified both.wellFormed (fun values solves => ?_) site _).mono
      fun _ _ unified => unified.after_shortening wellFormed both
    rw [equates_singleton, Ty.subst_var,
      ← ((both.solves_iff wellFormed).mp solves).subst_solved wellFormed ty]
    exact Ty.subst_ne_of_occurs occurs proper values
  | false =>
    have absent : id ∉ (middle.solved ty).vars := by
      rw [shortens.solved]
      exact fun occurs => nomatch found.mpr occurs
    have known' : id < middle.size := by
      rw [shortens.size]
      exact known
    have linked : Unified [(.var id, ty)] { session with arena := middle } true
        { session with arena := middle.link id ty } :=
      link_unified shortens.wellFormed known' ((shortens.target_eq_none wellFormed).mpr free)
        (shortens.covers covers) absent
    exact linked.after_shortening wellFormed shortens

end Steps

/-! ### Part by part -/

/-- A session was reached from another by making meanings more specific. -/
structure Refined (base now : Session) : Prop where
  size : now.arena.size = base.arena.size
  refines : base.arena.Extends ∅ now.arena

theorem Refined.step {base now after : Session} {equations : List (Ty × Ty)} {verdict : Bool}
    (refined : Refined base now) (unified : Unified equations now verdict after) :
    Refined base after :=
  ⟨unified.size.trans refined.size, refined.refines.trans unified.refines⟩

/-- From a session on, two types are met as they should be. -/
def Meets (meet : Ty → Ty → SessionM Bool) (base : Session) (first second : Ty) : Prop :=
  ∀ now, Refined base now → Ensures (meet first second) now (Unified [(first, second)] now)

/-- A variable stands on either side. -/
def EitherVar (first second : Ty) : Prop :=
  ∃ id, first = .var id ∨ second = .var id

section Parts

/-- From a session on, two types are made equal part by part as they should be. -/
def PartsMeet (meet : Ty → Ty → SessionM Bool) (site : Site) (base : Session) (first second : Ty) :
    Prop :=
  ∀ ⦃now⦄, Refined base now →
    Ensures (unifyParts meet site first second) now (Unified [(first, second)] now)

variable {meet : Ty → Ty → SessionM Bool} {site : Site} {base : Session}

/-! #### Primitive types and types of different shapes -/

theorem unifyParts_right_var (first : Ty) (id : VarId) :
    unifyParts meet site first (.var id) = meet first (.var id) := by
  cases first <;> simp only [unifyParts]

theorem partsMeet_prim (primitive primitive' : Primitive) :
    PartsMeet meet site base (.prim primitive) (.prim primitive') := by
  intro now refined
  rw [unifyParts]
  split_ifs with same
  · refine Ensures.pure (.trivial refined.refines.wellFormed fun _ => ?_)
    rw [equates_singleton, same]
  · refine refuse_unified refined.refines.wellFormed (fun values _ holds => same ?_) _ _
    rw [equates_singleton, Ty.subst_prim, Ty.subst_prim, Ty.prim.injEq] at holds
    exact holds

theorem partsMeet_of_differ {first second : Ty} (covers : base.arena.Covers first)
    (covers' : base.arena.Covers second)
    (differ : ∀ values, first.subst values ≠ second.subst values)
    (refused : unifyParts meet site first second = do
      let first ← resolve first
      let second ← resolve second
      refuse site (.shapes first second)) :
    PartsMeet meet site base first second := by
  intro now refined
  rw [refused]
  refine refuse_resolved_unified refined.refines.wellFormed (fun values _ holds => ?_)
    (refined.refines.covers covers) (refined.refines.covers covers') site _
  exact differ values (equates_singleton.mp holds)

/-! #### Arrays and functions -/

theorem partsMeet_array {element element' : Ty}
    (inner : PartsMeet meet site base element element') :
    PartsMeet meet site base (.array element) (.array element') := by
  intro now refined
  rw [unifyParts]
  split_ifs with same
  · refine Ensures.pure (.trivial refined.refines.wellFormed fun _ => ?_)
    rw [equates_singleton, same]
  · refine (inner refined).mono fun verdict after unified => ?_
    refine unified.exchange refined.refines.wellFormed (fun _ _ => ?_) fun settled avoids => ?_
    · rw [equates_singleton, equates_singleton, Ty.subst_array, Ty.subst_array, Ty.array.injEq]
    · rw [avoidsAll_singleton, avoids_array, avoids_array] at avoids
      exact avoidsAll_singleton.mpr avoids

/-- Lists of one length are made equal one by one. -/
theorem unifyAllParts_unified {firsts seconds : List Ty}
    (each : ∀ first ∈ firsts, ∀ second ∈ seconds, PartsMeet meet site base first second)
    (covers : base.arena.CoversAll (firsts.zip seconds)) {now : Session}
    (refined : Refined base now) :
    Ensures (unifyAllParts meet site firsts seconds) now
      (Unified (firsts.zip seconds) now) := by
  induction firsts generalizing seconds now with
  | nil =>
    rw [unifyAllParts]
    · exact Ensures.pure (.trivial refined.refines.wellFormed fun _ _ member => nomatch member)
    · exact nofun
  | cons first firsts inductionHypothesis =>
    cases seconds with
    | nil =>
      rw [unifyAllParts]
      · exact Ensures.pure (.trivial refined.refines.wellFormed fun _ _ member => nomatch member)
      · exact nofun
    | cons second seconds =>
      rw [unifyAllParts]
      refine Ensures.bind (each first List.mem_cons_self second List.mem_cons_self refined) ?_
      intro verdict middle unified
      refine Ensures.bind (inductionHypothesis (fun first member second member' =>
        each first (List.mem_cons_of_mem _ member) second (List.mem_cons_of_mem _ member'))
        (fun equation member => covers equation (List.mem_cons_of_mem _ member))
        (refined.step unified)) ?_
      intro verdict' after unified'
      refine Ensures.pure (unified.append (fun equation member => ?_) unified')
      obtain ⟨left, right⟩ := covers equation (List.mem_cons_of_mem _ member)
      exact ⟨refined.refines.covers left, refined.refines.covers right⟩

theorem equates_zip_iff {values : VarId → Ty} {firsts seconds : List Ty}
    (length : firsts.length = seconds.length) :
    Equates values (firsts.zip seconds) ↔
      firsts.map (Ty.subst values) = seconds.map (Ty.subst values) := by
  induction firsts generalizing seconds with
  | nil =>
    cases seconds with
    | nil => simp [Equates]
    | cons second seconds => cases length
  | cons first firsts inductionHypothesis =>
    cases seconds with
    | nil => cases length
    | cons second seconds =>
      rw [List.zip_cons_cons, Equates, List.forall_mem_cons, ← Equates,
        inductionHypothesis (Nat.succ.inj length), List.map_cons, List.map_cons, List.cons.injEq]

/-- Function types with as many parameters are equal if their parts are. -/
theorem equates_fn_iff {values : VarId → Ty} {params params' : List Ty} {result result' : Ty}
    (length : params.length = params'.length) :
    Equates values (params.zip params' ++ [(result, result')]) ↔
      Equates values [(.fn params result, .fn params' result')] := by
  rw [equates_append, equates_zip_iff length, equates_singleton, equates_singleton, Ty.subst_fn,
    Ty.subst_fn, Ty.fn.injEq]

theorem avoidsAll_fn {arena : Arena} {settled : Set VarId} {params params' : List Ty}
    {result result' : Ty}
    (avoids : arena.AvoidsAll settled [(.fn params result, .fn params' result')]) :
    arena.AvoidsAll settled (params.zip params' ++ [(result, result')]) := by
  rw [avoidsAll_singleton, avoids_fn, avoids_fn] at avoids
  obtain ⟨⟨left, leftResult⟩, right, rightResult⟩ := avoids
  rw [avoidsAll_append, avoidsAll_singleton]
  refine ⟨fun equation member => ?_, leftResult, rightResult⟩
  obtain ⟨inLeft, inRight⟩ := List.of_mem_zip member
  exact ⟨left _ inLeft, right _ inRight⟩

theorem coversAll_zip {arena : Arena} {params params' : List Ty}
    (covers : ∀ param ∈ params, arena.Covers param)
    (covers' : ∀ param ∈ params', arena.Covers param) :
    arena.CoversAll (params.zip params') := by
  intro equation member
  obtain ⟨inLeft, inRight⟩ := List.of_mem_zip member
  exact ⟨covers _ inLeft, covers' _ inRight⟩

theorem partsMeet_fn {params params' : List Ty} {result result' : Ty}
    (each : ∀ param ∈ params, ∀ param' ∈ params', PartsMeet meet site base param param')
    (last : PartsMeet meet site base result result')
    (covers : base.arena.Covers (.fn params result))
    (covers' : base.arena.Covers (.fn params' result')) :
    PartsMeet meet site base (.fn params result) (.fn params' result') := by
  intro now refined
  have wellFormed := refined.refines.wellFormed
  obtain ⟨coversParams, coversResult⟩ := covers_fn.mp covers
  obtain ⟨coversParams', coversResult'⟩ := covers_fn.mp covers'
  rw [unifyParts]
  split_ifs with same differ
  · refine Ensures.pure (.trivial wellFormed fun _ => ?_)
    rw [equates_singleton, same.1, same.2]
  · refine refuse_unified wellFormed (fun values _ holds => differ ?_) site _
    rw [equates_singleton, Ty.subst_fn, Ty.subst_fn, Ty.fn.injEq] at holds
    simpa using congrArg List.length holds.1
  · refine Ensures.bind (unifyAllParts_unified each (coversAll_zip coversParams coversParams')
      refined) fun verdict middle unified => ?_
    refine Ensures.bind (last (refined.step unified)) fun verdict' after unified' => ?_
    refine Ensures.pure ((unified.append ?_ unified').exchange wellFormed
      (fun _ _ => equates_fn_iff (not_not.mp differ)) fun _ => avoidsAll_fn)
    exact List.forall_mem_singleton.mpr
      ⟨refined.refines.covers coversResult, refined.refines.covers coversResult'⟩

/-- Two types are made equal part by part, if variables in them are met as they should be. -/
theorem unifyParts_unified {first second : Ty}
    (direct : EitherVar first second → Meets meet base first second)
    (inner : ∀ part part', Ty.Inside part first → Ty.Inside part' second → EitherVar part part' →
      Meets meet base part part')
    (covers : base.arena.Covers first) (covers' : base.arena.Covers second) :
    PartsMeet meet site base first second := by
  have rightVar {first : Ty} {id : VarId}
      (direct : EitherVar first (.var id) → Meets meet base first (.var id)) :
      PartsMeet meet site base first (.var id) := by
    intro now refined
    rw [unifyParts_right_var]
    exact direct ⟨id, .inr rfl⟩ now refined
  induction first generalizing second with
  | var id =>
    intro now refined
    rw [unifyParts]
    exact direct ⟨id, .inl rfl⟩ now refined
  | prim primitive =>
    cases second with
    | var id => exact rightVar direct
    | prim primitive' => exact partsMeet_prim primitive primitive'
    | fn _ _ | array _ =>
      exact partsMeet_of_differ covers covers' (by simp) (by simp only [unifyParts])
  | fn params result paramsHold resultHolds =>
    cases second with
    | var id => exact rightVar direct
    | prim _ | array _ =>
      exact partsMeet_of_differ covers covers' (by simp) (by simp only [unifyParts])
    | fn params' result' =>
      refine partsMeet_fn (fun param member param' member' => ?_) ?_ covers covers'
      · exact paramsHold param member (inner param param' (.param member) (.param member'))
          (fun part part' inside inside' => inner part part' (inside.trans (.param member))
            (inside'.trans (.param member')))
          ((covers_fn.mp covers).1 param member) ((covers_fn.mp covers').1 param' member')
      · exact resultHolds (inner result result' .result .result)
          (fun part part' inside inside' => inner part part' (inside.trans .result)
            (inside'.trans .result)) (covers_fn.mp covers).2 (covers_fn.mp covers').2
  | array element elementHolds =>
    cases second with
    | var id => exact rightVar direct
    | prim _ | fn _ _ =>
      exact partsMeet_of_differ covers covers' (by simp) (by simp only [unifyParts])
    | array element' =>
      exact partsMeet_array (elementHolds (inner element element' .element .element)
        (fun part part' inside inside' => inner part part' (inside.trans .element)
          (inside'.trans .element)) (covers_array.mp covers) (covers_array.mp covers'))

end Parts

/-! ### Following variables -/

theorem Unified.of_heads {session after : Session} {first second head head' : Ty} {verdict : Bool}
    (wellFormed : session.arena.WellFormed) (heads : session.arena.Heads first head)
    (heads' : session.arena.Heads second head')
    (unified : Unified [(head, head')] session verdict after) :
    Unified [(first, second)] session verdict after := by
  refine unified.exchange wellFormed (fun values solves => ?_) fun settled avoids => ?_
  · rw [equates_singleton, equates_singleton, ← solves.subst_solved wellFormed head, heads.solved,
      ← solves.subst_solved wellFormed head', heads'.solved, solves.subst_solved wellFormed,
      solves.subst_solved wellFormed]
  · rw [avoidsAll_singleton] at avoids ⊢
    rw [Avoids, Avoids, heads.solved, heads'.solved]
    exact avoids

theorem Unified.swap {session after : Session} {first second : Ty} {verdict : Bool}
    (wellFormed : session.arena.WellFormed)
    (unified : Unified [(first, second)] session verdict after) :
    Unified [(second, first)] session verdict after := by
  refine unified.exchange wellFormed (fun values _ => ?_) fun settled avoids => ?_
  · rw [equates_singleton, equates_singleton, eq_comm]
  · rw [avoidsAll_singleton] at avoids ⊢
    exact avoids.symm

/-- What unification does with two types in their outermost known forms. -/
def unifyHeads (meet : Ty → Ty → SessionM Bool) (site : Site) : Ty → Ty → SessionM Bool
  | .var id, .var id' => if id = id' then pure true else bindVar site id (.var id')
  | .var id, second => bindVar site id second
  | first, .var id => bindVar site id first
  | first, second => unifyParts meet site first second

theorem unifyWithin_succ (site : Site) (hops : Nat) (first second : Ty) :
    unifyWithin site (hops + 1) first second =
      (do
        let first ← compress first
        let second ← compress second
        unifyHeads (unifyWithin site hops) site first second) :=
  rfl

/-- Two types in their outermost known forms are made equal, if the variables inside them are met as
they should be. -/
theorem unifyHeads_unified {meet : Ty → Ty → SessionM Bool} {site : Site} (session : Session)
    (wellFormed : session.arena.WellFormed) {first second head head' : Ty}
    (heads : session.arena.Heads first head) (heads' : session.arena.Heads second head')
    (inner : ∀ part part', Ty.Inside part head → Ty.Inside part' head' → EitherVar part part' →
      Meets meet session part part') :
    Ensures (unifyHeads meet site head head') session (Unified [(head, head')] session) := by
  have refined : Refined session session := ⟨rfl, .refl wellFormed fun _ member => nomatch member⟩
  match head, head', heads, heads', inner with
  | .var id, .var id', heads, heads', _ =>
    by_cases same : id = id'
    · rw [unifyHeads, if_pos same]
      refine Ensures.pure (.trivial wellFormed fun _ => ?_)
      rw [equates_singleton, same]
    · rw [unifyHeads, if_neg same]
      refine bindVar_unified wellFormed site (covers_var.mp heads.covers) (heads.free id rfl)
        heads'.covers ?_
      rw [solved_var, meaning_of_free (heads'.free id' rfl), ne_eq, Ty.var.injEq]
      exact fun equal => same equal.symm
  | .var id, .prim _, heads, heads', _ | .var id, .fn _ _, heads, heads', _
  | .var id, .array _, heads, heads', _ =>
    refine bindVar_unified wellFormed site (covers_var.mp heads.covers) (heads.free id rfl)
      heads'.covers ?_
    simp
  | .prim _, .var id, heads, heads', _ | .fn _ _, .var id, heads, heads', _
  | .array _, .var id, heads, heads', _ =>
    refine (bindVar_unified wellFormed site (covers_var.mp heads'.covers) (heads'.free id rfl)
      heads.covers ?_).mono fun _ _ unified => unified.swap wellFormed
    simp
  | .prim _, .prim _, heads, heads', inner | .prim _, .fn _ _, heads, heads', inner
  | .prim _, .array _, heads, heads', inner | .fn _ _, .prim _, heads, heads', inner
  | .fn _ _, .fn _ _, heads, heads', inner | .fn _ _, .array _, heads, heads', inner
  | .array _, .prim _, heads, heads', inner | .array _, .fn _ _, heads, heads', inner
  | .array _, .array _, heads, heads', inner =>
    exact unifyParts_unified (fun ⟨_, either⟩ => either.elim nofun nofun) inner heads.covers
      heads'.covers refined

/-- As many hops are left as it takes to follow the variables in two types that are reached by
following the variables of two trails. -/
def Enough (arena : Arena) (hops : Nat) (first second : Ty) (trail trail' : Finset VarId) : Prop :=
  2 * arena.size + 2 ≤ hops + trail.card + trail'.card ∨
    EitherVar first second ∧ 2 * arena.size + 1 ≤ hops + trail.card + trail'.card

/-- Neither trail can be longer than the arena, so the hops are not used up. -/
theorem not_enough_zero {arena : Arena} {first second : Ty} {trail trail' : Finset VarId}
    (along : arena.Trail first trail) (along' : arena.Trail second trail') :
    ¬ Enough arena 0 first second trail trail' := by
  have bound := along.card_le
  have bound' := along'.card_le
  rintro (enough | ⟨_, enough⟩)
  · omega
  · omega

/-- With each variable that is followed one of the trails gets longer as the hops get fewer. -/
theorem Enough.inside {arena arena' : Arena} {hops : Nat} {first second part part' : Ty}
    {trail trail' longer longer' : Finset VarId}
    (enough : Enough arena (hops + 1) first second trail trail') (size : arena'.size = arena.size)
    (grows : trail.card ≤ longer.card ∧ ∀ id, first = .var id → trail.card < longer.card)
    (grows' : trail'.card ≤ longer'.card ∧ ∀ id, second = .var id → trail'.card < longer'.card)
    (either : EitherVar part part') : Enough arena' hops part part' longer longer' := by
  obtain ⟨grows, growsVar⟩ := grows
  obtain ⟨grows', growsVar'⟩ := grows'
  refine .inr ⟨either, ?_⟩
  rw [size]
  rcases enough with enough | ⟨⟨id, same | same⟩, enough⟩
  · omega
  · have grown := growsVar id same
    omega
  · have grown := growsVar' id same
    omega

theorem unifyWithin_unified {site : Site} {hops : Nat} {session : Session}
    (wellFormed : session.arena.WellFormed) {first second : Ty}
    (covers : session.arena.Covers first) (covers' : session.arena.Covers second)
    {trail trail' : Finset VarId} (along : session.arena.Trail first trail)
    (along' : session.arena.Trail second trail')
    (enough : Enough session.arena hops first second trail trail') :
    Ensures (unifyWithin site hops first second) session
      (Unified [(first, second)] session) := by
  induction hops generalizing session first second trail trail' with
  | zero => exact absurd enough (not_enough_zero along along')
  | succ hops inductionHypothesis =>
    rw [unifyWithin_succ]
    refine Ensures.bind (onArena_ensures (compress_ensures wellFormed covers)) ?_
    intro head _ ⟨middle, ⟨shortens, heads, _⟩, same⟩
    subst same
    refine Ensures.bind (onArena_ensures (compress_ensures shortens.wellFormed
      (shortens.covers covers'))) ?_
    intro head' _ ⟨last, ⟨shortens', heads', _⟩, same⟩
    subst same
    have both : Shortens session.arena last := shortens.trans shortens'
    have covered : last.Covers first ∧ last.Covers second :=
      ⟨both.covers covers, both.covers covers'⟩
    replace heads := heads.preserve both.toPreserves wellFormed
    replace heads' := heads'.preserve shortens'.toPreserves shortens.wellFormed
    have refines : session.arena.Extends ∅ last :=
      both.toPreserves.extends wellFormed fun _ member => nomatch member
    obtain ⟨longer, deeper, grows⟩ := (along.extend refines).enter covered.1 heads
    obtain ⟨longer', deeper', grows'⟩ := (along'.extend refines).enter covered.2 heads'
    refine (unifyHeads_unified { session with arena := last } both.wellFormed heads
      heads' ?_).mono fun _ _ unified =>
        (unified.of_heads both.wellFormed heads heads').after_shortening wellFormed both
    intro part part' inside inside' either now refined
    have size : now.arena.size = session.arena.size := refined.size.trans both.size
    exact inductionHypothesis refined.refines.wellFormed
      (refined.refines.covers fun id occurs => heads.covers id (inside.mem_vars occurs))
      (refined.refines.covers fun id occurs => heads'.covers id (inside'.mem_vars occurs))
      ((deeper part inside).extend refined.refines) ((deeper' part' inside').extend refined.refines)
      (enough.inside size grows grows' either)

/-- Unification serves the equation between its two types. -/
theorem unify_unified {session : Session} (wellFormed : session.arena.WellFormed) (site : Site)
    {first second : Ty} (covers : session.arena.Covers first)
    (covers' : session.arena.Covers second) :
    Ensures (unify site first second) session (Unified [(first, second)] session) := by
  rw [unify]
  have nothing (ty : Ty) : session.arena.Trail ty ∅ := fun _ member => nomatch member
  exact Ensures.get_bind (unifyWithin_unified wellFormed covers covers' (nothing first)
    (nothing second) (.inl (by omega)))

/-- Unification succeeds exactly if some values for the variables satisfy all links and make the two
types equal. If it does, the two types resolve to the same type, and the new links hold under all
such values. It reports something exactly if it fails. -/
theorem unify_true_iff_unifiable (session : Session) (site : Site) (first second : Ty)
    (wellFormed : session.arena.WellFormed) (covers : session.arena.Covers first)
    (covers' : session.arena.Covers second) :
    Ensures (unify site first second) session fun verdict after =>
      (verdict = true ↔
        ∃ values, Solves values session.arena ∧ first.subst values = second.subst values) ∧
      (verdict = true →
        (resolve first after).1 = (resolve second after).1 ∧
        ∀ values, Solves values session.arena → first.subst values = second.subst values →
          Solves values after.arena) ∧
      ∃ added, after.diagnostics = session.diagnostics ++ added ∧
        (added ≠ [] ↔ verdict = false) := by
  refine (unify_unified wellFormed site covers covers').mono fun verdict after unified => ?_
  have refines := unified.refines
  refine ⟨⟨fun succeeded => ?_, fun ⟨values, solves, equal⟩ => ?_⟩, fun succeeded => ⟨?_, ?_⟩, ?_⟩
  · exact ⟨after.arena.meaning, refines.solves_meaning wellFormed,
      equates_singleton.mp (unified.equates succeeded)⟩
  · by_contra failed
    exact unified.refutes (Bool.eq_false_of_not_eq_true failed) values solves
      (equates_singleton.mpr equal)
  · have resolved := (resolve_ensures refines.wellFormed (refines.covers covers)).2
    have resolved' := (resolve_ensures refines.wellFormed (refines.covers covers')).2
    show (Arena.resolve first after.arena).1 = (Arena.resolve second after.arena).1
    rw [resolved, resolved']
    exact equates_singleton.mp (unified.equates succeeded)
  · exact fun values solves equal => unified.general succeeded values solves
      (equates_singleton.mpr equal)
  · obtain ⟨added, appended, silent⟩ := unified.reports
    refine ⟨added, appended, ?_⟩
    rw [ne_eq, ← silent, Bool.not_eq_true]

/-- With a free variable and one that is linked to arrays of it, arrays of numbers can be reached.
-/
theorem unify_linked_array : ∃ values,
    Solves values ⟨#[none, some (.array (.var 0))], none, false⟩ ∧
    (Ty.var 1).subst values = (Ty.array .number).subst values := by
  let session : Session := { arena := ⟨#[none, some (.array (.var 0))], none, false⟩ }
  have linked : ∀ id ty, session.arena.target id = some ty → id = 1 ∧ ty = .array (.var 0) := by
    intro id ty target
    match id with
    | 0 => cases target
    | 1 => exact ⟨rfl, (Option.some.inj target).symm⟩
    | id + 2 => cases target
  have points : ∀ id other, session.arena.Points id other → id = 1 ∧ other = 0 := by
    intro id other ⟨ty, target, occurs⟩
    obtain ⟨rfl, rfl⟩ := linked id ty target
    exact ⟨rfl, by simpa using occurs⟩
  have ranks : Ranks (fun id => id) session.arena := by
    intro id other pointed
    obtain ⟨rfl, rfl⟩ := points id other pointed
    exact Nat.zero_lt_one
  have wellFormed : session.arena.WellFormed := by
    refine ⟨fun id ty target other occurs => ?_, ranks.acyclic⟩
    obtain ⟨rfl, rfl⟩ := points id other ⟨ty, target, occurs⟩
    exact Nat.zero_lt_two
  exact (unify_true_iff_unifiable session {} (.var 1) (.array .number) wellFormed
    (covers_var.mpr Nat.one_lt_two) (by simp)).1.mp (by decide)

end Session

end ArrowCheck
