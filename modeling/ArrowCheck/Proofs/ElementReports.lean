/-
This file counts what is reported for the elements of an array. Every element after
the first one is inferred, and then its type is made equal to that of the first one,
in the session that the elements before it have left. If inferring the elements
reports nothing, then an element that fits adds nothing to the diagnostics, and one
that does not fit adds at least one.

It adds exactly one unless function types stand on both sides. Two function types are
made equal part by part, and every part that differs is reported. Where one side has
no function type, the walk over the two types has a single path, through arrays only,
and it ends with the first report.
-/

import ArrowCheck.Proofs.Programs

namespace ArrowCheck

/-- No function type occurs in a type. -/
def Ty.isPlain : Ty → Bool
  | .prim _ | .var _ => true
  | .fn _ _ => false
  | .array element => element.isPlain

/-- One of two types stands for a type in which no function type occurs. -/
def Arena.EitherPlain (arena : Arena) (first second : Ty) : Prop :=
  (arena.solved first).isPlain = true ∨ (arena.solved second).isPlain = true

instance (arena : Arena) (first second : Ty) : Decidable (arena.EitherPlain first second) :=
  inferInstanceAs (Decidable (_ ∨ _))

namespace Arena

variable {arena : Arena}

theorem eitherPlain_array {element element' : Ty} :
    arena.EitherPlain (.array element) (.array element') ↔ arena.EitherPlain element element' := by
  rw [EitherPlain, solved_array, solved_array, Ty.isPlain, Ty.isPlain, EitherPlain]

theorem not_eitherPlain_fn {params params' : List Ty} {result result' : Ty} :
    ¬ arena.EitherPlain (.fn params result) (.fn params' result') := by
  rw [EitherPlain, solved_fn, solved_fn, Ty.isPlain, Ty.isPlain]
  simp

end Arena

namespace Session

open Arena

/-! ### Single reports -/

/-- A computation started in a session reports at most one fault. -/
def ReportsAtMostOne {Result : Type} (action : SessionM Result) (session : Session) : Prop :=
  Ensures action session fun _ after => after.diagnostics.length ≤ session.diagnostics.length + 1

section Once

variable {Result Other : Type} {session : Session} {site : Site}

theorem ReportsAtMostOne.pure (value : Result) : ReportsAtMostOne (Pure.pure value) session :=
  Nat.le_succ _

/-- Working on the arena reports nothing. -/
theorem ReportsAtMostOne.onArena_bind {step : ArenaM Result} {next : Result → SessionM Other}
    (rest : ∀ value arena, ReportsAtMostOne (next value) { session with arena := arena }) :
    ReportsAtMostOne (onArena step >>= next) session :=
  rest _ _

theorem refuse_reportsAtMostOne (fault : Fault) : ReportsAtMostOne (refuse site fault) session :=
  List.length_append.le

theorem bindVar_reportsAtMostOne (id : VarId) (ty : Ty) :
    ReportsAtMostOne (bindVar site id ty) session := by
  rw [bindVar]
  refine .onArena_bind fun occurs arena => ?_
  cases occurs with
  | true => exact .onArena_bind fun _ _ => refuse_reportsAtMostOne _
  | false => exact .onArena_bind fun _ _ => .pure true

theorem refuse_resolved_reportsAtMostOne (first second : Ty) (fault : Ty → Ty → Fault) :
    ReportsAtMostOne (do
      let first ← resolve first
      let second ← resolve second
      refuse site (fault first second)) session :=
  .onArena_bind fun _ _ => .onArena_bind fun _ _ => refuse_reportsAtMostOne _

/-- Only arrays are entered, so there is a single path into the two types. -/
theorem unifyParts_reportsAtMostOne {meet : Ty → Ty → SessionM Bool} {first second : Ty}
    (covers : session.arena.Covers first) (covers' : session.arena.Covers second)
    (plain : session.arena.EitherPlain first second)
    (meets : ∀ part part', session.arena.Covers part → session.arena.Covers part' →
      session.arena.EitherPlain part part' → ReportsAtMostOne (meet part part') session) :
    ReportsAtMostOne (unifyParts meet site first second) session := by
  induction first generalizing second with
  | var id =>
    rw [unifyParts]
    exact meets _ _ covers covers' plain
  | prim primitive =>
    cases second with
    | var id =>
      rw [unifyParts_right_var]
      exact meets _ _ covers covers' plain
    | prim primitive' =>
      rw [unifyParts]
      split_ifs
      · exact .pure true
      · exact refuse_reportsAtMostOne _
    | fn _ _ | array _ =>
      simp only [unifyParts]
      exact refuse_resolved_reportsAtMostOne _ _ _
  | fn params result =>
    cases second with
    | var id =>
      rw [unifyParts_right_var]
      exact meets _ _ covers covers' plain
    | fn params' result' => exact absurd plain not_eitherPlain_fn
    | prim _ | array _ =>
      simp only [unifyParts]
      exact refuse_resolved_reportsAtMostOne _ _ _
  | array element inductionHypothesis =>
    cases second with
    | var id =>
      rw [unifyParts_right_var]
      exact meets _ _ covers covers' plain
    | array element' =>
      rw [unifyParts]
      split_ifs
      · exact .pure true
      · exact inductionHypothesis (covers_array.mp covers) (covers_array.mp covers')
          (eitherPlain_array.mp plain)
    | prim _ | fn _ _ =>
      simp only [unifyParts]
      exact refuse_resolved_reportsAtMostOne _ _ _

theorem unifyHeads_reportsAtMostOne {meet : Ty → Ty → SessionM Bool} {head head' : Ty}
    (covers : session.arena.Covers head) (covers' : session.arena.Covers head')
    (plain : session.arena.EitherPlain head head')
    (meets : ∀ part part', session.arena.Covers part → session.arena.Covers part' →
      session.arena.EitherPlain part part' → ReportsAtMostOne (meet part part') session) :
    ReportsAtMostOne (unifyHeads meet site head head') session := by
  cases head with
  | var id =>
    cases head' with
    | var id' =>
      rw [unifyHeads]
      split_ifs
      · exact .pure true
      · exact bindVar_reportsAtMostOne _ _
    | prim _ | fn _ _ | array _ => exact bindVar_reportsAtMostOne _ _
  | prim _ | fn _ _ | array _ =>
    cases head' with
    | var id => exact bindVar_reportsAtMostOne _ _
    | prim _ | fn _ _ | array _ => exact unifyParts_reportsAtMostOne covers covers' plain meets

theorem unifyWithin_reportsAtMostOne {hops : Nat} {session : Session}
    (wellFormed : session.arena.WellFormed) {first second : Ty}
    (covers : session.arena.Covers first) (covers' : session.arena.Covers second)
    (plain : session.arena.EitherPlain first second) :
    ReportsAtMostOne (unifyWithin site hops first second) session := by
  induction hops generalizing session first second with
  | zero => exact .onArena_bind fun _ _ => .pure false
  | succ hops inductionHypothesis =>
    rw [unifyWithin_succ]
    refine Ensures.bind (onArena_ensures (compress_ensures wellFormed covers)) ?_
    intro head _ ⟨middle, ⟨shortens, heads, _⟩, same⟩
    subst same
    refine Ensures.bind (onArena_ensures (compress_ensures shortens.wellFormed
      (shortens.covers covers'))) ?_
    intro head' _ ⟨last, ⟨shortens', heads', _⟩, same⟩
    subst same
    have both : Shortens session.arena last := shortens.trans shortens'
    replace heads := heads.preserve both.toPreserves wellFormed
    replace heads' := heads'.preserve shortens'.toPreserves shortens.wellFormed
    -- The outermost forms stand for the same types as before.
    have plainHeads : last.EitherPlain head head' := by
      rw [EitherPlain, heads.solved, heads'.solved, both.solved, both.solved]
      exact plain
    have once : ReportsAtMostOne (unifyHeads (unifyWithin site hops) site head head')
        { session with arena := last } :=
      unifyHeads_reportsAtMostOne heads.covers heads'.covers plainHeads
        fun _ _ covers covers' plain => inductionHypothesis both.wellFormed covers covers' plain
    exact once

/-- Unification reports one fault at most if one of the types has no function type in it. -/
theorem unify_reportsAtMostOne (wellFormed : session.arena.WellFormed) {first second : Ty}
    (covers : session.arena.Covers first) (covers' : session.arena.Covers second)
    (plain : session.arena.EitherPlain first second) :
    ReportsAtMostOne (unify site first second) session := by
  rw [unify]
  exact Ensures.get_bind (unifyWithin_reportsAtMostOne wellFormed covers covers' plain)

end Once

/-! ### One element -/

/-- What is done with an element of an array after the first one: it is inferred in a session, and
its type has to be that of the first one. -/
structure ElementStep where
  value : Expr
  /-- The type of the first element. -/
  expected : Ty
  before : Session

namespace ElementStep

variable (step : ElementStep)

/-- The type of the element. -/
def ty : Ty :=
  (inferExpr step.value step.before).1.2

/-- The session after the element was inferred. -/
def inferred : Session :=
  (inferExpr step.value step.before).2

/-- Where the types are made equal. -/
def site : Site :=
  { span := (inferExpr step.value step.before).1.1.span, demand := some .equalElements }

/-- Whether the type of the element can be made equal to that of the first one. -/
def fits : Bool :=
  (unify step.site step.ty step.expected step.inferred).1

/-- The session after the types were made equal. -/
def after : Session :=
  (unify step.site step.ty step.expected step.inferred).2

/-- What is reported when the types are made equal. -/
def reports : List Diagnostic :=
  step.after.diagnostics.drop step.inferred.diagnostics.length

/-- Inferring the element reports nothing. -/
def Quiet : Prop :=
  step.inferred.diagnostics = step.before.diagnostics

/-- The element or the first one has a type without function types. -/
def Plain : Prop :=
  step.inferred.arena.EitherPlain step.ty step.expected

instance : Decidable step.Quiet :=
  inferInstanceAs (Decidable (_ = _))

instance : Decidable step.Plain :=
  inferInstanceAs (Decidable (Arena.EitherPlain _ _ _))

/-- The step is taken in a session that can be worked with. -/
structure Sound : Prop where
  ready : step.before.Ready ∅
  apart : step.before.arena.Apart ∅ step.expected

variable {step}

theorem Sound.inferred_yields (sound : step.Sound) :
    step.before.Yields ∅ step.ty step.inferred :=
  (inferExpr_framed step.value sound.ready).1

theorem Sound.advances (sound : step.Sound) : step.before.Advances ∅ step.after := by
  have yields := sound.inferred_yields
  have met := unify_advances (yields.ready sound.ready) step.site yields.apart
    (yields.keeps sound.apart)
  exact yields.toAdvances.trans met.1

theorem Sound.unified (sound : step.Sound) :
    Unified [(step.ty, step.expected)] step.inferred step.fits step.after := by
  have yields := sound.inferred_yields
  exact unify_unified (yields.ready sound.ready).wellFormed step.site yields.apart.covers
    (yields.keeps sound.apart).covers

theorem Sound.appended (sound : step.Sound) :
    step.after.diagnostics = step.inferred.diagnostics ++ step.reports ∧
      (step.reports = [] ↔ step.fits = true) := by
  obtain ⟨added, appended, silent⟩ := sound.unified.reports
  have reports : step.reports = added := by
    rw [ElementStep.reports, appended, List.drop_left]
  rw [reports]
  exact ⟨appended, silent.symm⟩

/-- An element that does not fit is reported once if one side is plain. -/
theorem Sound.length_reports (sound : step.Sound) (misfit : step.fits = false)
    (plain : step.Plain) : step.reports.length = 1 := by
  have yields := sound.inferred_yields
  have once : step.after.diagnostics.length ≤ step.inferred.diagnostics.length + 1 :=
    unify_reportsAtMostOne (yields.ready sound.ready).wellFormed yields.apart.covers
      (yields.keeps sound.apart).covers plain
  obtain ⟨appended, silent⟩ := sound.appended
  have loud : step.reports ≠ [] := fun none => Bool.eq_false_iff.mp misfit (silent.mp none)
  rw [appended, List.length_append] at once
  exact le_antisymm (Nat.le_of_add_le_add_left once) (List.length_pos_iff.mpr loud)

end ElementStep

/-! ### All elements -/

/-- What is done with the elements after the first one, one after the other. -/
def elementSteps (expected : Ty) : List Expr → Session → List ElementStep
  | [], _ => []
  | value :: rest, session =>
    let step : ElementStep := ⟨value, expected, session⟩
    step :: elementSteps expected rest step.after

/-- What is done with the elements of an array after the first one, once that was inferred. -/
def arraySteps (first : Expr) (rest : List Expr) (session : Session) : List ElementStep :=
  elementSteps (inferExpr first session).1.2 rest (inferExpr first session).2

/-- The number of elements whose type cannot be made equal to that of the first one. -/
def misfitCount (steps : List ElementStep) : Nat :=
  steps.countP fun step => !step.fits

theorem elementSteps_sound {expected : Ty} {session : Session} (elements : List Expr)
    (ready : session.Ready ∅) (apart : session.arena.Apart ∅ expected) :
    ∀ step ∈ elementSteps expected elements session, step.Sound := by
  induction elements generalizing session with
  | nil => exact List.forall_mem_nil _
  | cons value rest inductionHypothesis =>
    have sound : ElementStep.Sound ⟨value, expected, session⟩ := ⟨ready, apart⟩
    have advances := sound.advances
    exact List.forall_mem_cons.mpr
      ⟨sound, inductionHypothesis (advances.ready ready) (advances.keeps apart)⟩

/-- If inferring the elements reports nothing, only making their types equal does. -/
theorem inferElements_reports {expected : Ty} {session : Session} (elements : List Expr)
    (sound : ∀ step ∈ elementSteps expected elements session, step.Sound)
    (quiet : ∀ step ∈ elementSteps expected elements session, step.Quiet) :
    Ensures (inferElements expected elements) session fun _ after =>
      after.diagnostics =
        session.diagnostics ++ (elementSteps expected elements session).flatMap
          ElementStep.reports := by
  induction elements generalizing session with
  | nil => exact (List.append_nil _).symm
  | cons value rest inductionHypothesis =>
    rw [elementSteps, List.forall_mem_cons] at sound quiet
    have appended := sound.1.appended.1
    rw [show _ = _ from quiet.1] at appended
    have final := inductionHypothesis sound.2 quiet.2
    rw [Ensures, appended, List.append_assoc, ← List.flatMap_cons] at final
    exact final

theorem misfitCount_cons (step : ElementStep) (steps : List ElementStep) :
    misfitCount (step :: steps) = (if step.fits then 0 else 1) + misfitCount steps := by
  rw [misfitCount, List.countP_cons, ← misfitCount, Nat.add_comm]
  cases step.fits <;> rfl

/-- What the steps report is counted step by step. -/
theorem misfitCount_bounds {steps : List ElementStep}
    (silent : ∀ step ∈ steps, step.reports = [] ↔ step.fits = true) :
    misfitCount steps ≤ (steps.flatMap ElementStep.reports).length ∧
      ((∀ step ∈ steps, step.fits = false → step.reports.length = 1) →
        (steps.flatMap ElementStep.reports).length = misfitCount steps) := by
  induction steps with
  | nil => exact ⟨le_refl 0, fun _ => rfl⟩
  | cons step steps inductionHypothesis =>
    obtain ⟨head, tail⟩ := List.forall_mem_cons.mp silent
    obtain ⟨atLeast, exactly⟩ := inductionHypothesis tail
    rw [misfitCount_cons, List.flatMap_cons, List.length_append, List.forall_mem_cons]
    cases verdict : step.fits with
    | true =>
      rw [head.mpr verdict, List.length_nil, if_pos rfl, Nat.zero_add, Nat.zero_add]
      exact ⟨atLeast, fun once => exactly once.2⟩
    | false =>
      have loud : 1 ≤ step.reports.length :=
        List.length_pos_iff.mpr fun none => Bool.eq_false_iff.mp verdict (head.mp none)
      refine ⟨Nat.add_le_add loud atLeast, fun once => ?_⟩
      rw [once.1 rfl, exactly once.2]
      rfl

/-- If inferring the elements of an array reports nothing, the array reports what is reported when
the types of the later elements are made equal to that of the first one. For an element that fits
that is nothing, and for one that does not it is something. It is one fault if no function type
occurs in the type of the element or in that of the first one. So no fewer faults are reported than
there are elements that do not fit, and just as many if function types never meet. -/
theorem array_reports_misfits (session : Session) (wellFormed : session.WellFormed) (first : Expr)
    (rest : List Expr) (info : Info)
    (quietFirst : (inferExpr first session).2.diagnostics = session.diagnostics)
    (quiet : ∀ step ∈ arraySteps first rest session, step.Quiet) :
    Ensures (inferExpr (.array (first :: rest) info)) session fun _ after =>
      ∃ reported, after.diagnostics = session.diagnostics ++ reported ∧
        reported = (arraySteps first rest session).flatMap ElementStep.reports ∧
        (∀ step ∈ arraySteps first rest session, (step.reports = [] ↔ step.fits = true) ∧
          (step.fits = false → step.Plain → step.reports.length = 1)) ∧
        misfitCount (arraySteps first rest session) ≤ reported.length ∧
        ((∀ step ∈ arraySteps first rest session, step.fits = false → step.Plain) →
          reported.length = misfitCount (arraySteps first rest session)) := by
  have yields := (inferExpr_framed first wellFormed.ready).1
  have sound : ∀ step ∈ arraySteps first rest session, step.Sound :=
    elementSteps_sound rest (yields.ready wellFormed.ready) yields.apart
  have run := inferElements_reports rest sound quiet
  rw [quietFirst] at run
  have silent (step : ElementStep) (member : step ∈ arraySteps first rest session) :
      step.reports = [] ↔ step.fits = true :=
    (sound step member).appended.2
  obtain ⟨atLeast, exactly⟩ := misfitCount_bounds silent
  refine ⟨_, run, rfl, fun step member => ⟨silent step member, ?_⟩, atLeast, fun plain => ?_⟩
  · exact (sound step member).length_reports
  · exact exactly fun step member misfit =>
      (sound step member).length_reports misfit (plain step member misfit)

/-- The empty array may have elements of any type, so the second array decides, and the two after it
do not fit. -/
theorem nested_array_reports_misfits :
    let first : Expr := .array [] {}
    let rest : List Expr := [.array [.string "a" {}] {}, .array [.bool true {}] {},
      .array [.arrow [⟨"x", none, {}⟩] none (.value (.ident "x" {})) {}] {}]
    (∀ step ∈ arraySteps first rest (new false), step.Quiet) ∧
      misfitCount (arraySteps first rest (new false)) = 2 ∧
      (inferExpr (.array (first :: rest) {}) (new false)).2.diagnostics.length = 2 := by
  intro first rest
  have quiet : ∀ step ∈ arraySteps first rest (new false), step.Quiet := by decide +kernel
  have counted : misfitCount (arraySteps first rest (new false)) = 2 := by decide +kernel
  have plain : ∀ step ∈ arraySteps first rest (new false), step.fits = false → step.Plain := by
    decide +kernel
  obtain ⟨reported, appended, -, -, -, eachOnce⟩ := array_reports_misfits (new false)
    ⟨(new_ready false).wellFormed, (new_ready false).covers⟩ first rest {} rfl quiet
  refine ⟨quiet, counted, ?_⟩
  rw [appended, List.length_append, eachOnce plain, counted]
  rfl

/-- In `[(x: number) => true, (x: string) => "a"]` one element does not fit, and two faults are
reported for it: one for the parameters and one for the results. -/
theorem function_element_reported_twice :
    let first : Expr := .arrow [⟨"x", some (.named "number" none), {}⟩] none
      (.value (.bool true {})) {}
    let second : Expr := .arrow [⟨"x", some (.named "string" none), {}⟩] none
      (.value (.string "a" {})) {}
    (inferExpr first (new false)).2.diagnostics = [] ∧
      (∀ step ∈ arraySteps first [second] (new false), step.Quiet) ∧
      misfitCount (arraySteps first [second] (new false)) = 1 ∧
      (inferExpr (.array [first, second] {}) (new false)).2.diagnostics.length = 2 := by
  decide +kernel

end Session

end ArrowCheck
