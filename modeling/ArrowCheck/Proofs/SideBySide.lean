/-
This file runs two sessions side by side. The arena of the second one has a gap,
and all types that are worked with come from above the gap. Then every operation
of a session does the same on both sides: it gives corresponding types, it leaves
the arenas in step, and what it reports differs in nothing but the wording.

Unification needs a bound on its own way into the types, and the larger arena has
the larger bound. The bound of the smaller one is never used up, so neither is
the other.
-/

import Mathlib.Data.List.Forall2
import ArrowCheck.Proofs.Sessions
import ArrowCheck.Proofs.Shifts

namespace ArrowCheck

open Arena

/-- Two diagnostics agree in all but their wording. -/
def Diagnostic.Alike (first second : Diagnostic) : Prop :=
  second = { first with message := second.message }

namespace Session

/-! ### Two computations -/

/-- Two computations, each started in a session of its own, give results and leave sessions with a
property. -/
def Paired {Result : Type} (action action' : SessionM Result) (short long : Session)
    (post : Result → Result → Session → Session → Prop) : Prop :=
  post (action short).1 (action' long).1 (action short).2 (action' long).2

namespace Paired

variable {Result Other : Type} {action action' : SessionM Result} {short long : Session}

theorem pure {value value' : Result} {post : Result → Result → Session → Session → Prop}
    (holds : post value value' short long) :
    Paired (Pure.pure value) (Pure.pure value') short long post :=
  holds

theorem bind {next next' : Result → SessionM Other}
    {middle : Result → Result → Session → Session → Prop}
    {post : Other → Other → Session → Session → Prop}
    (first : Paired action action' short long middle)
    (rest : ∀ value value' short long, middle value value' short long →
      Paired (next value) (next' value') short long post) :
    Paired (action >>= next) (action' >>= next') short long post :=
  rest _ _ _ _ first

theorem get_bind {next next' : Session → SessionM Other}
    {post : Other → Other → Session → Session → Prop}
    (rest : Paired (next short) (next' long) short long post) :
    Paired (get >>= next) (get >>= next') short long post :=
  rest

theorem modify_bind {change change' : Session → Session} {next next' : PUnit → SessionM Other}
    {post : Other → Other → Session → Session → Prop}
    (rest : Paired (next ⟨⟩) (next' ⟨⟩) (change short) (change' long) post) :
    Paired (modify change >>= next) (modify change' >>= next') short long post :=
  rest

theorem mono {post post' : Result → Result → Session → Session → Prop}
    (holds : Paired action action' short long post)
    (weaken : ∀ value value' short long, post value value' short long →
      post' value value' short long) :
    Paired action action' short long post' :=
  weaken _ _ _ _ holds

end Paired

/-! ### Sessions in step -/

/-- The arena of the second session has a gap, and both report in the same way. -/
structure Abreast (gap : Gap) (short long : Session) : Prop where
  arenas : Parallel gap short.arena long.arena
  lossy : long.lossy = short.lossy

/-- Two sessions have gone on, and have reported the same up to the wording. -/
structure Along (short long short' long' : Session) : Prop where
  size_le : short.arena.size ≤ short'.arena.size
  reports : ∃ added added', short'.diagnostics = short.diagnostics ++ added ∧
    long'.diagnostics = long.diagnostics ++ added' ∧ List.Forall₂ Diagnostic.Alike added added'

/-- Two sessions have gone on in step, within the same scopes. -/
structure Steps (gap : Gap) (short long short' long' : Session) : Prop
    extends Along short long short' long' where
  abreast : Abreast gap short' long'
  scopes : short'.scopes = short.scopes
  scopes' : long'.scopes = long.scopes

/-- Two sessions have gone on in step and have given corresponding types. -/
structure Gives (gap : Gap) (short long : Session) (ty ty' : Ty) (short' long' : Session) : Prop
    extends Steps gap short long short' long' where
  same : ty' = ty.shift gap
  young : short'.arena.Young gap ty

/-- Two sessions have gone on in step and have come to the same verdict. -/
structure Concurs (gap : Gap) (short long : Session) (verdict verdict' : Bool)
    (short' long' : Session) : Prop extends Steps gap short long short' long' where
  same : verdict' = verdict

variable {gap : Gap} {short long short' long' short'' long'' : Session}

theorem Along.refl (short long : Session) : Along short long short long :=
  ⟨le_refl _, [], [], (List.append_nil _).symm, (List.append_nil _).symm, .nil⟩

theorem Along.trans (first : Along short long short' long')
    (second : Along short' long' short'' long'') : Along short long short'' long'' := by
  obtain ⟨added, added', appended, appended', alike⟩ := first.reports
  obtain ⟨more, more', appendedMore, appendedMore', alikeMore⟩ := second.reports
  refine ⟨first.size_le.trans second.size_le, added ++ more, added' ++ more', ?_, ?_,
    List.rel_append alike alikeMore⟩
  · rw [appendedMore, appended, List.append_assoc]
  · rw [appendedMore', appended', List.append_assoc]

theorem Steps.refl (abreast : Abreast gap short long) : Steps gap short long short long :=
  ⟨.refl short long, abreast, rfl, rfl⟩

theorem Steps.trans (first : Steps gap short long short' long')
    (second : Steps gap short' long' short'' long'') : Steps gap short long short'' long'' :=
  ⟨first.toAlong.trans second.toAlong, second.abreast, second.scopes.trans first.scopes,
    second.scopes'.trans first.scopes'⟩

theorem Along.keeps (along : Along short long short' long') {ty : Ty}
    (young : short.arena.Young gap ty) : short'.arena.Young gap ty :=
  young.mono along.size_le

/-- What gives corresponding types gives them after earlier steps too. -/
theorem Steps.gives {action action' : SessionM Ty} (steps : Steps gap short long short' long')
    (last : Paired action action' short' long' (Gives gap short' long')) :
    Paired action action' short' long' (Gives gap short long) :=
  last.mono fun _ _ _ _ gives => ⟨steps.trans gives.toSteps, gives.same, gives.young⟩

theorem Steps.concurs {verdict verdict' : Bool} (first : Steps gap short long short' long')
    (second : Concurs gap short' long' verdict verdict' short'' long'') :
    Concurs gap short long verdict verdict' short'' long'' :=
  ⟨first.trans second.toSteps, second.same⟩

/-- Operations on the arenas that keep them in step change nothing else. -/
theorem Abreast.steps (abreast : Abreast gap short long) {arena arena' : Arena}
    (arenas : Parallel gap arena arena') (size_le : short.arena.size ≤ arena.size) :
    Steps gap short long { short with arena := arena } { long with arena := arena' } :=
  ⟨⟨size_le, (Along.refl short long).reports⟩, ⟨arenas, abreast.lossy⟩, rfl, rfl⟩

theorem Abreast.shorten (abreast : Abreast gap short long) {arena arena' : Arena}
    (shortens : short.arena.Shortens arena) (shortens' : long.arena.Shortens arena') :
    Steps gap short long { short with arena := arena } { long with arena := arena' } :=
  abreast.steps (abreast.arenas.shorten shortens shortens') shortens.size_le

theorem Abreast.rescope (abreast : Abreast gap short long) (scopes scopes' : Scopes) :
    Abreast gap { short with scopes := scopes } { long with scopes := scopes' } :=
  ⟨abreast.arenas, abreast.lossy⟩

/-! ### Operations on the arena -/

theorem fresh_paired (abreast : Abreast gap short long) :
    Paired fresh fresh short long (Gives gap short long) := by
  have size_le := (preserves_grown abreast.arenas.wellFormed).size_le
  refine ⟨abreast.steps abreast.arenas.grown size_le, ?_,
    young_var.mpr ⟨abreast.arenas.start_le, ?_⟩⟩
  · show Ty.var long.arena.size = Ty.var (gap.move short.arena.size)
    rw [abreast.arenas.size, Gap.move_of_le abreast.arenas.start_le]
  · show short.arena.size < short.arena.grown.size
    rw [size_grown]
    exact Nat.lt_succ_self _

theorem compress_paired (abreast : Abreast gap short long) {ty : Ty}
    (young : short.arena.Young gap ty) :
    Paired (compress ty) (compress (ty.shift gap)) short long fun head head' short' long' =>
      Gives gap short long head head' short' long' ∧ short.arena.Shortens short'.arena ∧
        short.arena.Heads ty head := by
  have arenas := abreast.arenas
  obtain ⟨shortens, heads, _⟩ := compress_ensures arenas.wellFormed young.covers
  obtain ⟨shortens', heads', _⟩ := compress_ensures arenas.wellFormed' (arenas.covers young.covers)
  obtain ⟨youngHead, ends⟩ := arenas.ends young heads.ends
  exact ⟨⟨abreast.shorten shortens shortens', heads'.ends.unique ends,
    youngHead.mono shortens.size_le⟩, shortens, heads⟩

theorem resolve_paired (abreast : Abreast gap short long) {ty : Ty}
    (covers : short.arena.Covers ty) :
    Paired (resolve ty) (resolve (ty.shift gap)) short long fun value value' short' long' =>
      Steps gap short long short' long' ∧ short.arena.Shortens short'.arena ∧
        value = short.arena.solved ty ∧ value' = value.shift gap := by
  have arenas := abreast.arenas
  obtain ⟨shortens, valueIs⟩ := resolve_ensures arenas.wellFormed covers
  obtain ⟨shortens', valueIs'⟩ := resolve_ensures arenas.wellFormed' (arenas.covers covers)
  refine ⟨abreast.shorten shortens shortens', shortens, valueIs, valueIs'.trans ?_⟩
  rw [arenas.solved covers]
  exact congrArg (Ty.shift gap) valueIs.symm

theorem occursIn_paired (abreast : Abreast gap short long) (id : VarId) {ty : Ty}
    (covers : short.arena.Covers ty) :
    Paired (occursIn id ty) (occursIn (gap.move id) (ty.shift gap)) short long
      fun verdict verdict' short' long' =>
        Concurs gap short long verdict verdict' short' long' ∧
          short.arena.Shortens short'.arena ∧
          (verdict = true ↔ id ∈ (short.arena.solved ty).vars) := by
  have arenas := abreast.arenas
  obtain ⟨shortens, found⟩ := occursIn_ensures arenas.wellFormed id covers
  obtain ⟨shortens', found'⟩ :=
    occursIn_ensures arenas.wellFormed' (gap.move id) (arenas.covers covers)
  rw [arenas.solved covers, Ty.move_mem_vars_shift] at found'
  exact ⟨⟨abreast.shorten shortens shortens', Bool.eq_iff_iff.mpr (found'.trans found.symm)⟩,
    shortens, found⟩

/-! ### Reports -/

theorem addDiagnostic_along (lossy : long.lossy = short.lossy) (kind : Fault.Kind)
    (span : Option Span) (message message' : String) :
    Along short long (addDiagnostic kind span message short)
      (addDiagnostic kind span message' long) := by
  refine ⟨le_refl _, _, _, rfl, rfl, .cons ?_ .nil⟩
  rw [Diagnostic.Alike, lossy]

theorem addDiagnostic_steps (abreast : Abreast gap short long) (kind : Fault.Kind)
    (span : Option Span) (message message' : String) :
    Steps gap short long (addDiagnostic kind span message short)
      (addDiagnostic kind span message' long) :=
  ⟨addDiagnostic_along abreast.lossy kind span message message',
    ⟨abreast.arenas, abreast.lossy⟩, rfl, rfl⟩

theorem report_paired (abreast : Abreast gap short long) {fault fault' : Fault}
    (kind : fault'.kind = fault.kind) (span : Option Span) :
    Paired (report fault span) (report fault' span) short long fun _ _ short' long' =>
      Steps gap short long short' long' := by
  have steps := addDiagnostic_steps abreast fault.kind span fault.message fault'.message
  rw [Paired, report, report, kind]
  exact steps

theorem refuse_paired (abreast : Abreast gap short long) (site : Site) {fault fault' : Fault}
    (kind : fault'.kind = fault.kind) :
    Paired (refuse site fault) (refuse site fault') short long (Concurs gap short long) := by
  have steps := addDiagnostic_steps abreast fault.kind site.span (site.message fault)
    (site.message fault')
  rw [refuse, refuse, reportAt, reportAt, kind]
  exact ⟨steps, rfl⟩

theorem report_fresh_paired (abreast : Abreast gap short long) {fault fault' : Fault}
    (kind : fault'.kind = fault.kind) (span : Option Span) :
    Paired (do report fault span; fresh) (do report fault' span; fresh) short long
      (Gives gap short long) := by
  refine Paired.bind (report_paired abreast kind span) fun _ _ short' long' steps => ?_
  exact steps.gives (fresh_paired steps.abreast)

/-! ### Unification -/

/-- Two steps of unification go on in step and come to the same verdict, and the first goes on from
a session by making meanings more specific. -/
structure Agrees (gap : Gap) (base short long : Session) (verdict verdict' : Bool)
    (short' long' : Session) : Prop
    extends Concurs gap short long verdict verdict' short' long' where
  refined : Refined base short'

/-- From a session on, corresponding types are met in step. -/
def MeetsAbreast (gap : Gap) (meet meet' : Ty → Ty → SessionM Bool) (base : Session)
    (first second : Ty) : Prop :=
  ∀ ⦃short long⦄, Refined base short → Abreast gap short long →
    Paired (meet first second) (meet' (first.shift gap) (second.shift gap)) short long
      (Agrees gap base short long)

/-- From a session on, corresponding types are made equal part by part in step. -/
def PartsAbreast (gap : Gap) (meet meet' : Ty → Ty → SessionM Bool) (site : Site) (base : Session)
    (first second : Ty) : Prop :=
  MeetsAbreast gap (unifyParts meet site) (unifyParts meet' site) base first second

section Parts

variable {meet meet' : Ty → Ty → SessionM Bool} {site : Site} {base : Session}

theorem Refined.shorten {now after : Session} (refined : Refined base now)
    (shortens : now.arena.Shortens after.arena) : Refined base after :=
  ⟨shortens.size.trans refined.size, refined.refines.trans
    (shortens.toPreserves.extends refined.refines.wellFormed fun _ member => nomatch member)⟩

theorem Refined.young {now : Session} (refined : Refined base now) {ty : Ty}
    (young : base.arena.Young gap ty) : now.arena.Young gap ty :=
  young.mono refined.size.ge

theorem refuse_agrees (refined : Refined base short) (abreast : Abreast gap short long)
    {fault fault' : Fault} (kind : fault'.kind = fault.kind) :
    Paired (refuse site fault) (refuse site fault') short long (Agrees gap base short long) :=
  ⟨refuse_paired abreast site kind, refined.size, refined.refines⟩

theorem partsAbreast_prim (primitive primitive' : Primitive) :
    PartsAbreast gap meet meet' site base (.prim primitive) (.prim primitive') := by
  intro short long refined abreast
  rw [Ty.shift_prim, Ty.shift_prim, unifyParts, unifyParts]
  split_ifs with same
  · exact Paired.pure ⟨⟨.refl abreast, rfl⟩, refined⟩
  · exact refuse_agrees refined abreast rfl

/-- Types of different shapes are refused on both sides. -/
theorem partsAbreast_of_differ {first second : Ty} (young : base.arena.Young gap first)
    (young' : base.arena.Young gap second)
    (refused : unifyParts meet site first second = do
      let first ← resolve first
      let second ← resolve second
      refuse site (.shapes first second))
    (refused' : unifyParts meet' site (first.shift gap) (second.shift gap) = do
      let first ← resolve (first.shift gap)
      let second ← resolve (second.shift gap)
      refuse site (.shapes first second)) :
    PartsAbreast gap meet meet' site base first second := by
  intro short long refined abreast
  rw [refused, refused']
  refine Paired.bind (resolve_paired abreast (refined.young young).covers) ?_
  intro shown shown' _ _ ⟨steps, shortens, _, _⟩
  replace refined := refined.shorten shortens
  refine Paired.bind (resolve_paired steps.abreast (refined.young young').covers) ?_
  intro other other' _ _ ⟨steps', shortens', _, _⟩
  replace refined := refined.shorten shortens'
  refine (refuse_agrees refined steps'.abreast (by rfl)).mono fun _ _ _ _ agrees => ?_
  exact ⟨(steps.trans steps').concurs agrees.toConcurs, agrees.refined⟩

theorem partsAbreast_array {element element' : Ty}
    (inner : PartsAbreast gap meet meet' site base element element') :
    PartsAbreast gap meet meet' site base (.array element) (.array element') := by
  intro short long refined abreast
  simp only [Ty.shift_array, unifyParts, (Ty.shift_injective gap).eq_iff]
  split_ifs with same
  · exact Paired.pure ⟨⟨.refl abreast, rfl⟩, refined⟩
  · exact inner refined abreast

theorem Agrees.trans {verdict verdict' other other' : Bool}
    (first : Agrees gap base short long verdict verdict' short' long')
    (second : Agrees gap base short' long' other other' short'' long'') :
    Agrees gap base short long (verdict && other) (verdict' && other') short'' long'' :=
  ⟨⟨first.toSteps.trans second.toSteps, by rw [first.same, second.same]⟩, second.refined⟩

theorem unifyAllParts_abreast {firsts seconds : List Ty}
    (each : ∀ first ∈ firsts, ∀ second ∈ seconds,
      PartsAbreast gap meet meet' site base first second)
    (refined : Refined base short) (abreast : Abreast gap short long) :
    Paired (unifyAllParts meet site firsts seconds)
      (unifyAllParts meet' site (firsts.map (Ty.shift gap)) (seconds.map (Ty.shift gap))) short long
      (Agrees gap base short long) := by
  induction firsts generalizing seconds short long with
  | nil =>
    simp only [List.map_nil, unifyAllParts]
    exact Paired.pure ⟨⟨.refl abreast, rfl⟩, refined⟩
  | cons first firsts inductionHypothesis =>
    cases seconds with
    | nil =>
      simp only [List.map_nil, unifyAllParts]
      exact Paired.pure ⟨⟨.refl abreast, rfl⟩, refined⟩
    | cons second seconds =>
      rw [List.map_cons, List.map_cons, unifyAllParts, unifyAllParts]
      refine Paired.bind (each first List.mem_cons_self second List.mem_cons_self refined
        abreast) fun verdict verdict' _ _ agrees => ?_
      refine Paired.bind (inductionHypothesis (fun first member second member' =>
        each first (List.mem_cons_of_mem _ member) second (List.mem_cons_of_mem _ member'))
        agrees.refined agrees.abreast) ?_
      intro other other' _ _ agrees'
      exact Paired.pure (agrees.trans agrees')

theorem partsAbreast_fn {params params' : List Ty} {result result' : Ty}
    (each : ∀ param ∈ params, ∀ param' ∈ params',
      PartsAbreast gap meet meet' site base param param')
    (last : PartsAbreast gap meet meet' site base result result') :
    PartsAbreast gap meet meet' site base (.fn params result) (.fn params' result') := by
  intro short long refined abreast
  simp only [Ty.shift_fn, unifyParts, (Ty.shift_injective gap).eq_iff, List.length_map,
    (List.map_injective_iff.mpr (Ty.shift_injective gap)).eq_iff]
  split_ifs with same differ
  · exact Paired.pure ⟨⟨.refl abreast, rfl⟩, refined⟩
  · exact refuse_agrees refined abreast rfl
  · refine Paired.bind (unifyAllParts_abreast each refined abreast) ?_
    intro verdict verdict' _ _ agrees
    refine Paired.bind (last agrees.refined agrees.abreast) fun other other' _ _ agrees' => ?_
    exact Paired.pure (agrees.trans agrees')

/-- Corresponding types are made equal part by part in step, if variables in them are met so. -/
theorem unifyParts_abreast {first second : Ty}
    (direct : EitherVar first second → MeetsAbreast gap meet meet' base first second)
    (inner : ∀ part part', Ty.Inside part first → Ty.Inside part' second → EitherVar part part' →
      MeetsAbreast gap meet meet' base part part')
    (young : base.arena.Young gap first) (young' : base.arena.Young gap second) :
    PartsAbreast gap meet meet' site base first second := by
  have rightVar {first : Ty} {id : VarId}
      (direct : EitherVar first (.var id) → MeetsAbreast gap meet meet' base first (.var id)) :
      PartsAbreast gap meet meet' site base first (.var id) := by
    intro short long refined abreast
    rw [Ty.shift_var, unifyParts_right_var, unifyParts_right_var]
    exact direct ⟨id, .inr rfl⟩ refined abreast
  induction first generalizing second with
  | var id =>
    intro short long refined abreast
    rw [Ty.shift_var, unifyParts, unifyParts]
    exact direct ⟨id, .inl rfl⟩ refined abreast
  | prim primitive =>
    cases second with
    | var id => exact rightVar direct
    | prim primitive' => exact partsAbreast_prim primitive primitive'
    | fn _ _ | array _ =>
      exact partsAbreast_of_differ young young' (by simp only [unifyParts])
        (by simp only [Ty.shift_prim, Ty.shift_fn, Ty.shift_array, unifyParts])
  | fn params result paramsHold resultHolds =>
    cases second with
    | var id => exact rightVar direct
    | prim _ | array _ =>
      exact partsAbreast_of_differ young young' (by simp only [unifyParts])
        (by simp only [Ty.shift_prim, Ty.shift_fn, Ty.shift_array, unifyParts])
    | fn params' result' =>
      refine partsAbreast_fn (fun param member param' member' => ?_) ?_
      · exact paramsHold param member (inner param param' (.param member) (.param member'))
          (fun part part' inside inside' => inner part part' (inside.trans (.param member))
            (inside'.trans (.param member')))
          ((young_fn.mp young).1 param member) ((young_fn.mp young').1 param' member')
      · exact resultHolds (inner result result' .result .result)
          (fun part part' inside inside' => inner part part' (inside.trans .result)
            (inside'.trans .result)) (young_fn.mp young).2 (young_fn.mp young').2
  | array element elementHolds =>
    cases second with
    | var id => exact rightVar direct
    | prim _ | fn _ _ =>
      exact partsAbreast_of_differ young young' (by simp only [unifyParts])
        (by simp only [Ty.shift_prim, Ty.shift_fn, Ty.shift_array, unifyParts])
    | array element' =>
      exact partsAbreast_array (elementHolds (inner element element' .element .element)
        (fun part part' inside inside' => inner part part' (inside.trans .element)
          (inside'.trans .element)) (young_array.mp young) (young_array.mp young'))

end Parts

/-- A free variable and its counterpart are bound to corresponding types, or to neither. -/
theorem bindVar_paired (abreast : Abreast gap short long) (site : Site) {id : VarId} {ty : Ty}
    (young : short.arena.Young gap (.var id)) (free : short.arena.target id = none)
    (young' : short.arena.Young gap ty) (self : short.arena.Ends ty ty) :
    Paired (bindVar site id ty) (bindVar site (gap.move id) (ty.shift gap)) short long
      (Concurs gap short long) := by
  rw [bindVar, bindVar]
  refine Paired.bind (occursIn_paired abreast id young'.covers) ?_
  rintro verdict verdict' now now' ⟨⟨steps, same⟩, shortens, found⟩
  rw [same]
  cases verdict with
  | true =>
    refine Paired.bind (resolve_paired steps.abreast (steps.keeps young').covers) ?_
    rintro shown shown' _ _ ⟨steps', -⟩
    exact (refuse_paired steps'.abreast site (by rfl)).mono fun _ _ _ _ refused =>
      (steps.trans steps').concurs refused
  | false =>
    have absent : id ∉ (now.arena.solved ty).vars := by
      rw [shortens.solved]
      exact fun occurs => Bool.false_ne_true (found.mpr occurs)
    have linked := steps.abreast.arenas.link (steps.keeps young)
      ((shortens.target_eq_none abreast.arenas.wellFormed).mpr free) (steps.keeps young')
      (shortens.ends self) absent
    exact ⟨steps.trans (steps.abreast.steps linked (size_link _ _ _).ge), rfl⟩

theorem unifyHeads_paired {meet meet' : Ty → Ty → SessionM Bool} {site : Site}
    (abreast : Abreast gap short long) {head head' : Ty} (young : short.arena.Young gap head)
    (young' : short.arena.Young gap head') (self : short.arena.Ends head head)
    (self' : short.arena.Ends head' head')
    (inner : ∀ part part', Ty.Inside part head → Ty.Inside part' head' → EitherVar part part' →
      MeetsAbreast gap meet meet' short part part') :
    Paired (unifyHeads meet site head head')
      (unifyHeads meet' site (head.shift gap) (head'.shift gap)) short long
      (Concurs gap short long) := by
  have refined : Refined short short :=
    ⟨rfl, .refl abreast.arenas.wellFormed fun _ member => nomatch member⟩
  have parts (proper : ¬ EitherVar head head') :
      Paired (unifyParts meet site head head')
        (unifyParts meet' site (head.shift gap) (head'.shift gap)) short long
        (Concurs gap short long) :=
    (unifyParts_abreast (fun either => absurd either proper) inner young young' refined
      abreast).mono fun _ _ _ _ agrees => agrees.toConcurs
  cases head with
  | var id =>
    have free := self.target_root id rfl
    cases head' with
    | var id' =>
      simp only [Ty.shift_var, unifyHeads, gap.move_injective.eq_iff]
      split_ifs
      · exact Paired.pure ⟨.refl abreast, rfl⟩
      · exact bindVar_paired abreast site young free young' self'
    | prim _ | fn _ _ | array _ =>
      simp only [Ty.shift_var, Ty.shift_prim, Ty.shift_fn, Ty.shift_array, unifyHeads]
      simpa only [Ty.shift_prim, Ty.shift_fn, Ty.shift_array] using
        bindVar_paired abreast site young free young' self'
  | prim _ | fn _ _ | array _ =>
    cases head' with
    | var id =>
      have free := self'.target_root id rfl
      simp only [Ty.shift_var, Ty.shift_prim, Ty.shift_fn, Ty.shift_array, unifyHeads]
      simpa only [Ty.shift_prim, Ty.shift_fn, Ty.shift_array] using
        bindVar_paired abreast site young' free young self
    | prim _ | fn _ _ | array _ =>
      have parts' := parts (by simp [EitherVar])
      simp only [Ty.shift_prim, Ty.shift_fn, Ty.shift_array] at parts'
      simpa only [Ty.shift_prim, Ty.shift_fn, Ty.shift_array, unifyHeads] using parts'

theorem unifyWithin_paired {site : Site} {hops hops' : Nat} (le : hops ≤ hops')
    {short long : Session} (abreast : Abreast gap short long) {first second : Ty}
    (young : short.arena.Young gap first) (young' : short.arena.Young gap second)
    {trail trail' : Finset VarId} (along : short.arena.Trail first trail)
    (along' : short.arena.Trail second trail')
    (enough : Enough short.arena hops first second trail trail') :
    Paired (unifyWithin site hops first second)
      (unifyWithin site hops' (first.shift gap) (second.shift gap)) short long
      (Concurs gap short long) := by
  induction hops generalizing hops' short long first second trail trail' with
  | zero => exact absurd enough (not_enough_zero along along')
  | succ hops inductionHypothesis =>
    obtain ⟨hops', rfl⟩ : ∃ fewer, hops' = fewer + 1 := ⟨hops' - 1, by omega⟩
    rw [unifyWithin_succ, unifyWithin_succ]
    refine Paired.bind (compress_paired abreast young) ?_
    intro head _ now _ ⟨gives, shortens, heads⟩
    rw [gives.same]
    refine Paired.bind (compress_paired gives.abreast (gives.keeps young')) ?_
    intro head' _ last _ ⟨gives', shortens', heads'⟩
    rw [gives'.same]
    have wellFormed := abreast.arenas.wellFormed
    have both : short.arena.Shortens last.arena := shortens.trans shortens'
    have steps := gives.toSteps.trans gives'.toSteps
    replace heads := heads.preserve both.toPreserves wellFormed
    replace heads' := heads'.preserve shortens'.toPreserves shortens.wellFormed
    have refines : short.arena.Extends ∅ last.arena :=
      both.toPreserves.extends wellFormed fun _ member => nomatch member
    obtain ⟨longer, deeper, grows⟩ :=
      (along.extend refines).enter (steps.keeps young).covers heads
    obtain ⟨longer', deeper', grows'⟩ :=
      (along'.extend refines).enter (steps.keeps young').covers heads'
    refine (unifyHeads_paired steps.abreast (gives'.keeps gives.young) gives'.young heads.ends.self
      heads'.ends.self ?_).mono fun _ _ _ _ concurs => steps.concurs concurs
    intro part part' inside inside' either now now' refined abreast'
    have youngPart : now.arena.Young gap part := refined.young fun id occurs =>
      gives'.keeps gives.young id (inside.mem_vars occurs)
    have youngPart' : now.arena.Young gap part' := refined.young fun id occurs =>
      gives'.young id (inside'.mem_vars occurs)
    have onward := (deeper part inside).extend refined.refines
    have onward' := (deeper' part' inside').extend refined.refines
    have enough' := enough.inside (refined.size.trans both.size) grows grows' either
    have concurs := inductionHypothesis (Nat.le_of_succ_le_succ le) abreast' youngPart youngPart'
      onward onward' enough'
    exact ⟨concurs, refined.step (unifyWithin_unified refined.refines.wellFormed youngPart.covers
      youngPart'.covers onward onward' enough')⟩

/-- Corresponding types are made equal in step. -/
theorem unify_paired (abreast : Abreast gap short long) (site : Site) {first second : Ty}
    (young : short.arena.Young gap first) (young' : short.arena.Young gap second) :
    Paired (unify site first second) (unify site (first.shift gap) (second.shift gap)) short long
      fun _ _ short' long' => Steps gap short long short' long' := by
  have nothing (ty : Ty) : short.arena.Trail ty ∅ := fun _ member => nomatch member
  have larger : 2 * short.arena.size + 2 ≤ 2 * long.arena.size + 2 := by
    rw [abreast.arenas.size]
    omega
  rw [unify, unify]
  exact Paired.get_bind ((unifyWithin_paired larger abreast young young' (nothing first)
    (nothing second) (.inl (by omega))).mono fun _ _ _ _ concurs => concurs.toSteps)

/-! ### Written types -/

theorem prim_paired (abreast : Abreast gap short long) (primitive : Primitive) :
    Paired (pure (.prim primitive)) (pure (.prim primitive)) short long (Gives gap short long) :=
  Paired.pure ⟨.refl abreast, rfl, young_prim primitive⟩

mutual

theorem ofWritten_paired (written : WrittenType) {short long : Session}
    (abreast : Abreast gap short long) :
    Paired (ofWritten written) (ofWritten written) short long (Gives gap short long) := by
  match written with
  | .named name _ =>
    rw [ofWritten]
    split_ifs
    · exact prim_paired abreast _
    · exact prim_paired abreast _
    · exact prim_paired abreast _
    · exact prim_paired abreast _
    · exact fresh_paired abreast
  | .array element _ =>
    rw [ofWritten]
    refine Paired.bind (ofWritten_paired element abreast) fun ty ty' _ _ gives => ?_
    refine Paired.pure ⟨gives.toSteps, ?_, young_array.mpr gives.young⟩
    rw [gives.same, Ty.shift_array]
  | .function params result _ =>
    rw [ofWritten]
    refine Paired.bind (ofWrittenAll_paired params abreast) ?_
    intro paramTys paramTys' _ _ ⟨steps, same, young⟩
    refine Paired.bind (ofWritten_paired result steps.abreast) ?_
    intro resultTy resultTy' _ _ gives
    refine Paired.pure ⟨steps.trans gives.toSteps, ?_, young_fn.mpr ⟨?_, gives.young⟩⟩
    · rw [same, gives.same, Ty.shift_fn]
    · exact fun ty member => gives.keeps (young ty member)

theorem ofWrittenAll_paired (written : List WrittenType) {short long : Session}
    (abreast : Abreast gap short long) :
    Paired (ofWrittenAll written) (ofWrittenAll written) short long fun tys tys' short' long' =>
      Steps gap short long short' long' ∧ tys' = tys.map (Ty.shift gap) ∧
        ∀ ty ∈ tys, short'.arena.Young gap ty := by
  match written with
  | [] => exact Paired.pure ⟨.refl abreast, rfl, List.forall_mem_nil _⟩
  | head :: tail =>
    rw [ofWrittenAll]
    refine Paired.bind (ofWritten_paired head abreast) fun ty ty' _ _ gives => ?_
    refine Paired.bind (ofWrittenAll_paired tail gives.abreast) ?_
    intro tys tys' _ _ ⟨steps, same, young⟩
    refine Paired.pure ⟨gives.toSteps.trans steps, ?_, ?_⟩
    · rw [gives.same, same, List.map_cons]
    · exact List.forall_mem_cons.mpr ⟨steps.keeps gives.young, young⟩

end

end Session

end ArrowCheck
