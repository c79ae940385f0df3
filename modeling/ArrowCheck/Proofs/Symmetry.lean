/-
This file proves that it makes no difference to unification which of its two types
comes first, not even where it fails.

With the types exchanged, a run links the variables of an equation between two
variables the other way round. So the arenas differ from then on, and what comes
later is compared in different arenas. But they keep the same solutions, and every
chain that ends at a type ends at the same type in both: they differ at most in
which of several equal variables stands for the others. Neither what is equal nor
what occurs in a type depends on that, so the two runs take the same decisions at
every step.
-/

import ArrowCheck.Proofs.SideBySide
import ArrowCheck.Proofs.Specificity

namespace ArrowCheck

namespace Arena

/-! ### Ends and solutions -/

section Arena

variable {arena : Arena} {id : VarId} {ty ty' source head : Ty} {values : VarId → Ty}

theorem Ends.exists_end (wellFormed : arena.WellFormed) (ty : Ty) : ∃ head, arena.Ends ty head := by
  cases ty with
  | var id => exact exists_head wellFormed id
  | prim _ | fn _ _ | array _ => exact ⟨_, .proper (by simp)⟩

/-- A chain ends at a variable exactly if the type is resolved to the variable. -/
theorem ends_var_iff (wellFormed : arena.WellFormed) :
    arena.Ends ty (.var id) ↔ arena.solved ty = .var id := by
  constructor
  · intro ends
    rw [← ends.solved wellFormed, solved_var, meaning_of_free (ends.target_root id rfl)]
  · intro solved
    obtain ⟨head, ends⟩ := Ends.exists_end wellFormed ty
    rw [← ends.solved wellFormed] at solved
    cases head with
    | var root =>
      rw [solved_var, meaning_of_free (ends.target_root root rfl)] at solved
      rw [← solved]
      exact ends
    | prim _ | fn _ _ | array _ => simp at solved

theorem Preserves.ends_iff {after : Arena} (preserves : arena.Preserves after)
    (wellFormed : arena.WellFormed) : after.Ends ty head ↔ arena.Ends ty head := by
  refine ⟨fun ends => ?_, preserves.ends⟩
  obtain ⟨found, ends'⟩ := Ends.exists_end wellFormed ty
  rw [ends.unique (preserves.ends ends')]
  exact ends'

theorem solves_meaning (wellFormed : arena.WellFormed) : Solves arena.meaning arena :=
  fun _ _ linked => meaning_of_linked wellFormed linked

/-- Types are resolved to the same type exactly if every solution makes them equal. -/
theorem solved_eq_iff (wellFormed : arena.WellFormed) : arena.solved ty = arena.solved ty' ↔
    ∀ values, Solves values arena → ty.subst values = ty'.subst values := by
  constructor
  · intro same values solves
    rw [← solves.subst_solved wellFormed, same, solves.subst_solved wellFormed]
  · intro equal
    exact equal _ (solves_meaning wellFormed)

/-- A solution gives a type the value of the variable at the end of its chain. -/
theorem Solves.subst_end (solves : Solves values arena) (wellFormed : arena.WellFormed)
    (ends : arena.Ends ty (.var id)) : ty.subst values = values id := by
  rw [← solves.subst_solved wellFormed, (ends_var_iff wellFormed).mp ends, Ty.subst_var]

/-! ### Linking a variable -/

/-- A free variable may be linked to a type at the end of a chain if it does not occur in it. -/
structure Bindable (arena : Arena) (id : VarId) (ty : Ty) : Prop where
  known : id < arena.size
  free : arena.target id = none
  covers : arena.Covers ty
  self : arena.Ends ty ty
  absent : id ∉ (arena.solved ty).vars

theorem Heads.bindable {ty other : Ty} (heads : arena.Heads ty (.var id))
    (heads' : arena.Heads other head) (absent : id ∉ (arena.solved head).vars) :
    arena.Bindable id head :=
  ⟨covers_var.mp heads.covers, heads.free id rfl, heads'.covers, heads'.ends.self, absent⟩

namespace Bindable

theorem different (bindable : arena.Bindable id ty) : ty ≠ .var id := by
  rintro rfl
  have absent := bindable.absent
  rw [solved_var, meaning_of_free bindable.free, Ty.mem_vars_var] at absent
  exact absent rfl

/-- The chains that end at a type afterwards ended there before, or at the variable. -/
theorem ends_link (bindable : arena.Bindable id ty) (wellFormed : arena.WellFormed)
    (proper : ∀ other, head ≠ .var other) : (arena.link id ty).Ends source head ↔
      arena.Ends source head ∨ arena.Ends source (.var id) ∧ ty = head := by
  obtain ⟨found, ends⟩ := Ends.exists_end wellFormed source
  have moved := bindable.self.bind bindable.known bindable.free bindable.different ends
  by_cases same : found = .var id
  · subst same
    rw [if_pos rfl] at moved
    constructor
    · exact fun ends' => .inr ⟨ends, moved.unique ends'⟩
    · rintro (ends' | ⟨_, rfl⟩)
      · exact absurd (ends'.unique ends) (proper id)
      · exact moved
  · rw [if_neg same] at moved
    constructor
    · intro ends'
      rw [ends'.unique moved]
      exact .inl ends
    · rintro (ends' | ⟨ends', -⟩)
      · rw [ends'.unique ends]
        exact moved
      · exact absurd (ends.unique ends') same

end Bindable

end Arena

/-! ### Mirrored arenas -/

/-- Two arenas have the same solutions, and chains end at the same types in both, except that they
may end at different variables. -/
structure Mirrors (forth back : Arena) : Prop where
  wellFormed : forth.WellFormed
  wellFormed' : back.WellFormed
  size : back.size = forth.size
  solves : ∀ values, Solves values back ↔ Solves values forth
  ends : ∀ {ty head}, (∀ id, head ≠ .var id) → (back.Ends ty head ↔ forth.Ends ty head)

/-- One side links a variable to a type, and the other side makes the same types equal: it links to
the same type the variable that stands for the first one there, or it links two variables the other
way round. -/
inductive Counterparts (forth back : Arena) : VarId → Ty → VarId → Ty → Prop where
  | proper {source ty : Ty} {id id' : VarId} (proper : ∀ other, ty ≠ .var other)
    (ends : forth.Ends source (.var id)) (ends' : back.Ends source (.var id')) :
    Counterparts forth back id ty id' ty
  | roots {first second : Ty} {id other id' other' : VarId} (ends : forth.Ends first (.var id))
    (otherEnds : forth.Ends second (.var other)) (ends' : back.Ends second (.var id'))
    (otherEnds' : back.Ends first (.var other')) :
    Counterparts forth back id (.var other) id' (.var other')

theorem Mirrors.refl {arena : Arena} (wellFormed : arena.WellFormed) : arena.Mirrors arena :=
  ⟨wellFormed, wellFormed, rfl, fun _ => Iff.rfl, fun _ => Iff.rfl⟩

theorem Mirrors.symm {forth back : Arena} (mirrors : forth.Mirrors back) : back.Mirrors forth :=
  ⟨mirrors.wellFormed', mirrors.wellFormed, mirrors.size.symm, fun values =>
    (mirrors.solves values).symm, fun proper => (mirrors.ends proper).symm⟩

section Mirrors

variable {forth back forth' back' : Arena} {id id' : VarId} {ty ty' source head head' : Ty}

theorem Mirrors.covers (mirrors : forth.Mirrors back) (covers : forth.Covers ty) :
    back.Covers ty :=
  fun id occurs => (covers id occurs).trans_eq mirrors.size.symm

/-- Both arenas identify the same types. -/
theorem Mirrors.solved_eq (mirrors : forth.Mirrors back) :
    back.solved ty = back.solved ty' ↔ forth.solved ty = forth.solved ty' := by
  rw [solved_eq_iff mirrors.wellFormed, solved_eq_iff mirrors.wellFormed']
  exact forall_congr' fun values => imp_congr_left (mirrors.solves values)

/-- The chain of a type ends at the same type on both sides, or at a variable on both sides. -/
theorem Mirrors.end_cases (mirrors : forth.Mirrors back) (ends : forth.Ends ty head)
    (ends' : back.Ends ty head') :
    head' = head ∧ (∀ id, head ≠ .var id) ∨ ∃ id id', head = .var id ∧ head' = .var id' := by
  by_cases proper : ∀ id, head ≠ .var id
  · exact .inl ⟨ends'.unique ((mirrors.ends proper).mpr ends), proper⟩
  · obtain ⟨id, same⟩ := not_forall_not.mp proper
    by_cases proper' : ∀ id, head' ≠ .var id
    · exact absurd (((mirrors.ends proper').mp ends').unique ends ▸ same) (proper' id)
    · obtain ⟨id', same'⟩ := not_forall_not.mp proper'
      exact .inr ⟨id, id', same, same'⟩

theorem Mirrors.ends_var (mirrors : forth.Mirrors back) (ends : forth.Ends ty (.var id))
    (ends' : back.Ends ty (.var id')) :
    back.Ends source (.var id') ↔ forth.Ends source (.var id) := by
  rw [ends_var_iff mirrors.wellFormed', ends_var_iff mirrors.wellFormed,
    ← (ends_var_iff mirrors.wellFormed).mp ends, ← (ends_var_iff mirrors.wellFormed').mp ends',
    mirrors.solved_eq]

/-- The variable at the end of a chain occurs in the meaning of a type on both sides if it does so
on one. -/
theorem Mirrors.mem_vars (mirrors : forth.Mirrors back) (ends : forth.Ends source (.var id))
    (ends' : back.Ends source (.var id')) (occurs : id ∈ (forth.solved ty).vars) :
    id' ∈ (back.solved ty).vars := by
  -- The meanings of one side solve the other side, and turn the one variable into the other.
  have solves := (mirrors.solves _).mp (solves_meaning mirrors.wellFormed')
  have meaning : back.meaning id = .var id' :=
    (solves.subst_end mirrors.wellFormed ends).symm.trans
      ((ends_var_iff mirrors.wellFormed').mp ends')
  have solved : back.solved ty = (forth.solved ty).subst back.meaning :=
    (solves.subst_solved mirrors.wellFormed ty).symm
  rw [solved, Ty.mem_vars_subst]
  exact ⟨id, occurs, by rw [meaning, Ty.mem_vars_var]⟩

theorem Mirrors.mem_vars_iff (mirrors : forth.Mirrors back) (ends : forth.Ends source (.var id))
    (ends' : back.Ends source (.var id')) :
    id' ∈ (back.solved ty).vars ↔ id ∈ (forth.solved ty).vars :=
  ⟨mirrors.symm.mem_vars ends' ends, mirrors.mem_vars ends ends'⟩

/-- Shortening chains keeps arenas mirrored. -/
theorem Mirrors.shorten (mirrors : forth.Mirrors back) (shortens : forth.Shortens forth')
    (shortens' : back.Shortens back') : forth'.Mirrors back' where
  wellFormed := shortens.wellFormed
  wellFormed' := shortens'.wellFormed
  size := by rw [shortens.size, shortens'.size, mirrors.size]
  solves values := by
    rw [shortens.solves_iff mirrors.wellFormed, shortens'.solves_iff mirrors.wellFormed']
    exact mirrors.solves values
  ends proper := by
    rw [shortens.ends_iff mirrors.wellFormed, shortens'.ends_iff mirrors.wellFormed']
    exact mirrors.ends proper

/-- Where chains end depends on nothing but the links. -/
theorem Ends.of_target {arena other : Arena} (same : other.target = arena.target)
    (ends : arena.Ends ty head) : other.Ends ty head := by
  induction ends with
  | free unlinked => exact .free (by rw [same, unlinked])
  | next linked _ inductionHypothesis => exact .next (by rw [same, linked]) inductionHypothesis
  | proper proper => exact .proper proper

theorem ends_noteEndless {arena : Arena} :
    arena.noteEndless.Ends ty head ↔ arena.Ends ty head :=
  ⟨.of_target rfl, .of_target rfl⟩

theorem Mirrors.noteEndless (mirrors : forth.Mirrors back) :
    forth.noteEndless.Mirrors back.noteEndless where
  wellFormed := ⟨mirrors.wellFormed.covers, mirrors.wellFormed.acyclic⟩
  wellFormed' := ⟨mirrors.wellFormed'.covers, mirrors.wellFormed'.acyclic⟩
  size := mirrors.size
  solves := mirrors.solves
  ends proper := by
    rw [ends_noteEndless, ends_noteEndless]
    exact mirrors.ends proper

namespace Counterparts

theorem shorten (counterparts : Counterparts forth back id ty id' ty')
    (shortens : forth.Shortens forth') (shortens' : back.Shortens back') :
    Counterparts forth' back' id ty id' ty' := by
  cases counterparts with
  | proper proper ends ends' => exact .proper proper (shortens.ends ends) (shortens'.ends ends')
  | roots ends otherEnds ends' otherEnds' =>
    exact .roots (shortens.ends ends) (shortens.ends otherEnds) (shortens'.ends ends')
      (shortens'.ends otherEnds')

/-- The occurs check comes to the same result on both sides. -/
theorem mem_vars (counterparts : Counterparts forth back id ty id' ty')
    (mirrors : forth.Mirrors back) :
    id' ∈ (back.solved ty').vars ↔ id ∈ (forth.solved ty).vars := by
  cases counterparts with
  | proper _ ends ends' => exact mirrors.mem_vars_iff ends ends'
  | @roots first second _ other _ other' ends otherEnds ends' otherEnds' =>
    rw [otherEnds.solved mirrors.wellFormed, ← mirrors.mem_vars_iff ends otherEnds',
      (ends_var_iff mirrors.wellFormed').mp ends', solved_var,
      meaning_of_free (otherEnds'.target_root other' rfl), Ty.mem_vars_var, Ty.mem_vars_var]
    exact eq_comm

/-- A solution makes the two types of one side equal exactly if it does so on the other. -/
theorem equal (counterparts : Counterparts forth back id ty id' ty')
    (mirrors : forth.Mirrors back) {values : VarId → Ty} (solves : Solves values forth) :
    values id' = ty'.subst values ↔ values id = ty.subst values := by
  have solves' := (mirrors.solves values).mpr solves
  cases counterparts with
  | proper _ ends ends' =>
    rw [← solves.subst_end mirrors.wellFormed ends, ← solves'.subst_end mirrors.wellFormed' ends']
  | roots ends otherEnds ends' otherEnds' =>
    rw [Ty.subst_var, Ty.subst_var, ← solves.subst_end mirrors.wellFormed ends,
      ← solves.subst_end mirrors.wellFormed otherEnds,
      ← solves'.subst_end mirrors.wellFormed' ends',
      ← solves'.subst_end mirrors.wellFormed' otherEnds']
    exact eq_comm

/-- The chains that come to end at a type are the same on both sides. -/
theorem moved (counterparts : Counterparts forth back id ty id' ty')
    (mirrors : forth.Mirrors back) (proper : ∀ other, head ≠ .var other) :
    back.Ends source (.var id') ∧ ty' = head ↔ forth.Ends source (.var id) ∧ ty = head := by
  cases counterparts with
  | proper _ ends ends' => exact and_congr_left' (mirrors.ends_var ends ends')
  | roots =>
    exact iff_of_false (fun holds => proper _ holds.2.symm) fun holds => proper _ holds.2.symm

end Counterparts

/-- Linking counterparts keeps arenas mirrored. -/
theorem Mirrors.link (mirrors : forth.Mirrors back)
    (counterparts : Counterparts forth back id ty id' ty') (bindable : forth.Bindable id ty)
    (bindable' : back.Bindable id' ty') : (forth.link id ty).Mirrors (back.link id' ty') where
  wellFormed := mirrors.wellFormed.bind bindable.free bindable.covers bindable.absent
  wellFormed' := mirrors.wellFormed'.bind bindable'.free bindable'.covers bindable'.absent
  size := by rw [size_link, size_link, mirrors.size]
  solves values := by
    rw [solves_bind bindable.known bindable.free, solves_bind bindable'.known bindable'.free,
      mirrors.solves]
    exact and_congr_right fun solves => counterparts.equal mirrors solves
  ends proper := by
    rw [bindable.ends_link mirrors.wellFormed proper,
      bindable'.ends_link mirrors.wellFormed' proper]
    exact or_congr (mirrors.ends proper) (counterparts.moved mirrors proper)

end Mirrors

end Arena

namespace Session

open Arena

/-! ### Mirrored sessions -/

/-- The arenas are mirrored, and both sessions report in the same way. -/
structure Mirrored (forth back : Session) : Prop where
  arenas : forth.arena.Mirrors back.arena
  lossy : back.lossy = forth.lossy

/-- Two mirrored sessions have gone on, and have reported the same up to the wording. -/
structure Echoes (forth back forth' back' : Session) : Prop
    extends Along forth back forth' back' where
  mirrored : Mirrored forth' back'

/-- Two mirrored sessions have gone on and have come to the same verdict. -/
structure Answers (forth back : Session) (verdict verdict' : Bool) (forth' back' : Session) : Prop
    extends Echoes forth back forth' back' where
  same : verdict' = verdict

variable {forth back forth' back' forth'' back'' : Session}

theorem Mirrored.covers (mirrored : Mirrored forth back) {ty : Ty}
    (covers : forth.arena.Covers ty) : back.arena.Covers ty :=
  mirrored.arenas.covers covers

theorem Echoes.refl (mirrored : Mirrored forth back) : Echoes forth back forth back :=
  ⟨.refl forth back, mirrored⟩

theorem Echoes.trans (first : Echoes forth back forth' back')
    (second : Echoes forth' back' forth'' back'') : Echoes forth back forth'' back'' :=
  ⟨first.toAlong.trans second.toAlong, second.mirrored⟩

theorem Echoes.covers (echoes : Echoes forth back forth' back') {ty : Ty}
    (covers : forth.arena.Covers ty) : forth'.arena.Covers ty :=
  fun id occurs => (covers id occurs).trans_le echoes.size_le

theorem Echoes.answers {verdict verdict' : Bool} (first : Echoes forth back forth' back')
    (second : Answers forth' back' verdict verdict' forth'' back'') :
    Answers forth back verdict verdict' forth'' back'' :=
  ⟨first.trans second.toEchoes, second.same⟩

theorem Answers.both {verdict verdict' other other' : Bool}
    (first : Answers forth back verdict verdict' forth' back')
    (second : Answers forth' back' other other' forth'' back'') :
    Answers forth back (verdict && other) (verdict' && other') forth'' back'' :=
  ⟨first.toEchoes.trans second.toEchoes, by rw [first.same, second.same]⟩

/-- Operations on the arenas that keep them mirrored change nothing else. -/
theorem Mirrored.echoes (mirrored : Mirrored forth back) {arena arena' : Arena}
    (arenas : arena.Mirrors arena') (size : arena.size = forth.arena.size) :
    Echoes forth back { forth with arena := arena } { back with arena := arena' } :=
  ⟨⟨size.ge, (Along.refl forth back).reports⟩, arenas, mirrored.lossy⟩

theorem Mirrored.shorten (mirrored : Mirrored forth back) {arena arena' : Arena}
    (shortens : forth.arena.Shortens arena) (shortens' : back.arena.Shortens arena') :
    Echoes forth back { forth with arena := arena } { back with arena := arena' } :=
  mirrored.echoes (mirrored.arenas.shorten shortens shortens') shortens.size

/-! ### Steps of unification -/

theorem resolve_echoes (mirrored : Mirrored forth back) {ty ty' : Ty}
    (covers : forth.arena.Covers ty) (covers' : back.arena.Covers ty') :
    Paired (resolve ty) (resolve ty') forth back fun _ _ => Echoes forth back :=
  mirrored.shorten (resolve_ensures mirrored.arenas.wellFormed covers).1
    (resolve_ensures mirrored.arenas.wellFormed' covers').1

theorem refuse_answers (mirrored : Mirrored forth back) (site : Site) {fault fault' : Fault}
    (kind : fault'.kind = fault.kind) :
    Paired (refuse site fault) (refuse site fault') forth back (Answers forth back) := by
  have along := addDiagnostic_along mirrored.lossy fault.kind site.span (site.message fault)
    (site.message fault')
  rw [refuse, refuse, reportAt, reportAt, kind]
  exact ⟨⟨along, mirrored.arenas, mirrored.lossy⟩, rfl⟩

theorem occursIn_answers (mirrored : Mirrored forth back) {id id' : VarId} {ty ty' : Ty}
    (covers : forth.arena.Covers ty) (covers' : back.arena.Covers ty')
    (counterparts : Counterparts forth.arena back.arena id ty id' ty') :
    Paired (occursIn id ty) (occursIn id' ty') forth back fun verdict verdict' forth' back' =>
      Answers forth back verdict verdict' forth' back' ∧
        forth.arena.Shortens forth'.arena ∧ back.arena.Shortens back'.arena ∧
        (verdict = true ↔ id ∈ (forth.arena.solved ty).vars) := by
  have arenas := mirrored.arenas
  obtain ⟨shortens, found⟩ := occursIn_ensures arenas.wellFormed id covers
  obtain ⟨shortens', found'⟩ := occursIn_ensures arenas.wellFormed' id' covers'
  rw [counterparts.mem_vars arenas] at found'
  exact ⟨⟨mirrored.shorten shortens shortens', Bool.eq_iff_iff.mpr (found'.trans found.symm)⟩,
    shortens, shortens', found⟩

/-- Counterparts are linked on both sides, or on neither. -/
theorem bindVar_answers (mirrored : Mirrored forth back) (site : Site) {id id' : VarId}
    {ty ty' source source' other other' : Ty} (heads : forth.arena.Heads source (.var id))
    (otherHeads : forth.arena.Heads other ty) (heads' : back.arena.Heads source' (.var id'))
    (otherHeads' : back.arena.Heads other' ty')
    (counterparts : Counterparts forth.arena back.arena id ty id' ty') :
    Paired (bindVar site id ty) (bindVar site id' ty') forth back (Answers forth back) := by
  have arenas := mirrored.arenas
  rw [bindVar, bindVar]
  refine Paired.bind (occursIn_answers mirrored otherHeads.covers otherHeads'.covers
    counterparts) ?_
  rintro verdict verdict' now now' ⟨⟨echoes, same⟩, shortens, shortens', found⟩
  rw [same]
  cases verdict with
  | true =>
    refine Paired.bind (resolve_echoes echoes.mirrored (shortens.covers otherHeads.covers)
      (shortens'.covers otherHeads'.covers)) ?_
    rintro shown shown' _ _ echoes'
    exact (refuse_answers echoes'.mirrored site (by rfl)).mono fun _ _ _ _ refused =>
      (echoes.trans echoes').answers refused
  | false =>
    have absent : id ∉ (forth.arena.solved ty).vars :=
      fun occurs => Bool.false_ne_true (found.mpr occurs)
    have absent' : id' ∉ (back.arena.solved ty').vars :=
      fun occurs => absent ((counterparts.mem_vars arenas).mp occurs)
    rw [← shortens.solved] at absent
    rw [← shortens'.solved] at absent'
    have bindable := (heads.preserve shortens.toPreserves arenas.wellFormed).bindable
      (otherHeads.preserve shortens.toPreserves arenas.wellFormed) absent
    have bindable' := (heads'.preserve shortens'.toPreserves arenas.wellFormed').bindable
      (otherHeads'.preserve shortens'.toPreserves arenas.wellFormed') absent'
    have linked := echoes.mirrored.arenas.link (counterparts.shorten shortens shortens') bindable
      bindable'
    exact ⟨echoes.trans (echoes.mirrored.echoes linked (size_link _ _ _)), rfl⟩

/-! ### Part by part -/

/-- Two types are met in the same way, whichever of them comes first. -/
def Swaps (meet meet' : Ty → Ty → SessionM Bool) (first second : Ty) : Prop :=
  ∀ ⦃forth back⦄, Mirrored forth back → forth.arena.Covers first → forth.arena.Covers second →
    Paired (meet first second) (meet' second first) forth back (Answers forth back)

/-- Two computations that take the same branch. -/
theorem Paired.ite {Result : Type} {condition condition' : Prop} [Decidable condition]
    [Decidable condition'] (same : condition' ↔ condition)
    {holds holds' fails fails' : SessionM Result}
    {post : Result → Result → Session → Session → Prop}
    (pos : condition → Paired holds holds' forth back post)
    (neg : ¬ condition → Paired fails fails' forth back post) :
    Paired (if condition then holds else fails) (if condition' then holds' else fails') forth back
      post := by
  by_cases case : condition
  · rw [if_pos case, if_pos (same.mpr case)]
    exact pos case
  · rw [if_neg case, if_neg (same.not.mpr case)]
    exact neg case

section Parts

variable {meet meet' : Ty → Ty → SessionM Bool} {site : Site}

theorem swaps_prim (primitive primitive' : Primitive) :
    Swaps (unifyParts meet site) (unifyParts meet' site) (.prim primitive) (.prim primitive') := by
  intro forth back mirrored _ _
  rw [unifyParts, unifyParts]
  refine .ite eq_comm (fun _ => ?_) fun _ => ?_
  · exact Paired.pure ⟨.refl mirrored, rfl⟩
  · exact refuse_answers mirrored site rfl

/-- Types of different shapes are refused in either order. -/
theorem swaps_of_differ {first second : Ty}
    (refused : unifyParts meet site first second = do
      let first ← resolve first
      let second ← resolve second
      refuse site (.shapes first second))
    (refused' : unifyParts meet' site second first = do
      let second ← resolve second
      let first ← resolve first
      refuse site (.shapes second first)) :
    Swaps (unifyParts meet site) (unifyParts meet' site) first second := by
  intro forth back mirrored covers covers'
  rw [refused, refused']
  refine Paired.bind (resolve_echoes mirrored covers (mirrored.covers covers')) ?_
  rintro shown shown' now now' echoes
  refine Paired.bind (resolve_echoes echoes.mirrored (echoes.covers covers')
    (echoes.mirrored.covers (echoes.covers covers))) ?_
  rintro other other' _ _ echoes'
  exact (refuse_answers echoes'.mirrored site (by rfl)).mono fun _ _ _ _ refused =>
    (echoes.trans echoes').answers refused

theorem swaps_array {element element' : Ty}
    (inner : Swaps (unifyParts meet site) (unifyParts meet' site) element element') :
    Swaps (unifyParts meet site) (unifyParts meet' site) (.array element) (.array element') := by
  intro forth back mirrored covers covers'
  rw [unifyParts, unifyParts]
  refine .ite eq_comm (fun _ => ?_) fun _ => ?_
  · exact Paired.pure ⟨.refl mirrored, rfl⟩
  · exact inner mirrored (covers_array.mp covers) (covers_array.mp covers')

theorem unifyAllParts_answers {firsts seconds : List Ty}
    (each : ∀ first ∈ firsts, ∀ second ∈ seconds,
      Swaps (unifyParts meet site) (unifyParts meet' site) first second)
    (mirrored : Mirrored forth back) (covers : forth.arena.CoversEach firsts)
    (covers' : forth.arena.CoversEach seconds) :
    Paired (unifyAllParts meet site firsts seconds) (unifyAllParts meet' site seconds firsts) forth
      back (Answers forth back) := by
  induction firsts generalizing seconds forth back with
  | nil =>
    cases seconds with
    | nil | cons _ _ =>
      simp only [unifyAllParts]
      exact Paired.pure ⟨.refl mirrored, rfl⟩
  | cons first firsts inductionHypothesis =>
    cases seconds with
    | nil =>
      simp only [unifyAllParts]
      exact Paired.pure ⟨.refl mirrored, rfl⟩
    | cons second seconds =>
      obtain ⟨coversFirst, covers⟩ := List.forall_mem_cons.mp covers
      obtain ⟨coversSecond, covers'⟩ := List.forall_mem_cons.mp covers'
      rw [unifyAllParts, unifyAllParts]
      refine Paired.bind (each first List.mem_cons_self second List.mem_cons_self mirrored
        coversFirst coversSecond) fun verdict verdict' now now' answers => ?_
      refine Paired.bind (inductionHypothesis (fun first member second member' =>
        each first (List.mem_cons_of_mem _ member) second (List.mem_cons_of_mem _ member'))
        answers.mirrored (fun ty member => answers.covers (covers ty member))
        fun ty member => answers.covers (covers' ty member)) ?_
      rintro other other' _ _ answers'
      exact Paired.pure (answers.both answers')

theorem swaps_fn {params params' : List Ty} {result result' : Ty}
    (each : ∀ param ∈ params, ∀ param' ∈ params',
      Swaps (unifyParts meet site) (unifyParts meet' site) param param')
    (last : Swaps (unifyParts meet site) (unifyParts meet' site) result result') :
    Swaps (unifyParts meet site) (unifyParts meet' site) (.fn params result)
      (.fn params' result') := by
  intro forth back mirrored covers covers'
  obtain ⟨coversParams, coversResult⟩ := covers_fn.mp covers
  obtain ⟨coversParams', coversResult'⟩ := covers_fn.mp covers'
  rw [unifyParts, unifyParts]
  refine .ite (and_congr eq_comm eq_comm) (fun _ => ?_) fun _ => .ite ne_comm (fun _ => ?_)
    fun _ => ?_
  · exact Paired.pure ⟨.refl mirrored, rfl⟩
  · exact refuse_answers mirrored site rfl
  · refine Paired.bind (unifyAllParts_answers each mirrored coversParams coversParams') ?_
    rintro verdict verdict' now now' answers
    refine Paired.bind (last answers.mirrored (answers.covers coversResult)
      (answers.covers coversResult')) fun other other' _ _ answers' => ?_
    exact Paired.pure (answers.both answers')

/-- Types are made equal part by part in either order, if variables in them are met so. -/
theorem unifyParts_swaps (meets : ∀ first second, Swaps meet meet' first second)
    (first second : Ty) : Swaps (unifyParts meet site) (unifyParts meet' site) first second := by
  have rightVar (first : Ty) (id : VarId) :
      Swaps (unifyParts meet site) (unifyParts meet' site) first (.var id) := by
    intro forth back
    rw [unifyParts_right_var, unifyParts]
    exact @meets first (.var id) forth back
  induction first generalizing second with
  | var id =>
    intro forth back
    rw [unifyParts, unifyParts_right_var]
    exact @meets (.var id) second forth back
  | prim primitive =>
    cases second with
    | var id => exact rightVar _ id
    | prim primitive' => exact swaps_prim primitive primitive'
    | fn _ _ | array _ =>
      exact swaps_of_differ (by simp only [unifyParts]) (by simp only [unifyParts])
  | fn params result paramsHold resultHolds =>
    cases second with
    | var id => exact rightVar _ id
    | prim _ | array _ =>
      exact swaps_of_differ (by simp only [unifyParts]) (by simp only [unifyParts])
    | fn params' result' =>
      exact swaps_fn (fun param member param' _ => paramsHold param member param')
        (resultHolds result')
  | array element elementHolds =>
    cases second with
    | var id => exact rightVar _ id
    | prim _ | fn _ _ =>
      exact swaps_of_differ (by simp only [unifyParts]) (by simp only [unifyParts])
    | array element' => exact swaps_array (elementHolds element')

end Parts

/-! ### Following variables -/

theorem compress_echoes (mirrored : Mirrored forth back) {ty ty' : Ty}
    (covers : forth.arena.Covers ty) (covers' : back.arena.Covers ty') :
    Paired (compress ty) (compress ty') forth back fun head head' forth' back' =>
      Echoes forth back forth' back' ∧
        (forth.arena.Shortens forth'.arena ∧ forth.arena.Heads ty head) ∧
        back.arena.Shortens back'.arena ∧ back.arena.Heads ty' head' := by
  obtain ⟨shortens, heads, _⟩ := compress_ensures mirrored.arenas.wellFormed covers
  obtain ⟨shortens', heads', _⟩ := compress_ensures mirrored.arenas.wellFormed' covers'
  exact ⟨mirrored.shorten shortens shortens', ⟨shortens, heads⟩, shortens', heads'⟩

section Heads

variable {meet meet' : Ty → Ty → SessionM Bool} {site : Site} {first second : Ty}

theorem unifyHeads_left (id : VarId) (proper : ∀ other, second ≠ .var other) :
    unifyHeads meet site (.var id) second = bindVar site id second := by
  cases second with
  | var other => exact absurd rfl (proper other)
  | prim _ | fn _ _ | array _ => simp only [unifyHeads]

theorem unifyHeads_right (id : VarId) (proper : ∀ other, first ≠ .var other) :
    unifyHeads meet site first (.var id) = bindVar site id first := by
  cases first with
  | var other => exact absurd rfl (proper other)
  | prim _ | fn _ _ | array _ => simp only [unifyHeads]

theorem unifyHeads_parts (proper : ∀ other, first ≠ .var other)
    (proper' : ∀ other, second ≠ .var other) :
    unifyHeads meet site first second = unifyParts meet site first second := by
  cases first with
  | var other => exact absurd rfl (proper other)
  | prim _ | fn _ _ | array _ =>
    cases second with
    | var other => exact absurd rfl (proper' other)
    | prim _ | fn _ _ | array _ => simp only [unifyHeads]

theorem unifyHeads_answers (meets : ∀ first second, Swaps meet meet' first second)
    (mirrored : Mirrored forth back) {head other head' other' : Ty}
    (heads : forth.arena.Heads first head) (otherHeads : forth.arena.Heads second other)
    (heads' : back.arena.Heads first head') (otherHeads' : back.arena.Heads second other') :
    Paired (unifyHeads meet site head other) (unifyHeads meet' site other' head') forth back
      (Answers forth back) := by
  have arenas := mirrored.arenas
  rcases arenas.end_cases heads.ends heads'.ends with ⟨rfl, proper⟩ | ⟨id, id', rfl, rfl⟩
  · rcases arenas.end_cases otherHeads.ends otherHeads'.ends with
      ⟨rfl, proper'⟩ | ⟨id, id', rfl, rfl⟩
    · rw [unifyHeads_parts proper proper', unifyHeads_parts proper' proper]
      exact unifyParts_swaps meets _ _ mirrored heads.covers otherHeads.covers
    · rw [unifyHeads_right id proper, unifyHeads_left id' proper]
      exact bindVar_answers mirrored site otherHeads heads otherHeads' heads'
        (.proper proper otherHeads.ends otherHeads'.ends)
  · rcases arenas.end_cases otherHeads.ends otherHeads'.ends with
      ⟨rfl, proper'⟩ | ⟨root, root', rfl, rfl⟩
    · rw [unifyHeads_left id proper', unifyHeads_right id' proper']
      exact bindVar_answers mirrored site heads otherHeads heads' otherHeads'
        (.proper proper' heads.ends heads'.ends)
    · have same : root' = id' ↔ id = root := by
        rw [eq_comm, ← Ty.var.injEq, ← Ty.var.injEq, ← heads.meaning_root,
          ← heads'.meaning_root, ← otherHeads.meaning_root, ← otherHeads'.meaning_root]
        exact arenas.solved_eq
      rw [unifyHeads, unifyHeads]
      refine .ite same (fun _ => ?_) fun _ => ?_
      · exact Paired.pure ⟨.refl mirrored, rfl⟩
      · exact bindVar_answers mirrored site heads otherHeads otherHeads' heads'
          (.roots heads.ends otherHeads.ends otherHeads'.ends heads'.ends)

end Heads

theorem unifyWithin_swaps (site : Site) (hops : Nat) (first second : Ty) :
    Swaps (unifyWithin site hops) (unifyWithin site hops) first second := by
  induction hops generalizing first second with
  | zero =>
    -- Both sides carry the same bound, so it is used up on both or on neither.
    intro forth back mirrored _ _
    exact ⟨mirrored.echoes mirrored.arenas.noteEndless rfl, rfl⟩
  | succ hops inductionHypothesis =>
    intro forth back mirrored covers covers'
    rw [unifyWithin_succ, unifyWithin_succ]
    refine Paired.bind (compress_echoes mirrored covers (mirrored.covers covers')) ?_
    rintro head other' now now' ⟨echoes, ⟨shortens, heads⟩, shortens', otherHeads'⟩
    refine Paired.bind (compress_echoes echoes.mirrored (echoes.covers covers')
      (echoes.mirrored.covers (echoes.covers covers))) ?_
    rintro other head' last last' ⟨echoes', ⟨shorter, otherHeads⟩, shorter', heads'⟩
    have wellFormed := mirrored.arenas.wellFormed
    have wellFormed' := mirrored.arenas.wellFormed'
    refine (unifyHeads_answers inductionHypothesis echoes'.mirrored
      (heads.preserve (shortens.trans shorter).toPreserves wellFormed)
      (otherHeads.preserve shorter.toPreserves shortens.wellFormed)
      (heads'.preserve shorter'.toPreserves shortens'.wellFormed)
      (otherHeads'.preserve (shortens'.trans shorter').toPreserves wellFormed')).mono ?_
    exact fun _ _ _ _ answers => (echoes.trans echoes').answers answers

/-- Unification comes to the same verdict if its two types are exchanged, also where it fails. It
reports the same faults in the same order, and the same types are resolved to the same type
afterwards. -/
theorem unify_symmetric (session : Session) (wellFormed : session.arena.WellFormed) (site : Site)
    (first second : Ty) (covers : session.arena.Covers first)
    (covers' : session.arena.Covers second) :
    Paired (unify site first second) (unify site second first) session session
      fun verdict verdict' forth back =>
        verdict' = verdict ∧
          (∃ added added', forth.diagnostics = session.diagnostics ++ added ∧
            back.diagnostics = session.diagnostics ++ added' ∧
            List.Forall₂ Diagnostic.Alike added added') ∧
          ∀ ty ty', session.arena.Covers ty → session.arena.Covers ty' →
            ((resolve ty forth).1 = (resolve ty' forth).1 ↔
              (resolve ty back).1 = (resolve ty' back).1) := by
  rw [unify, unify]
  refine Paired.get_bind ((unifyWithin_swaps site _ first second ⟨.refl wellFormed, rfl⟩ covers
    covers').mono fun verdict verdict' forth back answers => ?_)
  refine ⟨answers.same, answers.reports, fun ty ty' covers covers' => ?_⟩
  have arenas := answers.mirrored.arenas
  rw [resolve_eq arenas.wellFormed (answers.covers covers),
    resolve_eq arenas.wellFormed (answers.covers covers'),
    resolve_eq arenas.wellFormed' (arenas.covers (answers.covers covers)),
    resolve_eq arenas.wellFormed' (arenas.covers (answers.covers covers'))]
  exact arenas.solved_eq.symm

/-- Two function types with two variables that are made equal, two primitive types that differ and a
variable that would occur in itself. The variables are linked in opposite directions, and both
faults are reported in either order of the types. -/
theorem unify_symmetric_failing :
    let session := (perform .fresh (perform .fresh (perform .fresh (new false)).2).2).2
    let first : Ty := .fn [.var 0, .prim .number, .var 0] (.var 2)
    let second : Ty := .fn [.var 1, .prim .string, .array (.var 1)] (.prim .bool)
    Paired (unify {} first second) (unify {} second first) session session
      fun verdict verdict' forth back =>
        (verdict = false ∧ forth.diagnostics.length = 2 ∧ forth.arena ≠ back.arena) ∧
          verdict' = verdict ∧
          ((resolve (.var 0) forth).1 = (resolve (.var 1) forth).1 ↔
            (resolve (.var 0) back).1 = (resolve (.var 1) back).1) := by
  intro session first second
  have reachable : session.Reachable :=
    (((Reachable.new false).perform .fresh trivial).perform .fresh trivial).perform .fresh trivial
  have known {ty : Ty} (below : ∀ id ∈ ty.vars, id < 3) : session.arena.Covers ty := below
  obtain ⟨same, -, identified⟩ := unify_symmetric session reachable.sound.1.wellFormed {} first
    second (known (by decide)) (known (by decide))
  exact ⟨by decide +kernel, same,
    identified (.var 0) (.var 1) (known (by decide)) (known (by decide))⟩

end Session

end ArrowCheck
