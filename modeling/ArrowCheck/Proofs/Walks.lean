/-
This file says what the walks over a well-formed arena do. Whoever follows a chain
of links finds its end, and only shortens the chain: no meaning changes, and no
variable comes to stand above one that it did not stand above before. So the
bounds that the walks carry are never used up, and no walk leaves the arena.
Resolving a type gives its meaning, and the occurs check finds exactly the
variables of the meaning.
-/

import ArrowCheck.Proofs.Ensures
import ArrowCheck.Proofs.Meaning

namespace ArrowCheck.Arena

/-! ### Meanings that stay -/

/-- Every variable keeps its meaning and the end of its chain, and no variable comes to stand above
one that it did not stand above before. -/
structure Preserves (before after : Arena) : Prop where
  wellFormed : after.WellFormed
  size_le : before.size ≤ after.size
  meaning : after.meaning = before.meaning
  ends : ∀ {ty head}, before.Ends ty head → after.Ends ty head
  ranks : ∀ ranking, Ranks ranking before → Ranks ranking after
  marks : after.marks = before.marks

/-- Meanings are kept, and no variable is created. -/
structure Shortens (before after : Arena) : Prop extends Preserves before after where
  size : after.size = before.size

namespace Preserves

variable {before middle after : Arena}

theorem refl (wellFormed : before.WellFormed) : Preserves before before :=
  ⟨wellFormed, le_refl _, rfl, id, fun _ ranks => ranks, rfl⟩

theorem trans (first : Preserves before middle) (second : Preserves middle after) :
    Preserves before after :=
  ⟨second.wellFormed, first.size_le.trans second.size_le, second.meaning.trans first.meaning,
    second.ends ∘ first.ends, fun ranking ranks => second.ranks ranking (first.ranks ranking ranks),
    second.marks.trans first.marks⟩

theorem solved (preserves : Preserves before after) (ty : Ty) :
    after.solved ty = before.solved ty := by
  rw [Arena.solved, Arena.solved, preserves.meaning]

theorem covers (preserves : Preserves before after) {ty : Ty} (covers : before.Covers ty) :
    after.Covers ty :=
  fun id occurs => (covers id occurs).trans_le preserves.size_le

theorem target_eq_none (preserves : Preserves before after) (wellFormed : before.WellFormed)
    {id : VarId} : after.target id = none ↔ before.target id = none := by
  rw [← meaning_eq_var_iff preserves.wellFormed, ← meaning_eq_var_iff wellFormed,
    preserves.meaning]

end Preserves

theorem preserves_grown {arena : Arena} (wellFormed : arena.WellFormed) :
    Preserves arena arena.grown where
  wellFormed := wellFormed.grown
  size_le := by
    rw [size_grown]
    exact Nat.le_succ _
  meaning := meaning_grown wellFormed
  ends := Ends.grown
  ranks _ ranks := by
    rw [Ranks, points_grown]
    exact ranks
  marks := rfl

namespace Shortens

variable {before middle after : Arena}

theorem refl (wellFormed : before.WellFormed) : Shortens before before :=
  ⟨.refl wellFormed, rfl⟩

theorem trans (first : Shortens before middle) (second : Shortens middle after) :
    Shortens before after :=
  ⟨first.toPreserves.trans second.toPreserves, second.size.trans first.size⟩

/-- A variable may be linked directly to the end of its chain if that lies below it. -/
theorem link (shortens : Shortens before after) (wellFormed : before.WellFormed) {id : VarId}
    {ty : Ty} (known : id < before.size) (covers : before.Covers ty)
    (ends : before.Ends (.var id) ty)
    (below : ∀ ranking, Ranks ranking before → ∀ other ∈ ty.vars, ranking other < ranking id) :
    Shortens before (after.link id ty) := by
  have ranks : ∀ ranking, Ranks ranking before → Ranks ranking (after.link id ty) := by
    intro ranking ranks source other points
    rcases points_link points with ⟨rfl, occurs⟩ | ⟨_, points⟩
    · exact below ranking ranks other occurs
    · exact shortens.ranks ranking ranks source other points
  have size : (after.link id ty).size = before.size := (size_link _ _ _).trans shortens.size
  have wellFormed' : (after.link id ty).WellFormed :=
    ⟨covers_link shortens.wellFormed (shortens.covers covers),
      (ranks _ (ranks_rank wellFormed)).acyclic⟩
  have known' : id < after.size := by
    rw [shortens.size]
    exact known
  have ends' : after.Ends (.var id) ty := shortens.ends ends
  refine ⟨⟨wellFormed', size.ge, ?_, fun {source head} found => ?_, ranks, shortens.marks⟩, size⟩
  · rw [meaning_link_of_same shortens.wellFormed wellFormed' known', shortens.meaning]
    rw [ends'.solved shortens.wellFormed, solved_var]
  · refine ends'.link_end known' (fun same => ?_) (shortens.ends found)
    have falls := below _ (ranks_rank wellFormed) id
    rw [same, Ty.mem_vars_var] at falls
    exact lt_irrefl _ (falls rfl)

end Shortens

/-! ### Ends of chains -/

/-- A type is the outermost known form of another. -/
structure Heads (arena : Arena) (ty head : Ty) : Prop where
  ends : arena.Ends ty head
  solved : arena.solved head = arena.solved ty
  covers : arena.Covers head
  free : ∀ root, head = .var root → arena.target root = none

/-- The form of a variable is the variable itself or lies below it. -/
def Lowers (arena : Arena) (id : VarId) (head : Ty) : Prop :=
  head = .var id ∨
    ∀ ranking, Ranks ranking arena → ∀ other ∈ head.vars, ranking other < ranking id

theorem Heads.preserve {before after : Arena} (preserves : Preserves before after)
    (wellFormed : before.WellFormed) {ty head : Ty} (heads : before.Heads ty head) :
    after.Heads ty head where
  ends := preserves.ends heads.ends
  solved := by rw [preserves.solved, preserves.solved, heads.solved]
  covers := preserves.covers heads.covers
  free root same := (preserves.target_eq_none wellFormed).mpr (heads.free root same)

theorem Heads.meaning_root {arena : Arena} {ty : Ty} {root : VarId}
    (heads : arena.Heads ty (.var root)) : arena.solved ty = .var root := by
  rw [← heads.solved, solved_var, meaning_of_free (heads.free root rfl)]

theorem heads_of_free {arena : Arena} {id : VarId} (known : id < arena.size)
    (free : arena.target id = none) : arena.Heads (.var id) (.var id) := by
  refine ⟨.free free, rfl, covers_var.mpr known, fun root same => ?_⟩
  cases same
  exact free

theorem heads_of_linked {arena : Arena} (wellFormed : arena.WellFormed) {id : VarId} {ty : Ty}
    (linked : arena.target id = some ty) (proper : ∀ next, ty ≠ .var next) :
    arena.Heads (.var id) ty ∧ arena.Lowers id ty := by
  refine ⟨⟨.next linked (.proper proper), ?_, wellFormed.covers id ty linked,
    fun root same => absurd same (proper root)⟩, .inr fun ranking ranks other occurs => ?_⟩
  · rw [solved_var, meaning_of_linked wellFormed linked]
  · exact ranks id other ⟨ty, linked, occurs⟩

/-- A chain has the end of the chain that its first link leads to. -/
theorem Heads.of_next {arena : Arena} (wellFormed : arena.WellFormed) {id next : VarId}
    {head : Ty} (linked : arena.target id = some (.var next))
    (heads : arena.Heads (.var next) head) : arena.Heads (.var id) head := by
  refine ⟨.next linked heads.ends, ?_, heads.covers, heads.free⟩
  rw [heads.solved, solved_var id, meaning_of_linked wellFormed linked]

theorem Lowers.of_next {arena : Arena} {id next : VarId} {head : Ty}
    (linked : arena.target id = some (.var next)) (lowers : arena.Lowers next head)
    (ranking : VarId → Nat) (ranks : Ranks ranking arena) (other : VarId)
    (occurs : other ∈ head.vars) : ranking other < ranking id := by
  have falls := ranks id next ⟨_, linked, Ty.mem_vars_var.mpr rfl⟩
  rcases lowers with rfl | below
  · rw [Ty.mem_vars_var] at occurs
    rw [occurs]
    exact falls
  · exact (below ranking ranks other occurs).trans falls

/-! ### Following a chain -/

/-- Following a chain finds its end. -/
theorem follow_ensures {arena : Arena} (wellFormed : arena.WellFormed) {ranking : VarId → Nat}
    (ranks : Ranks ranking arena) {steps : Nat} {id : VarId} (known : id < arena.size)
    (enough : ranking id < steps) :
    Ensures (follow steps id) arena fun head after =>
      Shortens arena after ∧ arena.Heads (.var id) head ∧ arena.Lowers id head := by
  induction steps generalizing id with
  | zero => exact absurd enough (Nat.not_lt_zero _)
  | succ steps inductionHypothesis =>
    rw [follow]
    refine Ensures.get_bind ?_
    obtain ⟨link, present⟩ : ∃ link, arena.links[id]? = some link :=
      ⟨_, Array.getElem?_eq_getElem known⟩
    have target : arena.target id = link := by
      rw [Arena.target, present]
      rfl
    rw [present]
    rcases link with _ | next | _ | _ | _
    · exact Ensures.pure ⟨.refl wellFormed, heads_of_free known target, .inl rfl⟩
    · have falls := ranks id next ⟨_, target, Ty.mem_vars_var.mpr rfl⟩
      have nextKnown : next < arena.size :=
        covers_var.mp (wellFormed.covers id _ target)
      refine Ensures.bind (inductionHypothesis nextKnown (by omega)) ?_
      rintro head after ⟨shortens, nextHeads, lowers⟩
      have heads := nextHeads.of_next wellFormed target
      have below := lowers.of_next target
      exact Ensures.modify_bind (Ensures.pure
        ⟨shortens.link wellFormed known heads.covers heads.ends below, heads, .inr below⟩)
    all_goals
      exact Ensures.pure ⟨.refl wellFormed, heads_of_linked wellFormed target (by simp)⟩

/-- The outermost known form of a type. -/
theorem compress_ensures {arena : Arena} (wellFormed : arena.WellFormed) {ty : Ty}
    (covers : arena.Covers ty) :
    Ensures (compress ty) arena fun head after =>
      Shortens arena after ∧ arena.Heads ty head ∧ ∀ id, ty = .var id → arena.Lowers id head := by
  match ty with
  | .var id =>
    rw [compress]
    refine Ensures.get_bind ((follow_ensures wellFormed (ranks_rank wellFormed)
      (covers_var.mp covers) (Nat.lt_succ_of_le (arena.rank_le_size id))).mono ?_)
    intro head after ⟨shortens, heads, lowers⟩
    refine ⟨shortens, heads, fun other same => ?_⟩
    cases same
    exact lowers
  | .prim _ | .fn _ _ | .array _ =>
    exact Ensures.pure ⟨.refl wellFormed, ⟨.proper nofun, rfl, covers, nofun⟩, nofun⟩

/-! ### Walks over the variables of a type -/

section Walks

variable {State : Type} {replace : VarId → StateM State Ty} (Later : State → State → Prop)
  {values : State → VarId → Ty} {Known : State → VarId → Prop} {start : State}

theorem mapVarsAll_lasting
    (trans : ∀ {before middle after}, Later before middle → Later middle after → Later before after)
    (refl : ∀ {now}, Later start now → Later now now) (types : List Ty)
    (each : ∀ ty ∈ types, ∀ now, Later start now →
      Lasting Later (ty.mapVars replace) now fun value last =>
        value = ty.subst (values last) ∧ ∀ id ∈ ty.vars, Known last id)
    {now : State} (later : Later start now) :
    Lasting Later (Ty.mapVarsAll replace types) now fun found last =>
      found = types.map (Ty.subst (values last)) ∧ ∀ ty ∈ types, ∀ id ∈ ty.vars, Known last id := by
  induction types generalizing now with
  | nil => exact .pure (refl later) fun last _ => ⟨rfl, List.forall_mem_nil _⟩
  | cons head tail inductionHypothesis =>
    obtain ⟨headHolds, tailHolds⟩ := List.forall_mem_cons.mp each
    rw [Ty.mapVarsAll]
    refine .bind trans (headHolds now later) fun value middle step => ?_
    refine .bind trans (inductionHypothesis tailHolds (trans later step)) ?_
    intro found after step'
    refine .pure (refl (trans later (trans step step'))) ?_
    intro last _ ⟨foundIs, tailKnown⟩ ⟨valueIs, headKnown⟩
    rw [valueIs, foundIs, List.map_cons]
    exact ⟨rfl, List.forall_mem_cons.mpr ⟨headKnown, tailKnown⟩⟩

/-- A walk that replaces each variable by a value gives the type with these values. The values may
depend on the state, if they stay the same in every later state. -/
theorem mapVars_lasting
    (trans : ∀ {before middle after}, Later before middle → Later middle after → Later before after)
    (refl : ∀ {now}, Later start now → Later now now) (ty : Ty)
    (each : ∀ id ∈ ty.vars, ∀ now, Later start now →
      Lasting Later (replace id) now fun value last => value = values last id ∧ Known last id)
    {now : State} (later : Later start now) :
    Lasting Later (ty.mapVars replace) now fun value last =>
      value = ty.subst (values last) ∧ ∀ id ∈ ty.vars, Known last id := by
  induction ty generalizing now with
  | var id =>
    rw [Ty.mapVars]
    refine (each id (Ty.mem_vars_var.mpr rfl) now later).mono fun value last ⟨valueIs, known⟩ => ?_
    rw [Ty.subst_var]
    refine ⟨valueIs, fun other occurs => ?_⟩
    rw [Ty.mem_vars_var.mp occurs]
    exact known
  | prim primitive =>
    rw [Ty.mapVars]
    refine .pure (refl later) fun last _ => ⟨?_, fun id occurs => ?_⟩
    · rw [Ty.subst_prim]
    · exact absurd occurs Ty.not_mem_vars_prim
  | fn params result paramsHold resultHolds =>
    have paramsLast := mapVarsAll_lasting Later trans refl params (fun param member now later =>
      paramsHold param member (fun id occurs =>
        each id (Ty.mem_vars_fn.mpr (.inl ⟨param, member, occurs⟩))) later) later
    rw [Ty.mapVars]
    refine .bind trans paramsLast fun found middle step => ?_
    refine .bind trans (resultHolds (fun id occurs => each id (Ty.mem_vars_fn.mpr (.inr occurs)))
      (trans later step)) fun value after step' => ?_
    refine .pure (refl (trans later (trans step step'))) ?_
    intro last _ ⟨valueIs, resultKnown⟩ ⟨foundIs, paramsKnown⟩
    rw [valueIs, foundIs, Ty.subst_fn]
    refine ⟨rfl, fun id occurs => ?_⟩
    rcases Ty.mem_vars_fn.mp occurs with ⟨param, member, occurs⟩ | occurs
    · exact paramsKnown param member id occurs
    · exact resultKnown id occurs
  | array element elementHolds =>
    rw [Ty.mapVars]
    refine .bind trans (elementHolds (fun id occurs => each id (Ty.mem_vars_array.mpr occurs))
      later) fun value after step => ?_
    refine .pure (refl (trans later step)) fun last _ ⟨valueIs, known⟩ => ?_
    rw [valueIs, Ty.subst_array]
    exact ⟨rfl, fun id occurs => known id (Ty.mem_vars_array.mp occurs)⟩

variable {arena : Arena} {accept : VarId → ArenaM Bool} {Accepted : VarId → Prop}

theorem anyVarAll_ensures (types : List Ty)
    (each : ∀ ty ∈ types, ∀ now, Shortens arena now →
      Ensures (ty.anyVar accept) now fun verdict after =>
        Shortens arena after ∧ (verdict = true ↔ ∃ id ∈ ty.vars, Accepted id))
    {now : Arena} (shortens : Shortens arena now) :
    Ensures (Ty.anyVarAll accept types) now fun verdict after =>
      Shortens arena after ∧ (verdict = true ↔ ∃ ty ∈ types, ∃ id ∈ ty.vars, Accepted id) := by
  induction types generalizing now with
  | nil =>
    rw [Ty.anyVarAll]
    refine Ensures.pure ⟨shortens, ?_⟩
    simp
  | cons head tail inductionHypothesis =>
    obtain ⟨headHolds, tailHolds⟩ := List.forall_mem_cons.mp each
    rw [Ty.anyVarAll]
    refine Ensures.bind (headHolds now shortens) fun verdict middle ⟨shortens, headIs⟩ => ?_
    cases verdict with
    | true =>
      refine Ensures.pure ⟨shortens, ?_⟩
      simpa only [List.exists_mem_cons_iff, true_iff] using .inl (headIs.mp rfl)
    | false =>
      refine (inductionHypothesis tailHolds shortens).mono ?_
      intro verdict after ⟨shortens, tailIs⟩
      refine ⟨shortens, ?_⟩
      simp only [Bool.false_eq_true, false_iff] at headIs
      rw [tailIs, List.exists_mem_cons_iff, or_iff_right headIs]

/-- A walk that asks of each variable whether something holds of it finds out whether it holds of
any. -/
theorem anyVar_ensures (ty : Ty)
    (each : ∀ id ∈ ty.vars, ∀ now, Shortens arena now →
      Ensures (accept id) now fun verdict after =>
        Shortens arena after ∧ (verdict = true ↔ Accepted id))
    {now : Arena} (shortens : Shortens arena now) :
    Ensures (ty.anyVar accept) now fun verdict after =>
      Shortens arena after ∧ (verdict = true ↔ ∃ id ∈ ty.vars, Accepted id) := by
  induction ty generalizing now with
  | var id =>
    rw [Ty.anyVar]
    simpa only [Ty.mem_vars_var, exists_eq_left] using
      each id (Ty.mem_vars_var.mpr rfl) now shortens
  | prim primitive =>
    rw [Ty.anyVar]
    refine Ensures.pure ⟨shortens, ?_⟩
    simp
  | fn params result paramsHold resultHolds =>
    have parts := anyVarAll_ensures params (fun param member now shortens =>
      paramsHold param member (fun id occurs =>
        each id (Ty.mem_vars_fn.mpr (.inl ⟨param, member, occurs⟩))) shortens) shortens
    rw [Ty.anyVar]
    refine Ensures.bind parts ?_
    rintro verdict middle ⟨shortens, paramsAre⟩
    cases verdict with
    | true =>
      refine Ensures.pure ⟨shortens, ?_⟩
      rw [Ty.exists_mem_vars_fn]
      exact ⟨fun _ => .inl (paramsAre.mp rfl), fun _ => rfl⟩
    | false =>
      refine (resultHolds (fun id occurs => each id (Ty.mem_vars_fn.mpr (.inr occurs)))
        shortens).mono ?_
      rintro verdict after ⟨shortens, resultIs⟩
      refine ⟨shortens, ?_⟩
      simp only [Bool.false_eq_true, false_iff] at paramsAre
      rw [resultIs, Ty.exists_mem_vars_fn, or_iff_right paramsAre]
  | array element elementHolds =>
    rw [Ty.anyVar]
    simpa only [Ty.mem_vars_array] using elementHolds (fun id occurs =>
      each id (Ty.mem_vars_array.mpr occurs)) shortens

end Walks

/-! ### Resolving and searching -/

section Resolve

variable {arena : Arena} {ranking : VarId → Nat}

/-- The variables of the known form of a linked variable rank below it. -/
theorem Lowers.lt_of_mem {id other : VarId} {head : Ty} (lowers : arena.Lowers id head)
    (ranks : Ranks ranking arena) (proper : ∀ root, head ≠ .var root)
    (occurs : other ∈ head.vars) : ranking other < ranking id :=
  lowers.elim (fun same => absurd same (proper id)) fun below => below ranking ranks other occurs

/-- A walk that replaces each variable by its meaning gives the meaning of the type. -/
theorem mapVars_solves (wellFormed : arena.WellFormed) {walk : VarId → ArenaM Ty} (ty : Ty)
    (each : ∀ id ∈ ty.vars, ∀ now, Shortens arena now →
      Ensures (walk id) now fun value after => Shortens now after ∧ value = now.meaning id) :
    Ensures (ty.mapVars walk) arena fun value after =>
      Shortens arena after ∧ value = arena.solved ty := by
  have lasting : Lasting Shortens (ty.mapVars walk) arena fun value _ =>
      value = ty.subst arena.meaning ∧ ∀ id ∈ ty.vars, True := by
    refine mapVars_lasting Shortens Shortens.trans (fun later => .refl later.wellFormed) ty ?_
      (.refl wellFormed)
    intro id occurs now later
    refine (each id occurs now later).mono fun value after ⟨step, valueIs⟩ => ?_
    rw [later.meaning] at valueIs
    exact ⟨step, fun _ _ => ⟨valueIs, trivial⟩⟩
  exact ⟨lasting.1, (lasting.2 _ (.refl lasting.1.wellFormed)).1⟩

theorem resolveVar_ensures (wellFormed : arena.WellFormed) (ranks : Ranks ranking arena)
    {hops : Nat} {id : VarId} (known : id < arena.size) (enough : ranking id < hops) :
    Ensures (resolveVar hops id) arena fun value after =>
      Shortens arena after ∧ value = arena.meaning id := by
  induction hops generalizing id arena with
  | zero => exact absurd enough (Nat.not_lt_zero _)
  | succ hops inductionHypothesis =>
    rw [resolveVar]
    refine Ensures.bind (compress_ensures wellFormed (covers_var.mpr known)) ?_
    intro head middle ⟨shortens, heads, lowers⟩
    have meaning : arena.meaning id = middle.solved head := by
      rw [shortens.solved, heads.solved, solved_var]
    -- Inside the known form every variable ranks below the one that was followed.
    have inner (proper : ∀ root, head ≠ .var root) :
        Ensures (head.mapVars (resolveVar hops)) middle fun value after =>
          Shortens arena after ∧ value = arena.meaning id := by
      rw [meaning]
      refine (mapVars_solves shortens.wellFormed head fun other occurs now later => ?_).mono
        fun value after ⟨step, valueIs⟩ => ⟨shortens.trans step, valueIs⟩
      have below := (lowers id rfl).lt_of_mem ranks proper occurs
      refine inductionHypothesis later.wellFormed (later.ranks _ (shortens.ranks _ ranks)) ?_
        (by omega)
      rw [later.size, shortens.size]
      exact heads.covers other occurs
    match head, heads, inner with
    | .var root, heads, _ =>
      refine Ensures.pure ⟨shortens, ?_⟩
      rw [← solved_var, heads.meaning_root]
    | .prim _, _, inner | .fn _ _, _, inner | .array _, _, inner => exact inner nofun

/-- Resolving a type gives its meaning. -/
theorem resolve_ensures (wellFormed : arena.WellFormed) {ty : Ty} (covers : arena.Covers ty) :
    Ensures (resolve ty) arena fun value after =>
      Shortens arena after ∧ value = arena.solved ty := by
  rw [resolve]
  refine Ensures.get_bind (mapVars_solves wellFormed ty fun id occurs now later => ?_)
  have known := covers id occurs
  rw [← later.size] at known
  exact resolveVar_ensures later.wellFormed (later.ranks _ (ranks_rank wellFormed)) known
    (Nat.lt_succ_of_le (arena.rank_le_size id))

/-- A walk that searches the meaning of each variable searches the meaning of the type. -/
theorem anyVar_finds (wellFormed : arena.WellFormed) {walk : VarId → ArenaM Bool} {sought : VarId}
    (ty : Ty)
    (each : ∀ id ∈ ty.vars, ∀ now, Shortens arena now →
      Ensures (walk id) now fun verdict after =>
        Shortens now after ∧ (verdict = true ↔ sought ∈ (now.meaning id).vars)) :
    Ensures (ty.anyVar walk) arena fun verdict after =>
      Shortens arena after ∧ (verdict = true ↔ sought ∈ (arena.solved ty).vars) := by
  rw [mem_vars_solved]
  refine anyVar_ensures ty (fun id occurs now later => ?_) (.refl wellFormed)
  refine (each id occurs now later).mono fun verdict after ⟨step, verdictIs⟩ => ?_
  rw [later.meaning] at verdictIs
  exact ⟨later.trans step, verdictIs⟩

theorem occursInVar_ensures (wellFormed : arena.WellFormed) (ranks : Ranks ranking arena)
    (sought : VarId) {hops : Nat} {id : VarId} (known : id < arena.size)
    (enough : ranking id < hops) :
    Ensures (occursInVar sought hops id) arena fun verdict after =>
      Shortens arena after ∧ (verdict = true ↔ sought ∈ (arena.meaning id).vars) := by
  induction hops generalizing id arena with
  | zero => exact absurd enough (Nat.not_lt_zero _)
  | succ hops inductionHypothesis =>
    rw [occursInVar]
    refine Ensures.bind (compress_ensures wellFormed (covers_var.mpr known)) ?_
    intro head middle ⟨shortens, heads, lowers⟩
    have meaning : arena.meaning id = middle.solved head := by
      rw [shortens.solved, heads.solved, solved_var]
    have inner (proper : ∀ root, head ≠ .var root) :
        Ensures (head.anyVar (occursInVar sought hops)) middle fun verdict after =>
          Shortens arena after ∧ (verdict = true ↔ sought ∈ (arena.meaning id).vars) := by
      rw [meaning]
      refine (anyVar_finds shortens.wellFormed head fun other occurs now later => ?_).mono
        fun verdict after ⟨step, verdictIs⟩ => ⟨shortens.trans step, verdictIs⟩
      have below := (lowers id rfl).lt_of_mem ranks proper occurs
      refine inductionHypothesis later.wellFormed (later.ranks _ (shortens.ranks _ ranks)) ?_
        (by omega)
      rw [later.size, shortens.size]
      exact heads.covers other occurs
    match head, heads, inner with
    | .var root, heads, _ =>
      refine Ensures.pure ⟨shortens, ?_⟩
      rw [← solved_var, heads.meaning_root, Ty.mem_vars_var, beq_iff_eq, eq_comm]
    | .prim _, _, inner | .fn _ _, _, inner | .array _, _, inner => exact inner nofun

/-- The occurs check finds exactly the variables of the meaning of a type. -/
theorem occursIn_ensures (wellFormed : arena.WellFormed) (sought : VarId) {ty : Ty}
    (covers : arena.Covers ty) :
    Ensures (occursIn sought ty) arena fun verdict after =>
      Shortens arena after ∧ (verdict = true ↔ sought ∈ (arena.solved ty).vars) := by
  rw [occursIn]
  refine Ensures.get_bind (anyVar_finds wellFormed ty fun id occurs now later => ?_)
  have known := covers id occurs
  rw [← later.size] at known
  exact occursInVar_ensures later.wellFormed (later.ranks _ (ranks_rank wellFormed)) sought known
    (Nat.lt_succ_of_le (arena.rank_le_size id))

/-! ### Types that are resolved already -/

theorem isFree_of_mem_solved (wellFormed : arena.WellFormed) {ty : Ty} (covers : arena.Covers ty)
    {id : VarId} (occurs : id ∈ (arena.solved ty).vars) : arena.isFree id = true :=
  isFree_iff.mpr ⟨covers.solved wellFormed id occurs, target_of_mem_solved wellFormed occurs⟩

theorem resolveVar_of_free {id : VarId} (free : arena.isFree id = true) (hops : Nat) :
    Ensures (resolveVar (hops + 1) id) arena fun value after =>
      arena = after ∧ value = .var id := by
  have unlinked : arena.links[id]? = some none := beq_iff_eq.mp free
  have followed : Ensures (compress (.var id)) arena fun value after =>
      arena = after ∧ value = .var id := by
    refine Ensures.get_bind ?_
    rw [follow]
    refine Ensures.get_bind ?_
    rw [unlinked]
    exact Ensures.pure ⟨rfl, rfl⟩
  refine Ensures.bind followed ?_
  rintro _ _ ⟨rfl, rfl⟩
  exact Ensures.pure ⟨rfl, rfl⟩

/-- Resolving a type whose variables are free changes nothing. -/
theorem resolve_of_free {ty : Ty} (free : ∀ id ∈ ty.vars, arena.isFree id = true) :
    resolve ty arena = (ty, arena) := by
  have walked : Lasting Eq (ty.mapVars (resolveVar (arena.size + 1))) arena fun value _ =>
      value = ty.subst .var ∧ ∀ id ∈ ty.vars, True := by
    refine mapVars_lasting Eq Eq.trans (fun _ => rfl) ty ?_ rfl
    rintro id occurs _ rfl
    exact (resolveVar_of_free (free id occurs) arena.size).mono
      fun value after spec => ⟨spec.1, fun _ _ => ⟨spec.2, trivial⟩⟩
  obtain ⟨same, values⟩ := walked
  have value := (values _ rfl).1
  rw [Ty.subst_eq_self fun _ _ => rfl] at value
  exact Prod.ext value same.symm
end Resolve

end ArrowCheck.Arena
