/-
This file says what the variables of an arena stand for. An arena is well formed
when its links mention only variables that exist and no variable leads back to
itself. Every variable of such an arena has a meaning, a type in which only free
variables are left, and the meanings are the most general way of giving values
to the variables such that every link holds.

Links are made for two reasons. A linked variable may be linked directly to where
its chain ends, which changes no meaning; and a free variable may be linked to a
type in which it does not occur, which gives it the meaning of that type
wherever it occurs. Both keep the arena well formed. The first kind of link moves
the end of no chain, and the second only moves those ends that were the variable.
-/

import Mathlib.Data.Finset.Card
import Mathlib.Data.Finset.Range
import Mathlib.Logic.Relation
import ArrowCheck.Proofs.Substitution
import ArrowCheck.Typing.Arena

namespace ArrowCheck.Arena

open Relation

/-! ### Well-formed arenas -/

/-- The type that a variable is linked to. -/
def target (arena : Arena) (id : VarId) : Option Ty :=
  arena.links[id]?.join

/-- One variable is linked to a type in which another occurs. -/
def Points (arena : Arena) (id other : VarId) : Prop :=
  ∃ ty, arena.target id = some ty ∧ other ∈ ty.vars

/-- A type mentions only variables that exist. -/
def Covers (arena : Arena) (ty : Ty) : Prop :=
  ∀ id ∈ ty.vars, id < arena.size

/-- Links mention only variables that exist, and no variable is reached from itself through them. -/
structure WellFormed (arena : Arena) : Prop where
  covers : ∀ id ty, arena.target id = some ty → arena.Covers ty
  acyclic : ∀ id, ¬ TransGen arena.Points id id

/-- Which walks have left the arena or found no end so far. -/
def marks (arena : Arena) : Option VarId × Bool :=
  (arena.stray, arena.endless)

section Covers

variable {arena : Arena}

theorem covers_var {id : VarId} : arena.Covers (.var id) ↔ id < arena.size :=
  ⟨fun covers => covers id (Ty.mem_vars_var.mpr rfl),
    fun known _ occurs => Ty.mem_vars_var.mp occurs ▸ known⟩

@[simp] theorem covers_prim (primitive : Primitive) :
    arena.Covers (.prim primitive) :=
  fun _ occurs => absurd occurs Ty.not_mem_vars_prim

@[simp] theorem covers_array {element : Ty} :
    arena.Covers (.array element) ↔ arena.Covers element := by
  simp only [Covers, Ty.mem_vars_array]

theorem covers_fn {params : List Ty} {result : Ty} :
    arena.Covers (.fn params result) ↔
      (∀ param ∈ params, arena.Covers param) ∧ arena.Covers result :=
  Ty.forall_mem_vars_fn

end Covers

theorem lt_size_of_target {arena : Arena} {id : VarId} {ty : Ty}
    (linked : arena.target id = some ty) : id < arena.size := by
  by_contra outside
  rw [target, Array.getElem?_eq_none (Nat.le_of_not_lt outside)] at linked
  cases linked

theorem target_eq_none_of_size_le {arena : Arena} {id : VarId} (outside : arena.size ≤ id) :
    arena.target id = none := by
  by_contra linked
  obtain ⟨ty, linked⟩ := Option.ne_none_iff_exists'.mp linked
  exact Nat.not_lt.mpr outside (lt_size_of_target linked)

/-- A variable is reported as free exactly if it exists and has no link. -/
theorem isFree_iff {arena : Arena} {id : VarId} :
    arena.isFree id = true ↔ id < arena.size ∧ arena.target id = none := by
  rw [isFree, beq_iff_eq, target, Option.join_eq_none_iff]
  constructor
  · intro unlinked
    exact ⟨(Array.getElem?_eq_some_iff.mp unlinked).1, .inr unlinked⟩
  · rintro ⟨known, outside | unlinked⟩
    · exact absurd known (Nat.not_lt.mpr (Array.getElem?_eq_none_iff.mp outside))
    · exact unlinked

theorem lt_size_of_reaches {arena : Arena} (wellFormed : arena.WellFormed) {id other : VarId}
    (reaches : TransGen arena.Points id other) : other < arena.size := by
  obtain ⟨_, _, ty, linked, occurs⟩ := TransGen.tail'_iff.mp reaches
  exact wellFormed.covers _ ty linked other occurs

/-! ### Ranks -/

open Classical in
/-- The number of variables that are reached from a variable. -/
noncomputable def rank (arena : Arena) (id : VarId) : Nat :=
  ((Finset.range arena.size).filter (TransGen arena.Points id)).card

theorem rank_le_size (arena : Arena) (id : VarId) : arena.rank id ≤ arena.size := by
  classical
  exact (Finset.card_filter_le _ _).trans_eq (Finset.card_range _)

/-- Fewer variables are reached from further along a chain of links. -/
theorem rank_lt_of_reaches {arena : Arena} (wellFormed : arena.WellFormed) {id other : VarId}
    (reaches : TransGen arena.Points id other) : arena.rank other < arena.rank id := by
  classical
  refine Finset.card_lt_card ⟨fun further member => ?_, fun included => ?_⟩
  · rw [Finset.mem_filter] at member ⊢
    exact ⟨member.1, reaches.trans member.2⟩
  · have member := included (Finset.mem_filter.mpr
      ⟨Finset.mem_range.mpr (lt_size_of_reaches wellFormed reaches), reaches⟩)
    exact wellFormed.acyclic other (Finset.mem_filter.mp member).2

/-- A ranking of the variables that falls along every link. -/
def Ranks (ranking : VarId → Nat) (arena : Arena) : Prop :=
  ∀ id other, arena.Points id other → ranking other < ranking id

theorem ranks_rank {arena : Arena} (wellFormed : arena.WellFormed) : Ranks arena.rank arena :=
  fun _ _ points => rank_lt_of_reaches wellFormed (.single points)

/-- A ranking leaves no room for a cycle. -/
theorem Ranks.acyclic {arena : Arena} {ranking : VarId → Nat} (ranks : Ranks ranking arena)
    (id : VarId) : ¬ TransGen arena.Points id id := by
  have along : ∀ {first last}, TransGen arena.Points first last → ranking last < ranking first := by
    intro first last reaches
    induction reaches with
    | single points => exact ranks _ _ points
    | tail _ points below => exact (ranks _ _ points).trans below
  exact fun cycle => lt_irrefl _ (along cycle)

theorem wellFormed_of_unlinked {arena : Arena} (unlinked : ∀ id, arena.target id = none) :
    arena.WellFormed := by
  have ranks : Ranks (fun _ => 0) arena := by
    intro id other ⟨ty, linked, _⟩
    rw [unlinked] at linked
    cases linked
  refine ⟨fun id ty linked => ?_, ranks.acyclic⟩
  rw [unlinked] at linked
  cases linked

/-- What holds of a variable as soon as it holds of all that it is linked to holds of every
variable. -/
theorem WellFormed.induction {arena : Arena} (wellFormed : arena.WellFormed)
    {motive : VarId → Prop}
    (step : ∀ id, (∀ other, arena.Points id other → motive other) → motive id) (id : VarId) :
    motive id := by
  induction ranked : arena.rank id using Nat.strong_induction_on generalizing id with
  | _ bound inductionHypothesis =>
    refine step id fun other points => inductionHypothesis (arena.rank other) ?_ other rfl
    rw [← ranked]
    exact ranks_rank wellFormed id other points

/-! ### Meanings -/

/-- What a variable stands for, through at most a number of links inside one another. -/
def meaningWithin (arena : Arena) : (hops : Nat) → VarId → Ty
  | 0, id => .var id
  | hops + 1, id =>
    match arena.target id with
    | none => .var id
    | some ty => ty.subst (meaningWithin arena hops)

/-- What a variable stands for. -/
def meaning (arena : Arena) (id : VarId) : Ty :=
  arena.meaningWithin (arena.size + 1) id

/-- A type with every variable replaced by what it stands for. -/
def solved (arena : Arena) (ty : Ty) : Ty :=
  ty.subst arena.meaning

theorem meaningWithin_eq {arena : Arena} (wellFormed : arena.WellFormed) {first second : Nat}
    {id : VarId} (enough : arena.rank id < first) (enough' : arena.rank id < second) :
    arena.meaningWithin first id = arena.meaningWithin second id := by
  induction first generalizing second id with
  | zero => exact absurd enough (Nat.not_lt_zero _)
  | succ first inductionHypothesis =>
    cases second with
    | zero => exact absurd enough' (Nat.not_lt_zero _)
    | succ second =>
      rw [meaningWithin, meaningWithin]
      cases linked : arena.target id with
      | none => rfl
      | some ty =>
        refine Ty.subst_congr fun other occurs => ?_
        have falls := ranks_rank wellFormed id other ⟨ty, linked, occurs⟩
        exact inductionHypothesis (by omega) (by omega)

theorem meaning_of_free {arena : Arena} {id : VarId} (free : arena.target id = none) :
    arena.meaning id = .var id := by
  rw [meaning, meaningWithin, free]

theorem meaning_of_linked {arena : Arena} (wellFormed : arena.WellFormed) {id : VarId} {ty : Ty}
    (linked : arena.target id = some ty) : arena.meaning id = arena.solved ty := by
  rw [meaning, meaningWithin, linked]
  refine Ty.subst_congr fun other occurs => ?_
  have falls := ranks_rank wellFormed id other ⟨ty, linked, occurs⟩
  have bound := arena.rank_le_size id
  exact meaningWithin_eq wellFormed (by omega) (by omega)

/-- Meanings are determined by what they are at free and at linked variables. -/
theorem meaning_unique {arena : Arena} (wellFormed : arena.WellFormed) {values : VarId → Ty}
    (free : ∀ id, arena.target id = none → values id = .var id)
    (linked : ∀ id ty, arena.target id = some ty → values id = ty.subst values) :
    values = arena.meaning := by
  funext id
  induction id using wellFormed.induction with
  | step id inductionHypothesis =>
    cases link : arena.target id with
    | none => rw [free id link, meaning_of_free link]
    | some ty =>
      rw [linked id ty link, meaning_of_linked wellFormed link]
      exact Ty.subst_congr fun other occurs => inductionHypothesis other ⟨ty, link, occurs⟩

/-- Only free variables are left in a meaning. -/
theorem target_of_mem_meaning {arena : Arena} (wellFormed : arena.WellFormed) (id : VarId)
    {other : VarId} (occurs : other ∈ (arena.meaning id).vars) : arena.target other = none := by
  induction id using wellFormed.induction with
  | step id inductionHypothesis =>
    cases link : arena.target id with
    | none =>
      rw [meaning_of_free link, Ty.mem_vars_var] at occurs
      rw [occurs, link]
    | some ty =>
      rw [meaning_of_linked wellFormed link] at occurs
      obtain ⟨source, inside, occurs⟩ := Ty.mem_vars_subst.mp occurs
      exact inductionHypothesis source ⟨ty, link, inside⟩ occurs

/-- A variable is free exactly if it stands for itself. -/
theorem meaning_eq_var_iff {arena : Arena} (wellFormed : arena.WellFormed) {id : VarId} :
    arena.meaning id = .var id ↔ arena.target id = none := by
  refine ⟨fun itself => target_of_mem_meaning wellFormed id ?_, meaning_of_free⟩
  rw [itself, Ty.mem_vars_var]

theorem lt_size_of_mem_meaning {arena : Arena} (wellFormed : arena.WellFormed) {id other : VarId}
    (known : id < arena.size) (occurs : other ∈ (arena.meaning id).vars) :
    other < arena.size := by
  induction id using wellFormed.induction with
  | step id inductionHypothesis =>
    cases link : arena.target id with
    | none =>
      rw [meaning_of_free link, Ty.mem_vars_var] at occurs
      rw [occurs]
      exact known
    | some ty =>
      rw [meaning_of_linked wellFormed link] at occurs
      obtain ⟨source, inside, occurs⟩ := Ty.mem_vars_subst.mp occurs
      exact inductionHypothesis source ⟨ty, link, inside⟩
        (wellFormed.covers id ty link source inside) occurs

/-! ### Solved types -/

section Solved

variable {arena : Arena}

@[simp] theorem solved_var (id : VarId) : arena.solved (.var id) = arena.meaning id :=
  Ty.subst_var _ _

@[simp] theorem solved_prim (primitive : Primitive) :
    arena.solved (.prim primitive) = .prim primitive :=
  Ty.subst_prim _ _

@[simp] theorem solved_fn (params : List Ty) (result : Ty) :
    arena.solved (.fn params result) = .fn (params.map arena.solved) (arena.solved result) :=
  Ty.subst_fn _ _ _

@[simp] theorem solved_array (element : Ty) :
    arena.solved (.array element) = .array (arena.solved element) :=
  Ty.subst_array _ _

theorem subst_solved (values : VarId → Ty) (ty : Ty) :
    (arena.solved ty).subst values = ty.subst fun id => (arena.meaning id).subst values :=
  Ty.subst_subst _ _ _

theorem mem_vars_solved {ty : Ty} {id : VarId} :
    id ∈ (arena.solved ty).vars ↔ ∃ source ∈ ty.vars, id ∈ (arena.meaning source).vars :=
  Ty.mem_vars_subst

theorem target_of_mem_solved (wellFormed : arena.WellFormed) {ty : Ty} {id : VarId}
    (occurs : id ∈ (arena.solved ty).vars) : arena.target id = none := by
  obtain ⟨source, _, occurs⟩ := mem_vars_solved.mp occurs
  exact target_of_mem_meaning wellFormed source occurs

theorem Covers.solved (wellFormed : arena.WellFormed) {ty : Ty} (covers : arena.Covers ty) :
    arena.Covers (arena.solved ty) := by
  intro id occurs
  obtain ⟨source, inside, occurs⟩ := mem_vars_solved.mp occurs
  exact lt_size_of_mem_meaning wellFormed (covers source inside) occurs

/-- Solving a type twice changes nothing more. -/
theorem solved_solved (wellFormed : arena.WellFormed) (ty : Ty) :
    arena.solved (arena.solved ty) = arena.solved ty :=
  Ty.subst_eq_self fun _ occurs => meaning_of_free (target_of_mem_solved wellFormed occurs)

end Solved

/-! ### Solutions -/

/-- Values for the variables under which every link holds. -/
def Solves (values : VarId → Ty) (arena : Arena) : Prop :=
  ∀ id ty, arena.target id = some ty → values id = ty.subst values

/-- Every solution gives a variable the value of its meaning. -/
theorem Solves.eq_subst_meaning {arena : Arena} (wellFormed : arena.WellFormed)
    {values : VarId → Ty} (solves : Solves values arena) (id : VarId) :
    values id = (arena.meaning id).subst values := by
  induction id using wellFormed.induction with
  | step id inductionHypothesis =>
    cases link : arena.target id with
    | none => rw [meaning_of_free link, Ty.subst_var]
    | some ty =>
      rw [solves id ty link, meaning_of_linked wellFormed link, subst_solved]
      exact Ty.subst_congr fun other occurs => inductionHypothesis other ⟨ty, link, occurs⟩

theorem Solves.subst_solved {arena : Arena} (wellFormed : arena.WellFormed)
    {values : VarId → Ty} (solves : Solves values arena) (ty : Ty) :
    (arena.solved ty).subst values = ty.subst values := by
  rw [Arena.subst_solved]
  exact Ty.subst_congr fun id _ => (solves.eq_subst_meaning wellFormed id).symm

/-- Values that factor through the meanings solve the arena. -/
theorem solves_of_factors {arena : Arena} (wellFormed : arena.WellFormed) {values : VarId → Ty}
    (factors : ∀ id, values id = (arena.meaning id).subst values) : Solves values arena := by
  intro id ty linked
  rw [factors id, meaning_of_linked wellFormed linked, subst_solved]
  exact Ty.subst_congr fun other _ => (factors other).symm

/-! ### New variables -/

/-- The arena with one more variable. -/
def grown (arena : Arena) : Arena :=
  { arena with links := arena.links.push none }

theorem size_grown (arena : Arena) : arena.grown.size = arena.size + 1 :=
  Array.size_push _

/-- A variable that is yet to be created is as free as one that was just created. -/
theorem target_grown (arena : Arena) : arena.grown.target = arena.target := by
  funext id
  show (arena.links.push none)[id]?.join = arena.links[id]?.join
  rw [Array.getElem?_push]
  split
  · rename_i last
    rw [last, Array.getElem?_eq_none (le_refl _)]
    rfl
  · rfl

theorem points_grown (arena : Arena) : arena.grown.Points = arena.Points := by
  funext id other
  rw [Points, target_grown, Points]

theorem WellFormed.grown {arena : Arena} (wellFormed : arena.WellFormed) :
    arena.grown.WellFormed where
  covers id ty linked other occurs := by
    rw [target_grown] at linked
    rw [size_grown]
    exact Nat.lt_succ_of_lt (wellFormed.covers id ty linked other occurs)
  acyclic := by
    rw [points_grown]
    exact wellFormed.acyclic

theorem meaning_grown {arena : Arena} (wellFormed : arena.WellFormed) :
    arena.grown.meaning = arena.meaning := by
  refine (meaning_unique wellFormed.grown (fun id free => ?_) fun id ty linked => ?_).symm
  · rw [target_grown] at free
    exact meaning_of_free free
  · rw [target_grown] at linked
    exact meaning_of_linked wellFormed linked

/-! ### New links -/

theorem size_link (arena : Arena) (id : VarId) (ty : Ty) : (arena.link id ty).size = arena.size :=
  Array.size_setIfInBounds

theorem target_link_self {arena : Arena} {id : VarId} (ty : Ty) (known : id < arena.size) :
    (arena.link id ty).target id = some ty := by
  show (arena.links.setIfInBounds id (some ty))[id]?.join = some ty
  rw [Array.getElem?_setIfInBounds_self_of_lt known]
  rfl

theorem target_link_other (arena : Arena) {id other : VarId} (ty : Ty) (different : other ≠ id) :
    (arena.link id ty).target other = arena.target other := by
  show (arena.links.setIfInBounds id (some ty))[other]?.join = arena.links[other]?.join
  rw [Array.getElem?_setIfInBounds_ne different.symm]

/-- What is pointed at after a new link was pointed at before or stands in the new link. -/
theorem points_link {arena : Arena} {id : VarId} {ty : Ty} {source other : VarId}
    (points : (arena.link id ty).Points source other) :
    (source = id ∧ other ∈ ty.vars) ∨ (source ≠ id ∧ arena.Points source other) := by
  obtain ⟨found, linked, occurs⟩ := points
  by_cases same : source = id
  · subst same
    have inside : source < arena.size := by
      have bound := lt_size_of_target linked
      rwa [size_link] at bound
    rw [target_link_self ty inside] at linked
    cases linked
    exact .inl ⟨rfl, occurs⟩
  · rw [target_link_other arena ty same] at linked
    exact .inr ⟨same, found, linked, occurs⟩

theorem covers_link {arena : Arena} (wellFormed : arena.WellFormed) {id : VarId} {ty : Ty}
    (covers : arena.Covers ty) (source : VarId) (found : Ty)
    (linked : (arena.link id ty).target source = some found) :
    (arena.link id ty).Covers found := by
  intro other occurs
  rw [size_link]
  rcases points_link ⟨found, linked, occurs⟩ with ⟨_, inside⟩ | ⟨_, _, linked', inside⟩
  · exact covers other inside
  · exact wellFormed.covers _ _ linked' other inside

/-- Linking a variable to a type of the same meaning changes no meaning. -/
theorem meaning_link_of_same {arena : Arena} {id : VarId} {ty : Ty}
    (wellFormed : arena.WellFormed) (wellFormed' : (arena.link id ty).WellFormed)
    (known : id < arena.size) (same : arena.solved ty = arena.meaning id) :
    (arena.link id ty).meaning = arena.meaning := by
  refine (meaning_unique wellFormed' (fun source free => ?_) fun source found linked => ?_).symm
  · by_cases atId : source = id
    · rw [atId, target_link_self ty known] at free
      cases free
    · rw [target_link_other arena ty atId] at free
      exact meaning_of_free free
  · by_cases atId : source = id
    · rw [atId, target_link_self ty known] at linked
      cases linked
      rw [atId, ← same]
      rfl
    · rw [target_link_other arena ty atId] at linked
      exact meaning_of_linked wellFormed linked

/-! ### Binding a free variable -/

/-- The values that give one variable a type and leave the others alone. -/
def single (id : VarId) (ty : Ty) : VarId → Ty :=
  fun other => if other = id then ty else .var other

theorem single_self (id : VarId) (ty : Ty) : single id ty id = ty :=
  if_pos rfl

theorem single_other {id other : VarId} (ty : Ty) (different : other ≠ id) :
    single id ty other = .var other :=
  if_neg different

theorem subst_single_of_not_mem {id : VarId} (ty : Ty) {whole : Ty} (absent : id ∉ whole.vars) :
    whole.subst (single id ty) = whole :=
  Ty.subst_eq_self fun _ occurs => single_other ty fun same => absent (same ▸ occurs)

section Bind

variable {arena : Arena} {id : VarId} {ty : Ty}

/-- A ranking in which all that leads to a variable stands above all that does not. -/
noncomputable def rankAbove (arena : Arena) (id source : VarId) : Nat :=
  arena.rank source + if id ∈ (arena.meaning source).vars then arena.size + 1 else 0

theorem ranks_bind (wellFormed : arena.WellFormed) (free : arena.target id = none)
    (absent : id ∉ (arena.solved ty).vars) : Ranks (arena.rankAbove id) (arena.link id ty) := by
  intro source other points
  rw [rankAbove, rankAbove]
  rcases points_link points with ⟨same, occurs⟩ | ⟨_, found, linked, occurs⟩
  · have below := arena.rank_le_size other
    have outside : id ∉ (arena.meaning other).vars :=
      fun inside => absent (mem_vars_solved.mpr ⟨other, occurs, inside⟩)
    have inside : id ∈ (arena.meaning source).vars := by
      rw [same, meaning_of_free free, Ty.mem_vars_var]
    rw [if_neg outside, if_pos inside]
    omega
  · have falls := ranks_rank wellFormed source other ⟨found, linked, occurs⟩
    by_cases inside : id ∈ (arena.meaning other).vars
    · have upward : id ∈ (arena.meaning source).vars := by
        rw [meaning_of_linked wellFormed linked]
        exact mem_vars_solved.mpr ⟨other, occurs, inside⟩
      rw [if_pos inside, if_pos upward]
      omega
    · rw [if_neg inside]
      omega

/-- A free variable may be linked to any type in whose meaning it does not occur. -/
theorem WellFormed.bind (wellFormed : arena.WellFormed) (free : arena.target id = none)
    (covers : arena.Covers ty) (absent : id ∉ (arena.solved ty).vars) :
    (arena.link id ty).WellFormed :=
  ⟨covers_link wellFormed covers, (ranks_bind wellFormed free absent).acyclic⟩

/-- Binding a variable replaces it in every meaning. -/
theorem meaning_bind (wellFormed : arena.WellFormed) (known : id < arena.size)
    (free : arena.target id = none) (covers : arena.Covers ty)
    (absent : id ∉ (arena.solved ty).vars) (source : VarId) :
    (arena.link id ty).meaning source =
      (arena.meaning source).subst (single id (arena.solved ty)) := by
  have replaced : (fun source => (arena.meaning source).subst (single id (arena.solved ty))) =
      (arena.link id ty).meaning := by
    refine meaning_unique (wellFormed.bind free covers absent) (fun source unlinked => ?_)
      fun source found linked => ?_
    · by_cases same : source = id
      · rw [same, target_link_self ty known] at unlinked
        cases unlinked
      · rw [target_link_other arena ty same] at unlinked
        rw [meaning_of_free unlinked, Ty.subst_var, single_other _ same]
    · by_cases same : source = id
      · rw [same, target_link_self ty known] at linked
        cases linked
        rw [same, meaning_of_free free, Ty.subst_var, single_self, ← Ty.subst_subst]
        exact (subst_single_of_not_mem _ absent).symm
      · rw [target_link_other arena ty same] at linked
        rw [meaning_of_linked wellFormed linked, subst_solved]
  exact (congrFun replaced source).symm

theorem solved_bind (wellFormed : arena.WellFormed) (known : id < arena.size)
    (free : arena.target id = none) (covers : arena.Covers ty)
    (absent : id ∉ (arena.solved ty).vars) (whole : Ty) :
    (arena.link id ty).solved whole =
      (arena.solved whole).subst (single id (arena.solved ty)) := by
  rw [subst_solved]
  exact Ty.subst_congr fun source _ => meaning_bind wellFormed known free covers absent source

/-- The solutions that are left are those that make the variable equal to the type. -/
theorem solves_bind (known : id < arena.size) (free : arena.target id = none)
    {values : VarId → Ty} :
    Solves values (arena.link id ty) ↔ Solves values arena ∧ values id = ty.subst values := by
  constructor
  · intro solves
    refine ⟨fun source found linked => ?_, solves id ty (target_link_self ty known)⟩
    have other : source ≠ id := by
      rintro rfl
      exact absurd (free.symm.trans linked) (Option.some_ne_none _).symm
    exact solves source found ((target_link_other arena ty other).trans linked)
  · rintro ⟨solves, equal⟩ source found linked
    by_cases same : source = id
    · subst same
      rw [target_link_self ty known] at linked
      cases linked
      exact equal
    · rw [target_link_other arena ty same] at linked
      exact solves source found linked

end Bind

/-! ### Ends of chains -/

/-- Where the chain of links from a type ends: at a free variable or at a type that is not a
variable. -/
inductive Ends (arena : Arena) : Ty → Ty → Prop where
  | free {id : VarId} (unlinked : arena.target id = none) : Ends arena (.var id) (.var id)
  | next {id : VarId} {ty head : Ty} (linked : arena.target id = some ty)
    (rest : Ends arena ty head) : Ends arena (.var id) head
  | proper {ty : Ty} (proper : ∀ id, ty ≠ .var id) : Ends arena ty ty

namespace Ends

variable {arena : Arena} {id : VarId} {ty head : Ty}

theorem unique {other : Ty} (ends : arena.Ends ty head) (ends' : arena.Ends ty other) :
    head = other := by
  induction ends with
  | free unlinked =>
    cases ends' with
    | free _ => rfl
    | next linked _ => exact absurd (unlinked.symm.trans linked) (Option.some_ne_none _).symm
    | proper proper => rfl
  | next linked _ inductionHypothesis =>
    cases ends' with
    | free unlinked => exact absurd (unlinked.symm.trans linked) (Option.some_ne_none _).symm
    | next linked' rest =>
      cases linked.symm.trans linked'
      exact inductionHypothesis rest
    | proper proper => exact absurd rfl (proper _)
  | proper proper =>
    cases ends' with
    | free _ => rfl
    | next _ _ => exact absurd rfl (proper _)
    | proper _ => rfl

theorem target_root (ends : arena.Ends ty head) (root : VarId) (same : head = .var root) :
    arena.target root = none := by
  induction ends with
  | free unlinked =>
    cases same
    exact unlinked
  | next _ _ inductionHypothesis => exact inductionHypothesis same
  | proper proper => exact absurd same (proper root)

theorem solved (wellFormed : arena.WellFormed) (ends : arena.Ends ty head) :
    arena.solved head = arena.solved ty := by
  induction ends with
  | free _ => rfl
  | next linked _ inductionHypothesis =>
    rw [inductionHypothesis, solved_var, meaning_of_linked wellFormed linked]
  | proper _ => rfl

theorem exists_head (wellFormed : arena.WellFormed) (id : VarId) :
    ∃ head, arena.Ends (.var id) head := by
  induction id using wellFormed.induction with
  | step id inductionHypothesis =>
    cases linked : arena.target id with
    | none => exact ⟨_, .free linked⟩
    | some ty =>
      cases ty with
      | var next =>
        obtain ⟨head, rest⟩ :=
          inductionHypothesis next ⟨_, linked, Ty.mem_vars_var.mpr rfl⟩
        exact ⟨head, .next linked rest⟩
      | prim _ | fn _ _ | array _ => exact ⟨_, .next linked (.proper (by simp))⟩

theorem grown (ends : arena.Ends ty head) : arena.grown.Ends ty head := by
  induction ends with
  | free unlinked => exact .free (by rw [target_grown, unlinked])
  | next linked _ inductionHypothesis =>
    exact .next (by rw [target_grown, linked]) inductionHypothesis
  | proper proper => exact .proper proper

/-- An end is where its own chain ends. -/
theorem self (ends : arena.Ends ty head) : arena.Ends head head := by
  induction ends with
  | free unlinked => exact .free unlinked
  | next _ _ inductionHypothesis => exact inductionHypothesis
  | proper proper => exact .proper proper

/-- An end stays one when another variable is linked. -/
theorem link_self {other : Ty} (self : arena.Ends ty ty) (different : ty ≠ .var id) :
    (arena.link id other).Ends ty ty := by
  cases ty with
  | var root =>
    refine .free ?_
    rw [target_link_other arena other fun same => different (congrArg Ty.var same)]
    exact self.target_root root rfl
  | prim _ | fn _ _ | array _ => exact .proper (by simp)

/-- Linking a variable directly to the end of its chain moves no end. -/
theorem link_end {source found : Ty} (known : id < arena.size) (ends : arena.Ends (.var id) ty)
    (different : ty ≠ .var id) (ends' : arena.Ends source found) :
    (arena.link id ty).Ends source found := by
  induction ends' with
  | @free source unlinked =>
    have apart : source ≠ id := by
      rintro rfl
      exact different (ends.unique (.free unlinked))
    refine .free ?_
    rw [target_link_other arena ty apart]
    exact unlinked
  | @next source _ _ linked rest inductionHypothesis =>
    by_cases same : source = id
    · subst same
      rw [← ends.unique (.next linked rest)]
      exact .next (target_link_self ty known) (ends.self.link_self different)
    · refine .next ?_ inductionHypothesis
      rw [target_link_other arena ty same]
      exact linked
  | proper proper => exact .proper proper

/-- Binding a free variable moves to another end what ended at the variable. -/
theorem bind {source found : Ty} (known : id < arena.size) (free : arena.target id = none)
    (self : arena.Ends ty ty) (different : ty ≠ .var id) (ends : arena.Ends source found) :
    (arena.link id ty).Ends source (if found = .var id then ty else found) := by
  induction ends with
  | @free source unlinked =>
    by_cases same : source = id
    · subst same
      rw [if_pos rfl]
      exact .next (target_link_self ty known) (self.link_self different)
    · rw [if_neg fun equal => same (Ty.var.inj equal)]
      refine .free ?_
      rw [target_link_other arena ty same]
      exact unlinked
  | @next source _ _ linked _ inductionHypothesis =>
    have apart : source ≠ id := by
      rintro rfl
      exact absurd (free.symm.trans linked) (Option.some_ne_none _).symm
    refine .next ?_ inductionHypothesis
    rw [target_link_other arena ty apart]
    exact linked
  | proper proper =>
    rw [if_neg (proper id)]
    exact .proper proper

end Ends

end ArrowCheck.Arena
