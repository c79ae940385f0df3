/-
This file compares an arena with the arenas that it can become. Variables are
created and free variables are bound, so meanings become more specific and never
less. Some free variables may be settled: they are neither bound nor taken into
the meaning of a type that was apart from them. What an operation leaves settled
is what later types cannot depend on.
-/

import Mathlib.Data.Set.Basic
import ArrowCheck.Proofs.Walks

namespace ArrowCheck.Arena

/-- The variables of a set exist and are free. -/
def Settles (arena : Arena) (settled : Set VarId) : Prop :=
  ∀ id ∈ settled, id < arena.size ∧ arena.meaning id = .var id

/-- The meaning of a type has no variable of a set. -/
def Avoids (arena : Arena) (settled : Set VarId) (ty : Ty) : Prop :=
  ∀ id ∈ (arena.solved ty).vars, id ∉ settled

/-- Types mention only variables that exist. -/
def CoversEach (arena : Arena) (tys : List Ty) : Prop :=
  ∀ ty ∈ tys, arena.Covers ty

/-- A type mentions only variables that exist, and its meaning has none of a set. -/
structure Apart (arena : Arena) (settled : Set VarId) (ty : Ty) : Prop where
  covers : arena.Covers ty
  avoids : arena.Avoids settled ty

/-- The meanings of an arena are made more specific, by way of variables that are not settled, and
no variable is made free again. -/
structure Extends (settled : Set VarId) (before after : Arena) : Prop where
  wellFormed : after.WellFormed
  size_le : before.size ≤ after.size
  unlinked : ∀ id, after.target id = none → before.target id = none
  refines : ∀ id, after.meaning id = after.solved (before.meaning id)
  free : ∀ id ∈ settled, after.meaning id = .var id
  apart : ∀ ty, before.Covers ty → before.Avoids settled ty → after.Avoids settled ty
  marks : after.marks = before.marks

theorem coversEach_nil (arena : Arena) : arena.CoversEach [] :=
  List.forall_mem_nil _

theorem coversEach_singleton {arena : Arena} {ty : Ty} :
    arena.CoversEach [ty] ↔ arena.Covers ty :=
  List.forall_mem_singleton

theorem coversEach_append {arena : Arena} {first second : List Ty} :
    arena.CoversEach (first ++ second) ↔ arena.CoversEach first ∧ arena.CoversEach second :=
  List.forall_mem_append

/-! ### Avoiding variables -/

section Avoids

variable {arena : Arena} {settled : Set VarId}

theorem avoids_var {id : VarId} :
    arena.Avoids settled (.var id) ↔ ∀ other ∈ (arena.meaning id).vars, other ∉ settled := by
  rw [Avoids, solved_var]

@[simp] theorem avoids_prim (primitive : Primitive) : arena.Avoids settled (.prim primitive) := by
  intro id occurs
  rw [solved_prim] at occurs
  exact absurd occurs Ty.not_mem_vars_prim

@[simp] theorem avoids_array {element : Ty} :
    arena.Avoids settled (.array element) ↔ arena.Avoids settled element := by
  simp only [Avoids, solved_array, Ty.mem_vars_array]

theorem avoids_fn {params : List Ty} {result : Ty} :
    arena.Avoids settled (.fn params result) ↔
      (∀ param ∈ params, arena.Avoids settled param) ∧ arena.Avoids settled result := by
  rw [Avoids, solved_fn, Ty.forall_mem_vars_fn, List.forall_mem_map]
  rfl

theorem apart_empty {ty : Ty} (covers : arena.Covers ty) : arena.Apart ∅ ty :=
  ⟨covers, fun id _ => Set.notMem_empty id⟩

theorem apart_prim (primitive : Primitive) : arena.Apart settled (.prim primitive) :=
  ⟨covers_prim primitive, avoids_prim primitive⟩

theorem apart_array {element : Ty} :
    arena.Apart settled (.array element) ↔ arena.Apart settled element := by
  constructor
  · intro apart
    exact ⟨covers_array.mp apart.covers, avoids_array.mp apart.avoids⟩
  · intro apart
    exact ⟨covers_array.mpr apart.covers, avoids_array.mpr apart.avoids⟩

theorem apart_fn {params : List Ty} {result : Ty} :
    arena.Apart settled (.fn params result) ↔
      (∀ param ∈ params, arena.Apart settled param) ∧ arena.Apart settled result := by
  constructor
  · intro apart
    have covers := covers_fn.mp apart.covers
    have avoids := avoids_fn.mp apart.avoids
    exact ⟨fun param member => ⟨covers.1 param member, avoids.1 param member⟩,
      covers.2, avoids.2⟩
  · intro ⟨params, result⟩
    exact ⟨covers_fn.mpr ⟨fun param member => (params param member).covers, result.covers⟩,
      avoids_fn.mpr ⟨fun param member => (params param member).avoids, result.avoids⟩⟩

theorem Avoids.mono {smaller : Set VarId} {ty : Ty} (avoids : arena.Avoids settled ty)
    (subset : smaller ⊆ settled) : arena.Avoids smaller ty :=
  fun id occurs member => avoids id occurs (subset member)

end Avoids

/-! ### Extensions -/

namespace Extends

variable {settled : Set VarId} {before middle after : Arena}

theorem solved_solved (extends_ : Extends settled before after) (ty : Ty) :
    after.solved (before.solved ty) = after.solved ty := by
  rw [Arena.solved, subst_solved]
  exact Ty.subst_congr fun id _ => (extends_.refines id).symm

/-- Types of one meaning have one meaning ever after. -/
theorem solved_congr (extends_ : Extends settled before after) {first second : Ty}
    (same : before.solved first = before.solved second) :
    after.solved first = after.solved second := by
  rw [← extends_.solved_solved first, same, extends_.solved_solved second]

theorem covers (extends_ : Extends settled before after) {ty : Ty} (covers : before.Covers ty) :
    after.Covers ty :=
  fun id occurs => (covers id occurs).trans_le extends_.size_le

theorem keeps (extends_ : Extends settled before after) {ty : Ty}
    (apart : before.Apart settled ty) : after.Apart settled ty :=
  ⟨extends_.covers apart.covers, extends_.apart ty apart.covers apart.avoids⟩

theorem coversEach (extends_ : Extends settled before after) {tys : List Ty}
    (covers : before.CoversEach tys) : after.CoversEach tys :=
  fun ty member => extends_.covers (covers ty member)

theorem settles (extends_ : Extends settled before after) (settles : before.Settles settled) :
    after.Settles settled :=
  fun id member => ⟨(settles id member).1.trans_le extends_.size_le, extends_.free id member⟩

theorem trans (first : Extends settled before middle) (second : Extends settled middle after) :
    Extends settled before after where
  wellFormed := second.wellFormed
  size_le := first.size_le.trans second.size_le
  unlinked id free := first.unlinked id (second.unlinked id free)
  refines id := by
    rw [second.refines id, first.refines id, second.solved_solved]
  free := second.free
  apart ty covers avoids := second.apart ty (first.covers covers) (first.apart ty covers avoids)
  marks := second.marks.trans first.marks

/-- What is true of many settled variables is true of fewer. -/
theorem anti (extends_ : Extends settled before after) (wellFormed : before.WellFormed)
    {smaller : Set VarId} (subset : smaller ⊆ settled) : Extends smaller before after where
  wellFormed := extends_.wellFormed
  size_le := extends_.size_le
  unlinked := extends_.unlinked
  refines := extends_.refines
  free id member := extends_.free id (subset member)
  apart ty covers avoids id occurs := by
    rw [← extends_.solved_solved] at occurs
    obtain ⟨source, inside, occurs⟩ := mem_vars_solved.mp occurs
    -- A settled variable stays as it is, and any other stays apart from all settled ones.
    by_cases member : source ∈ settled
    · rw [extends_.free source member, Ty.mem_vars_var] at occurs
      rw [occurs]
      exact avoids source inside
    · have known := covers.solved wellFormed source inside
      have apart : after.Avoids settled (.var source) := by
        refine extends_.apart (.var source) (covers_var.mpr known) (avoids_var.mpr ?_)
        intro other within
        rw [meaning_of_free (target_of_mem_solved wellFormed inside), Ty.mem_vars_var] at within
        rw [within]
        exact member
      exact fun kept => avoids_var.mp apart id occurs (subset kept)
  marks := extends_.marks

end Extends

/-- Keeping all meanings settles whatever is free. -/
theorem Preserves.extends {settled : Set VarId} {before after : Arena}
    (preserves : Preserves before after) (wellFormed : before.WellFormed)
    (settles : before.Settles settled) : Extends settled before after where
  wellFormed := preserves.wellFormed
  size_le := preserves.size_le
  unlinked _ := (preserves.target_eq_none wellFormed).mp
  refines id := by
    rw [preserves.solved, preserves.meaning, ← solved_var, solved_solved wellFormed]
  free id member := by
    rw [preserves.meaning]
    exact (settles id member).2
  apart ty _ avoids := by
    rw [Avoids, preserves.solved]
    exact avoids
  marks := preserves.marks

theorem Extends.refl {settled : Set VarId} {arena : Arena} (wellFormed : arena.WellFormed)
    (settles : arena.Settles settled) : Extends settled arena arena :=
  (Preserves.refl wellFormed).extends wellFormed settles

/-- Binding a variable that is not settled to a type apart from the settled variables. -/
theorem extends_bind {settled : Set VarId} {arena : Arena} (wellFormed : arena.WellFormed)
    {id : VarId} {ty : Ty} (known : id < arena.size) (free : arena.target id = none)
    (covers : arena.Covers ty) (absent : id ∉ (arena.solved ty).vars)
    (settles : arena.Settles settled) (unsettled : id ∉ settled)
    (avoids : arena.Avoids settled ty) : Extends settled arena (arena.link id ty) := by
  have meaning := meaning_bind wellFormed known free covers absent
  have solved := solved_bind wellFormed known free covers absent
  refine ⟨wellFormed.bind free covers absent, (size_link _ _ _).ge, fun source unlinked => ?_,
    fun source => ?_, fun source member => ?_, fun other _ apart => ?_, rfl⟩
  · have different : source ≠ id := by
      rintro rfl
      rw [target_link_self ty known] at unlinked
      exact Option.some_ne_none ty unlinked
    rwa [target_link_other arena ty different] at unlinked
  · rw [meaning, solved, ← solved_var, solved_solved wellFormed]
  · have different : source ≠ id := fun same => unsettled (same ▸ member)
    rw [meaning, (settles source member).2, Ty.subst_var, single_other _ different]
  · intro source occurs
    rw [solved] at occurs
    obtain ⟨inner, inside, occurs⟩ := Ty.mem_vars_subst.mp occurs
    by_cases same : inner = id
    · rw [same, single_self] at occurs
      exact avoids source occurs
    · rw [single_other _ same, Ty.mem_vars_var] at occurs
      rw [occurs]
      exact apart inner inside

/-! ### Variables that types do not reach -/

/-- The free variables that do not occur in the meanings of some types. -/
def unreached (arena : Arena) (roots : List Ty) : Set VarId :=
  { id | id < arena.size ∧ arena.meaning id = .var id ∧ ∀ ty ∈ roots, id ∉ (arena.solved ty).vars }

theorem settles_unreached (arena : Arena) (roots : List Ty) :
    arena.Settles (arena.unreached roots) :=
  fun _ ⟨known, free, _⟩ => ⟨known, free⟩

theorem avoids_unreached {arena : Arena} {roots : List Ty} {ty : Ty} (member : ty ∈ roots) :
    arena.Avoids (arena.unreached roots) ty :=
  fun _ occurs ⟨_, _, absent⟩ => absent ty member occurs

/-- Types keep their meaning if all free variables are left alone. -/
theorem Extends.solved_eq {before after : Arena}
    (extends_ : before.Extends (before.unreached []) after) (wellFormed : before.WellFormed)
    {ty : Ty} (covers : before.Covers ty) : after.solved ty = before.solved ty := by
  rw [← extends_.solved_solved]
  refine Ty.subst_eq_self fun id occurs => extends_.free id ⟨?_, ?_, List.forall_mem_nil _⟩
  · exact covers.solved wellFormed id occurs
  · exact meaning_of_free (target_of_mem_solved wellFormed occurs)

/-! ### Solutions of extensions -/

theorem Preserves.solves_iff {before after : Arena} (preserves : Preserves before after)
    (wellFormed : before.WellFormed) {values : VarId → Ty} :
    Solves values after ↔ Solves values before := by
  constructor
  · intro solves
    refine solves_of_factors wellFormed fun id => ?_
    rw [← preserves.meaning]
    exact solves.eq_subst_meaning preserves.wellFormed id
  · intro solves
    refine solves_of_factors preserves.wellFormed fun id => ?_
    rw [preserves.meaning]
    exact solves.eq_subst_meaning wellFormed id

/-- The meanings of a more specific arena solve the arena that it came from. -/
theorem Extends.solves_meaning {settled : Set VarId} {before after : Arena}
    (extends_ : Extends settled before after) (wellFormed : before.WellFormed) :
    Solves after.meaning before :=
  solves_of_factors wellFormed extends_.refines

end ArrowCheck.Arena
