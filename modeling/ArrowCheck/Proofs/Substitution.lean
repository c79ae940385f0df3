/-
This file gives values to the variables of a type, all at once, and says which
types stand inside others. A substitution is a function on variables, so two
substitutions one after the other are again one. A type that stands inside
another still does so after a substitution, and no type stands inside itself:
that is why a variable cannot be given a type in which it occurs.
-/

import Mathlib.Data.List.Basic
import ArrowCheck.Ty

namespace ArrowCheck.Ty

mutual

/-- A type with every variable replaced by the value that it is given. -/
def subst (values : VarId → Ty) : Ty → Ty
  | .var id => values id
  | .prim primitive => .prim primitive
  | .fn params result => .fn (substAll values params) (subst values result)
  | .array element => .array (subst values element)

/-- A list of types with every variable replaced by the value that it is given. -/
def substAll (values : VarId → Ty) : List Ty → List Ty
  | [] => []
  | head :: tail => subst values head :: substAll values tail

end

/-- Induction on types, with an assumption for every parameter of a function. -/
@[induction_eliminator]
theorem inductionOn {motive : Ty → Prop} (var : ∀ id, motive (.var id))
    (prim : ∀ primitive, motive (.prim primitive))
    (fn : ∀ params result, (∀ param ∈ params, motive param) → motive result →
      motive (.fn params result))
    (array : ∀ element, motive element → motive (.array element)) (ty : Ty) : motive ty :=
  @Ty.rec motive (fun params => ∀ param ∈ params, motive param) var prim fn array
    (fun _ member => absurd member List.not_mem_nil)
    (fun _ _ headHolds tailHolds _ member => (List.mem_cons.mp member).elim
      (fun same => same ▸ headHolds) (tailHolds _)) ty

/-! ### Substitution -/

theorem substAll_eq_map (values : VarId → Ty) (types : List Ty) :
    substAll values types = types.map (subst values) := by
  induction types with
  | nil => rfl
  | cons head tail inductionHypothesis =>
    rw [List.map_cons, ← inductionHypothesis]
    rfl

theorem varsAll_eq_flatMap (types : List Ty) : varsAll types = types.flatMap vars := by
  induction types with
  | nil => rfl
  | cons head tail inductionHypothesis =>
    rw [List.flatMap_cons, ← inductionHypothesis]
    rfl

@[simp] theorem subst_var (values : VarId → Ty) (id : VarId) :
    (Ty.var id).subst values = values id :=
  rfl

@[simp] theorem subst_prim (values : VarId → Ty) (primitive : Primitive) :
    (Ty.prim primitive).subst values = .prim primitive :=
  rfl

@[simp] theorem subst_fn (values : VarId → Ty) (params : List Ty) (result : Ty) :
    (Ty.fn params result).subst values =
      .fn (params.map (subst values)) (result.subst values) := by
  rw [← substAll_eq_map]
  rfl

@[simp] theorem subst_array (values : VarId → Ty) (element : Ty) :
    (Ty.array element).subst values = .array (element.subst values) :=
  rfl

@[simp] theorem mem_vars_var {id other : VarId} : other ∈ (Ty.var id).vars ↔ other = id :=
  List.mem_singleton

@[simp] theorem not_mem_vars_prim {primitive : Primitive} {id : VarId} :
    id ∉ (Ty.prim primitive).vars :=
  List.not_mem_nil

theorem vars_fn (params : List Ty) (result : Ty) :
    (Ty.fn params result).vars = params.flatMap vars ++ result.vars := by
  rw [← varsAll_eq_flatMap]
  rfl

@[simp] theorem mem_vars_fn {params : List Ty} {result : Ty} {id : VarId} :
    id ∈ (Ty.fn params result).vars ↔ (∃ param ∈ params, id ∈ param.vars) ∨ id ∈ result.vars := by
  rw [vars_fn, List.mem_append, List.mem_flatMap]

@[simp] theorem mem_vars_array {element : Ty} {id : VarId} :
    id ∈ (Ty.array element).vars ↔ id ∈ element.vars :=
  Iff.rfl

theorem forall_mem_vars_fn {params : List Ty} {result : Ty} {holds : VarId → Prop} :
    (∀ id ∈ (Ty.fn params result).vars, holds id) ↔
      (∀ param ∈ params, ∀ id ∈ param.vars, holds id) ∧ ∀ id ∈ result.vars, holds id := by
  rw [vars_fn, List.forall_mem_append, List.forall_mem_flatMap]

theorem exists_mem_vars_fn {params : List Ty} {result : Ty} {holds : VarId → Prop} :
    (∃ id ∈ (Ty.fn params result).vars, holds id) ↔
      (∃ param ∈ params, ∃ id ∈ param.vars, holds id) ∨ ∃ id ∈ result.vars, holds id := by
  simp only [mem_vars_fn]
  constructor
  · intro ⟨id, occurs, holding⟩
    rcases occurs with ⟨param, member, occurs⟩ | occurs
    · exact .inl ⟨param, member, id, occurs, holding⟩
    · exact .inr ⟨id, occurs, holding⟩
  · rintro (⟨param, member, id, occurs, holding⟩ | ⟨id, occurs, holding⟩)
    · exact ⟨id, .inl ⟨param, member, occurs⟩, holding⟩
    · exact ⟨id, .inr occurs, holding⟩

/-- Only the values of the variables of a type matter. -/
theorem subst_congr {first second : VarId → Ty} {ty : Ty}
    (agree : ∀ id ∈ ty.vars, first id = second id) : ty.subst first = ty.subst second := by
  induction ty with
  | var id => simpa using agree id (by simp)
  | prim primitive => simp
  | fn params result paramsAgree resultAgree =>
    have sameParams : params.map (subst first) = params.map (subst second) :=
      List.map_congr_left fun param member => paramsAgree param member fun id occurs =>
        agree id (mem_vars_fn.mpr (.inl ⟨param, member, occurs⟩))
    rw [subst_fn, subst_fn, sameParams,
      resultAgree fun id occurs => agree id (mem_vars_fn.mpr (.inr occurs))]
  | array element elementAgrees =>
    rw [subst_array, subst_array,
      elementAgrees fun id occurs => agree id (mem_vars_array.mpr occurs)]

/-- Two substitutions one after the other are one. -/
theorem subst_subst (first second : VarId → Ty) (ty : Ty) :
    (ty.subst first).subst second = ty.subst fun id => (first id).subst second := by
  induction ty with
  | var id => simp
  | prim primitive => simp
  | fn params result paramsHold resultHolds =>
    simp only [subst_fn, List.map_map, resultHolds, fn.injEq, and_true]
    exact List.map_congr_left fun param member => paramsHold param member
  | array element elementHolds => simp only [subst_array, elementHolds]

/-- Variables that are given themselves stay. -/
theorem subst_eq_self {values : VarId → Ty} {ty : Ty}
    (fixed : ∀ id ∈ ty.vars, values id = .var id) : ty.subst values = ty := by
  induction ty with
  | var id => simpa using fixed id (by simp)
  | prim primitive => simp
  | fn params result paramsHold resultHolds =>
    have sameParams : params.map (subst values) = params.map id :=
      List.map_congr_left fun param member => paramsHold param member fun id occurs =>
        fixed id (mem_vars_fn.mpr (.inl ⟨param, member, occurs⟩))
    rw [subst_fn, sameParams, List.map_id,
      resultHolds fun id occurs => fixed id (mem_vars_fn.mpr (.inr occurs))]
  | array element elementHolds =>
    rw [subst_array, elementHolds fun id occurs => fixed id (mem_vars_array.mpr occurs)]

/-- The variables of a substituted type are those of the values of its variables, in order. -/
theorem vars_subst (values : VarId → Ty) (ty : Ty) :
    (ty.subst values).vars = ty.vars.flatMap fun id => (values id).vars := by
  induction ty with
  | var id => exact (List.flatMap_singleton _ _).symm
  | prim primitive => rfl
  | fn params result paramsHold resultHolds =>
    rw [subst_fn, vars_fn, vars_fn, List.flatMap_append, resultHolds, List.flatMap_map,
      List.flatMap_assoc]
    exact congrArg (· ++ _) (List.flatMap_congr paramsHold)
  | array element elementHolds => exact elementHolds

theorem mem_vars_subst {values : VarId → Ty} {ty : Ty} {id : VarId} :
    id ∈ (ty.subst values).vars ↔ ∃ source ∈ ty.vars, id ∈ (values source).vars := by
  rw [vars_subst, List.mem_flatMap]

/-! ### Types inside types -/

/-- One type stands inside another as a proper part. -/
inductive Inside : Ty → Ty → Prop where
  | param {param : Ty} {params : List Ty} {result : Ty} (member : param ∈ params) :
    Inside param (.fn params result)
  | result {params : List Ty} {result : Ty} : Inside result (.fn params result)
  | element {element : Ty} : Inside element (.array element)
  | trans {inner middle outer : Ty} (first : Inside inner middle) (second : Inside middle outer) :
    Inside inner outer

namespace Inside

theorem sizeOf_lt {inner outer : Ty} (inside : Inside inner outer) :
    sizeOf inner < sizeOf outer := by
  induction inside with
  | param member =>
    have smaller := List.sizeOf_lt_of_mem member
    rw [fn.sizeOf_spec]
    omega
  | result => rw [fn.sizeOf_spec]; omega
  | element => rw [array.sizeOf_spec]; omega
  | trans _ _ first second => exact Nat.lt_trans first second

theorem ne {inner outer : Ty} (inside : Inside inner outer) : inner ≠ outer := by
  intro same
  have smaller := inside.sizeOf_lt
  rw [same] at smaller
  exact Nat.lt_irrefl _ smaller

theorem subst (values : VarId → Ty) {inner outer : Ty} (inside : Inside inner outer) :
    Inside (inner.subst values) (outer.subst values) := by
  induction inside with
  | param member => rw [subst_fn]; exact .param (List.mem_map_of_mem member)
  | result => rw [subst_fn]; exact .result
  | element => rw [subst_array]; exact .element
  | trans _ _ first second => exact .trans first second

/-- The variables of a part are variables of the whole. -/
theorem mem_vars {inner outer : Ty} (inside : Inside inner outer) {id : VarId}
    (occurs : id ∈ inner.vars) : id ∈ outer.vars := by
  induction inside with
  | param member => exact mem_vars_fn.mpr (.inl ⟨_, member, occurs⟩)
  | result => exact mem_vars_fn.mpr (.inr occurs)
  | element => exact mem_vars_array.mpr occurs
  | trans _ _ first second => exact second (first occurs)

end Inside

/-- A variable of a type is the type itself or stands inside it. -/
theorem inside_of_mem_vars {id : VarId} {ty : Ty} (occurs : id ∈ ty.vars) :
    ty = .var id ∨ Inside (.var id) ty := by
  induction ty with
  | var other => exact .inl (congrArg Ty.var (mem_vars_var.mp occurs).symm)
  | prim primitive => exact absurd occurs not_mem_vars_prim
  | fn params result paramsHold resultHolds =>
    refine .inr ?_
    rcases mem_vars_fn.mp occurs with ⟨param, member, inParam⟩ | inResult
    · rcases paramsHold param member inParam with rfl | inside
      · exact .param member
      · exact .trans inside (.param member)
    · rcases resultHolds inResult with rfl | inside
      · exact .result
      · exact .trans inside .result
  | array element elementHolds =>
    refine .inr ?_
    rcases elementHolds (mem_vars_array.mp occurs) with rfl | inside
    · exact .element
    · exact .trans inside .element

/-- A variable has no value that equals a type around it. -/
theorem subst_ne_of_occurs {id : VarId} {ty : Ty} (occurs : id ∈ ty.vars) (proper : ty ≠ .var id)
    (values : VarId → Ty) : values id ≠ ty.subst values := by
  rcases inside_of_mem_vars occurs with same | inside
  · exact absurd same proper
  · have inside' := inside.subst values
    rw [subst_var] at inside'
    exact inside'.ne

end ArrowCheck.Ty
