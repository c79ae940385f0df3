/-
This file relates the two statements of the type rules. Where types are found, it is
decided at each use of a name which variables of its type may be replaced: those in
no type of a parameter around the use. Where types are chosen freely, a constant is
generalised at its declaration. There are more parameters around a use than around
the declaration, so the scheme of a constant has every instance that a use may have.

So a tree with types in all slots that obey the first rules has its type by the
second ones too. These have no rule for a return outside of a function.
-/

import ArrowCheck.Proofs.Schemes

namespace ArrowCheck

/-! ### Contexts and assumptions -/

/-- The scheme of every name has the instances that the name has in a context. -/
structure Assumptions.Subsumes (assumptions : Assumptions) (context : Context) : Prop where
  params : assumptions.params = context.monomorphic
  names {name : String} {bound : Ty} (found : context.bindings.lookup name = some bound) :
    ∃ scheme, assumptions.schemes.lookup name = some scheme ∧
      ∀ ty, context.Instance bound ty → scheme.Instance ty

/-- The more types are monomorphic, the fewer instances there are. -/
theorem Context.Instance.mono {context context' : Context} {bound ty : Ty}
    (fewer : context.monomorphic ⊆ context'.monomorphic) (instance_ : context'.Instance bound ty) :
    context.Instance bound ty := by
  obtain ⟨values, same, fixed⟩ := instance_
  exact ⟨values, same, fun kept member => fixed kept (fewer member)⟩

/-- A monomorphic type has no other instance. -/
theorem Context.Instance.eq_of_mem {context : Context} {bound ty : Ty}
    (instance_ : context.Instance bound ty) (fixed : bound ∈ context.monomorphic) : ty = bound := by
  obtain ⟨values, rfl, keeps⟩ := instance_
  exact Ty.subst_eq_self (keeps bound fixed)

namespace Assumptions

variable {assumptions : Assumptions} {context : Context}

theorem subsumes_empty : ({} : Assumptions).Subsumes {} :=
  ⟨rfl, by rintro name bound ⟨⟩⟩

/-- A name that is bound anew hides the earlier bindings of it. -/
theorem Subsumes.cons (subsumes : assumptions.Subsumes context) {monomorphic : List Ty}
    (fewer : context.monomorphic ⊆ monomorphic) (name : String) {ty : Ty} {scheme : Scheme}
    (instances : ∀ other,
      Context.Instance ⟨(name, ty) :: context.bindings, monomorphic⟩ ty other →
        scheme.Instance other) :
    Subsumes ⟨(name, scheme) :: assumptions.schemes, monomorphic⟩
      ⟨(name, ty) :: context.bindings, monomorphic⟩ := by
  refine ⟨rfl, fun {used bound} found => ?_⟩
  by_cases same : used = name
  · subst same
    rw [List.lookup_cons_self, Option.some_inj] at found
    subst found
    exact ⟨scheme, List.lookup_cons_self, instances⟩
  · have other : (used == name) = false := beq_false_of_ne same
    rw [List.lookup_cons, other] at found
    obtain ⟨scheme', found', instances'⟩ := subsumes.names found
    refine ⟨scheme', ?_, fun ty instance_ => instances' ty (instance_.mono fewer)⟩
    rw [List.lookup_cons, other]
    exact found'

/-- What is generalised at a declaration includes what may be replaced right after it. -/
theorem Subsumes.declare (subsumes : assumptions.Subsumes context) (name : String) (ty : Ty) :
    (assumptions.declare name ty).Subsumes (context.bind name ty) := by
  have declared : assumptions.declare name ty =
      ⟨(name, assumptions.generalise ty) :: assumptions.schemes, context.monomorphic⟩ := by
    rw [← subsumes.params]
    rfl
  rw [declared]
  refine subsumes.cons (List.Subset.refl _) name fun other instance_ => ?_
  obtain ⟨values, same, fixed⟩ := instance_
  refine ⟨values, same, fun id notGeneric => ?_⟩
  -- A variable that is not generalised occurs in the type of a parameter.
  by_contra replaced
  refine notGeneric fun param member occurs => replaced ?_
  rw [subsumes.params] at member
  exact fixed param member id occurs

theorem Subsumes.bindParam (subsumes : assumptions.Subsumes context) (name : String) (ty : Ty) :
    (assumptions.bindParam name ty).Subsumes
      ⟨(name, ty) :: context.bindings, context.monomorphic ++ [ty]⟩ := by
  have bound : assumptions.bindParam name ty =
      ⟨(name, ⟨∅, ty⟩) :: assumptions.schemes, context.monomorphic ++ [ty]⟩ := by
    rw [← subsumes.params]
    rfl
  rw [bound]
  refine subsumes.cons (List.subset_append_left _ _) name fun other instance_ => ?_
  rw [instance_.eq_of_mem (List.mem_append_right _ (List.mem_singleton_self ty))]
  exact ⟨.var, (Ty.subst_eq_self fun _ _ => rfl).symm, fun _ _ => rfl⟩

theorem Subsumes.enter (subsumes : assumptions.Subsumes context) (params : List Param)
    (tys : List Ty) : (assumptions.enter params tys).Subsumes (context.enter params tys) := by
  induction params generalizing assumptions context tys with
  | nil => exact subsumes
  | cons param params inductionHypothesis =>
    cases tys with
    | nil => exact subsumes
    | cons ty tys => exact inductionHypothesis (subsumes.bindParam param.name ty) tys

end Assumptions

/-! ### Trees -/

theorem Param.Elaborates.declared {params typed : List Param} {tys : List Ty}
    (elaborates : Param.Elaborates params typed tys) :
    List.Forall₂ (fun param ty => Declared param.declared ty) params tys := by
  induction elaborates with
  | nil => exact .nil
  | cons declared _ inductionHypothesis => exact .cons declared inductionHypothesis

mutual

/-- An expression has the type that stands in its slot. -/
theorem Expr.Elaborates.hasType {context : Context} {expr typed : Expr} {ty : Ty}
    (elaborates : expr.Elaborates context typed ty) {assumptions : Assumptions}
    (subsumes : assumptions.Subsumes context) : expr.HasType assumptions ty := by
  match elaborates with
  | .number literal => exact .number literal
  | .string => exact .string
  | .bool => exact .bool
  | .ident found instance_ =>
    obtain ⟨scheme, found', instances⟩ := subsumes.names found
    exact .ident found' (instances _ instance_)
  | .binary first second types =>
    exact .binary (first.hasType subsumes) (second.hasType subsumes) types
  | .conditional first second third =>
    exact .conditional (first.hasType subsumes) (second.hasType subsumes) (third.hasType subsumes)
  | .arrow first second declared =>
    exact .arrow first.declared (second.hasType (subsumes.enter _ _)) declared
  | .call first second => exact .call (first.hasType subsumes) (second.hasTypes subsumes)
  | .array each => exact .array (each.hasTypes subsumes)
  | .index first second => exact .index (first.hasType subsumes) (second.hasType subsumes)

theorem Expr.ElaboratesAll.hasTypes {context : Context} {exprs typed : List Expr} {tys : List Ty}
    (elaborate : Expr.ElaboratesAll context exprs typed tys) {assumptions : Assumptions}
    (subsumes : assumptions.Subsumes context) : Expr.HasTypes assumptions exprs tys := by
  match elaborate with
  | .nil => exact .nil
  | .cons first rest => exact .cons (first.hasType subsumes) (rest.hasTypes subsumes)

theorem Body.Elaborates.hasType {context : Context} {body typed : Body} {ty : Ty}
    (elaborates : body.Elaborates context typed ty) {assumptions : Assumptions}
    (subsumes : assumptions.Subsumes context) : body.HasType assumptions ty := by
  match elaborates with
  | .value inner => exact .value (inner.hasType subsumes)
  | .block inner => exact .block (inner.hasResult subsumes)

theorem Stmt.ElaboratesBlock.hasResult {context : Context} {statements typed : List Stmt} {ty : Ty}
    (elaborates : Stmt.ElaboratesBlock context statements typed ty) {assumptions : Assumptions}
    (subsumes : assumptions.Subsumes context) : Stmt.HasResult assumptions statements ty := by
  match elaborates with
  | .nil => exact .nil
  | .last returns first =>
    match first with
    | .returnValue inner => exact .returnValue (inner.hasType subsumes)
    | .returnNothing => exact .returnNothing
    | .const _ _ => cases returns
    | .expr _ => cases returns
  | .cons continues first rest =>
    obtain ⟨after, typed, subsumes'⟩ := first.hasType continues subsumes
    exact .cons typed (rest.hasResult subsumes')

theorem Stmt.Elaborates.hasType {context after : Context} {statement typed : Stmt} {ty : Ty}
    (elaborates : statement.Elaborates context typed ty after)
    (continues : statement.isReturn = false) {assumptions : Assumptions}
    (subsumes : assumptions.Subsumes context) :
    ∃ after', statement.HasType assumptions ty after' ∧ after'.Subsumes after := by
  match elaborates with
  | .const inner agrees =>
    exact ⟨_, .const (inner.hasType subsumes) agrees, subsumes.declare _ _⟩
  | .expr inner => exact ⟨_, .expr (inner.hasType subsumes), subsumes⟩
  | .returnValue _ => cases continues
  | .returnNothing => cases continues

end

/-! ### Whole programs -/

/-- A statement that has a type is not a return. -/
theorem Stmt.HasTypes.continues {assumptions : Assumptions} {statements : List Stmt}
    {tys : List Ty} (typed : Stmt.HasTypes assumptions statements tys) :
    ∀ statement ∈ statements, statement.isReturn = false := by
  induction typed with
  | nil => exact List.forall_mem_nil _
  | cons first _ inductionHypothesis =>
    refine List.forall_mem_cons.mpr ⟨?_, inductionHypothesis⟩
    cases first <;> rfl

theorem Stmt.ElaboratesAll.hasTypes {context : Context} {statements typed : List Stmt}
    {tys : List Ty} (elaborate : Stmt.ElaboratesAll context statements typed tys)
    (continue_ : ∀ statement ∈ statements, statement.isReturn = false)
    {assumptions : Assumptions} (subsumes : assumptions.Subsumes context) :
    Stmt.HasTypes assumptions statements tys := by
  induction elaborate generalizing assumptions with
  | nil => exact .nil
  | cons first _ inductionHypothesis =>
    obtain ⟨continues, continue_⟩ := List.forall_mem_cons.mp continue_
    obtain ⟨after, typed, subsumes'⟩ := first.hasType continues subsumes
    exact .cons typed (inductionHypothesis continue_ subsumes')

end ArrowCheck
