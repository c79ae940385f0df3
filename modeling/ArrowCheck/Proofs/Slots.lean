/-
This file reasons about the type slots of a tree. Walking over the slots with an
action that computes a function of types fills every slot with the value of that
function, so a walk is described by the function and by the types in the slots.
-/

import Mathlib.Logic.Basic
import ArrowCheck.Proofs.Ensures
import ArrowCheck.Tree.Slots

namespace ArrowCheck

/-! ### The types in the slots -/

/-- The type in a slot, if there is one. -/
def Info.tys (info : Info) : List Ty :=
  info.ty.toList

/-- The types in the slots of parameters. -/
def Param.tys (params : List Param) : List Ty :=
  params.flatMap (·.info.tys)

mutual

/-- The types in the slots of an expression and of its parts. -/
def Expr.tys : Expr → List Ty
  | .number _ info | .string _ info | .bool _ info | .ident _ info => info.tys
  | .binary _ left right info => info.tys ++ (left.tys ++ right.tys)
  | .conditional test consequent alternate info =>
    info.tys ++ (test.tys ++ (consequent.tys ++ alternate.tys))
  | .arrow params _ body info => info.tys ++ (Param.tys params ++ body.tys)
  | .call callee arguments info => info.tys ++ (callee.tys ++ Expr.tysAll arguments)
  | .array elements info => info.tys ++ Expr.tysAll elements
  | .index object position info => info.tys ++ (object.tys ++ position.tys)

/-- The types in the slots of expressions. -/
def Expr.tysAll : List Expr → List Ty
  | [] => []
  | head :: tail => head.tys ++ Expr.tysAll tail

/-- The types in the slots of the body of an arrow function. -/
def Body.tys : Body → List Ty
  | .value value => value.tys
  | .block statements => Stmt.tysAll statements

/-- The types in the slots of a statement and of its parts. -/
def Stmt.tys : Stmt → List Ty
  | .const _ _ init info => info.tys ++ init.tys
  | .return (some argument) info => info.tys ++ argument.tys
  | .return none info => info.tys
  | .expr value => value.tys

/-- The types in the slots of statements. -/
def Stmt.tysAll : List Stmt → List Ty
  | [] => []
  | head :: tail => head.tys ++ Stmt.tysAll tail

end

/-- The types in the slots of a program. -/
def Program.tys (program : Program) : List Ty :=
  program.info.tys ++ Stmt.tysAll program.body

/-! ### Filling the slots with the values of a function -/

section WithTys

variable (change : Ty → Ty)

/-- A node with its type changed, if it has one. -/
def Info.withTy (info : Info) : Info :=
  Id.run (info.mapTy change)

/-- Parameters with all types changed. -/
def Param.withTys (params : List Param) : List Param :=
  Id.run (Param.mapTys change params)

/-- An expression with all types changed. -/
def Expr.withTys (expr : Expr) : Expr :=
  Id.run (expr.mapTys change)

/-- Expressions with all types changed. -/
def Expr.withTysAll (exprs : List Expr) : List Expr :=
  Id.run (Expr.mapTysAll change exprs)

/-- The body of an arrow function with all types changed. -/
def Body.withTys (body : Body) : Body :=
  Id.run (body.mapTys change)

/-- A statement with all types changed. -/
def Stmt.withTys (statement : Stmt) : Stmt :=
  Id.run (statement.mapTys change)

/-- Statements with all types changed. -/
def Stmt.withTysAll (statements : List Stmt) : List Stmt :=
  Id.run (Stmt.mapTysAll change statements)

/-- A program with all types changed. -/
def Program.withTys (program : Program) : Program :=
  Id.run (program.mapTys change)

end WithTys

/-! ### Walks over the slots -/

section Walks

variable {State : Type} (Holds : State → Prop) (change : Ty → StateM State Ty) (value : Ty → Ty)

/-- On some types an action computes a function, as long as the state has a property that the action
keeps. -/
def Computes (tys : List Ty) : Prop :=
  ∀ ty ∈ tys, ∀ state, Holds state →
    Ensures (change ty) state fun result after => Holds after ∧ result = value ty

variable {Holds change value}

theorem computes_append {first second : List Ty} :
    Computes Holds change value (first ++ second) ↔
      Computes Holds change value first ∧ Computes Holds change value second :=
  List.forall_mem_append

/-- A step whose result is known is followed by what comes after it. -/
theorem Ensures.bind_eq {Result Other : Type} {action : StateM State Result} {state : State}
    {known : Result} {next : Result → StateM State Other} {post : Other → State → Prop}
    (first : Ensures action state fun result after => Holds after ∧ result = known)
    (rest : ∀ now, Holds now → Ensures (next known) now post) :
    Ensures (action >>= next) state post := by
  refine Ensures.bind first fun result now ⟨holds, same⟩ => ?_
  rw [same]
  exact rest now holds

theorem Info.mapTy_ensures {info : Info} (each : Computes Holds change value info.tys)
    {state : State} (holds : Holds state) :
    Ensures (info.mapTy change) state fun result after =>
      Holds after ∧ result = info.withTy value := by
  obtain ⟨span, ty⟩ := info
  cases ty with
  | none => exact Ensures.pure ⟨holds, rfl⟩
  | some ty =>
    refine Ensures.bind_eq (each ty (List.mem_singleton_self ty) state holds) fun _ holds => ?_
    exact Ensures.pure ⟨holds, rfl⟩

theorem Param.mapTys_ensures {params : List Param}
    (each : Computes Holds change value (Param.tys params)) {state : State}
    (holds : Holds state) :
    Ensures (Param.mapTys change params) state fun result after =>
      Holds after ∧ result = Param.withTys value params := by
  induction params generalizing state with
  | nil => exact Ensures.pure ⟨holds, rfl⟩
  | cons param rest inductionHypothesis =>
    rw [Param.tys, List.flatMap_cons, computes_append] at each
    refine Ensures.bind_eq (Info.mapTy_ensures each.1 holds) fun _ holds => ?_
    refine Ensures.bind_eq (inductionHypothesis each.2 holds) fun _ holds => ?_
    exact Ensures.pure ⟨holds, rfl⟩

mutual

theorem Expr.mapTys_ensures (expr : Expr) (each : Computes Holds change value expr.tys)
    {state : State} (holds : Holds state) :
    Ensures (expr.mapTys change) state fun result after =>
      Holds after ∧ result = expr.withTys value := by
  match expr with
  | .number _ info | .string _ info | .bool _ info | .ident _ info =>
    rw [Expr.tys] at each
    rw [Expr.mapTys]
    refine Ensures.bind_eq (info.mapTy_ensures each holds) fun _ holds => ?_
    exact Ensures.pure ⟨holds, rfl⟩
  | .binary _ first second info | .index first second info =>
    rw [Expr.tys, computes_append, computes_append] at each
    rw [Expr.mapTys]
    refine Ensures.bind_eq (info.mapTy_ensures each.1 holds) fun _ holds => ?_
    refine Ensures.bind_eq (first.mapTys_ensures each.2.1 holds) fun _ holds => ?_
    refine Ensures.bind_eq (second.mapTys_ensures each.2.2 holds) fun _ holds => ?_
    exact Ensures.pure ⟨holds, rfl⟩
  | .conditional test consequent alternate info =>
    rw [Expr.tys, computes_append, computes_append, computes_append] at each
    rw [Expr.mapTys]
    refine Ensures.bind_eq (info.mapTy_ensures each.1 holds) fun _ holds => ?_
    refine Ensures.bind_eq (test.mapTys_ensures each.2.1 holds) fun _ holds => ?_
    refine Ensures.bind_eq (consequent.mapTys_ensures each.2.2.1 holds) fun _ holds => ?_
    refine Ensures.bind_eq (alternate.mapTys_ensures each.2.2.2 holds) fun _ holds => ?_
    exact Ensures.pure ⟨holds, rfl⟩
  | .arrow params _ body info =>
    rw [Expr.tys, computes_append, computes_append] at each
    rw [Expr.mapTys]
    refine Ensures.bind_eq (info.mapTy_ensures each.1 holds) fun _ holds => ?_
    refine Ensures.bind_eq (Param.mapTys_ensures each.2.1 holds) fun _ holds => ?_
    refine Ensures.bind_eq (body.mapTys_ensures each.2.2 holds) fun _ holds => ?_
    exact Ensures.pure ⟨holds, rfl⟩
  | .call callee arguments info =>
    rw [Expr.tys, computes_append, computes_append] at each
    rw [Expr.mapTys]
    refine Ensures.bind_eq (info.mapTy_ensures each.1 holds) fun _ holds => ?_
    refine Ensures.bind_eq (callee.mapTys_ensures each.2.1 holds) fun _ holds => ?_
    refine Ensures.bind_eq (Expr.mapTysAll_ensures arguments each.2.2 holds) fun _ holds => ?_
    exact Ensures.pure ⟨holds, rfl⟩
  | .array elements info =>
    rw [Expr.tys, computes_append] at each
    rw [Expr.mapTys]
    refine Ensures.bind_eq (info.mapTy_ensures each.1 holds) fun _ holds => ?_
    refine Ensures.bind_eq (Expr.mapTysAll_ensures elements each.2 holds) fun _ holds => ?_
    exact Ensures.pure ⟨holds, rfl⟩

theorem Expr.mapTysAll_ensures (exprs : List Expr)
    (each : Computes Holds change value (Expr.tysAll exprs)) {state : State}
    (holds : Holds state) :
    Ensures (Expr.mapTysAll change exprs) state fun result after =>
      Holds after ∧ result = Expr.withTysAll value exprs := by
  match exprs with
  | [] => exact Ensures.pure ⟨holds, rfl⟩
  | head :: tail =>
    rw [Expr.tysAll, computes_append] at each
    rw [Expr.mapTysAll]
    refine Ensures.bind_eq (head.mapTys_ensures each.1 holds) fun _ holds => ?_
    refine Ensures.bind_eq (Expr.mapTysAll_ensures tail each.2 holds) fun _ holds => ?_
    exact Ensures.pure ⟨holds, rfl⟩

theorem Body.mapTys_ensures (body : Body) (each : Computes Holds change value body.tys)
    {state : State} (holds : Holds state) :
    Ensures (body.mapTys change) state fun result after =>
      Holds after ∧ result = body.withTys value := by
  match body with
  | .value expr =>
    rw [Body.tys] at each
    rw [Body.mapTys]
    refine Ensures.bind_eq (expr.mapTys_ensures each holds) fun _ holds => ?_
    exact Ensures.pure ⟨holds, rfl⟩
  | .block statements =>
    rw [Body.tys] at each
    rw [Body.mapTys]
    refine Ensures.bind_eq (Stmt.mapTysAll_ensures statements each holds) fun _ holds => ?_
    exact Ensures.pure ⟨holds, rfl⟩

theorem Stmt.mapTys_ensures (statement : Stmt)
    (each : Computes Holds change value statement.tys) {state : State} (holds : Holds state) :
    Ensures (statement.mapTys change) state fun result after =>
      Holds after ∧ result = statement.withTys value := by
  match statement with
  | .const _ _ expr info | .return (some expr) info =>
    rw [Stmt.tys, computes_append] at each
    rw [Stmt.mapTys]
    refine Ensures.bind_eq (info.mapTy_ensures each.1 holds) fun _ holds => ?_
    refine Ensures.bind_eq (expr.mapTys_ensures each.2 holds) fun _ holds => ?_
    exact Ensures.pure ⟨holds, rfl⟩
  | .return none info =>
    rw [Stmt.tys] at each
    rw [Stmt.mapTys]
    refine Ensures.bind_eq (info.mapTy_ensures each holds) fun _ holds => ?_
    exact Ensures.pure ⟨holds, rfl⟩
  | .expr expr =>
    rw [Stmt.tys] at each
    rw [Stmt.mapTys]
    refine Ensures.bind_eq (expr.mapTys_ensures each holds) fun _ holds => ?_
    exact Ensures.pure ⟨holds, rfl⟩

theorem Stmt.mapTysAll_ensures (statements : List Stmt)
    (each : Computes Holds change value (Stmt.tysAll statements)) {state : State}
    (holds : Holds state) :
    Ensures (Stmt.mapTysAll change statements) state fun result after =>
      Holds after ∧ result = Stmt.withTysAll value statements := by
  match statements with
  | [] => exact Ensures.pure ⟨holds, rfl⟩
  | head :: tail =>
    rw [Stmt.tysAll, computes_append] at each
    rw [Stmt.mapTysAll]
    refine Ensures.bind_eq (head.mapTys_ensures each.1 holds) fun _ holds => ?_
    refine Ensures.bind_eq (Stmt.mapTysAll_ensures tail each.2 holds) fun _ holds => ?_
    exact Ensures.pure ⟨holds, rfl⟩

end

theorem Program.mapTys_ensures {program : Program}
    (each : Computes Holds change value program.tys) {state : State} (holds : Holds state) :
    Ensures (program.mapTys change) state fun result after =>
      Holds after ∧ result = program.withTys value := by
  rw [Program.tys, computes_append] at each
  refine Ensures.bind_eq (Info.mapTy_ensures each.1 holds) fun _ holds => ?_
  refine Ensures.bind_eq (Stmt.mapTysAll_ensures program.body each.2 holds) fun _ holds => ?_
  exact Ensures.pure ⟨holds, rfl⟩

end Walks

theorem Stmt.withTysAll_eq_map (change : Ty → Ty) (statements : List Stmt) :
    Stmt.withTysAll change statements = statements.map (Stmt.withTys change) := by
  induction statements with
  | nil => rfl
  | cons head tail inductionHypothesis =>
    rw [List.map_cons, ← inductionHypothesis]
    rfl

/-- Functions with the same values on the types in the slots fill them in the same way. -/
theorem Stmt.withTysAll_congr {first second : Ty → Ty} {statements : List Stmt}
    (same : ∀ ty ∈ Stmt.tysAll statements, first ty = second ty) :
    Stmt.withTysAll first statements = Stmt.withTysAll second statements := by
  -- One walk computes both functions.
  have filled (value : Ty → Ty) (equal : ∀ ty ∈ Stmt.tysAll statements, first ty = value ty) :
      Ensures (Stmt.mapTysAll (fun ty => pure (first ty)) statements) () fun result _ =>
        True ∧ result = Stmt.withTysAll value statements :=
    Stmt.mapTysAll_ensures statements (fun ty member _ _ => ⟨trivial, equal ty member⟩) trivial
  exact (filled first fun _ _ => rfl).2.symm.trans (filled second same).2

/-! ### Filling the slots again -/

section Again

variable (first second : Ty → Ty)

theorem Info.withTy_withTy (info : Info) :
    (info.withTy first).withTy second = info.withTy (second ∘ first) := by
  obtain ⟨span, ty⟩ := info
  cases ty <;> rfl

theorem Param.withTys_withTys (params : List Param) :
    Param.withTys second (Param.withTys first params) = Param.withTys (second ∘ first) params := by
  induction params with
  | nil => rfl
  | cons param rest inductionHypothesis =>
    exact congrArg₂ List.cons (congrArg (fun info => { param with info := info })
      (param.info.withTy_withTy first second)) inductionHypothesis

mutual

theorem Expr.withTys_withTys (expr : Expr) :
    (expr.withTys first).withTys second = expr.withTys (second ∘ first) :=
  match expr with
  | .number value info => congrArg (Expr.number value) (info.withTy_withTy first second)
  | .string value info => congrArg (Expr.string value) (info.withTy_withTy first second)
  | .bool value info => congrArg (Expr.bool value) (info.withTy_withTy first second)
  | .ident name info => congrArg (Expr.ident name) (info.withTy_withTy first second)
  | .binary operator left right info =>
    (congr (congrArg₂ (Expr.binary operator) left.withTys_withTys right.withTys_withTys)
      (info.withTy_withTy first second) :)
  | .conditional test consequent alternate info =>
    (congr (congr (congrArg₂ Expr.conditional test.withTys_withTys consequent.withTys_withTys)
      alternate.withTys_withTys) (info.withTy_withTy first second) :)
  | .arrow params result body info =>
    (congr (congrArg₂ (Expr.arrow · result) (Param.withTys_withTys first second params)
      body.withTys_withTys) (info.withTy_withTy first second) :)
  | .call callee arguments info =>
    (congr (congrArg₂ Expr.call callee.withTys_withTys (Expr.withTysAll_withTysAll arguments))
      (info.withTy_withTy first second) :)
  | .array elements info =>
    congrArg₂ Expr.array (Expr.withTysAll_withTysAll elements) (info.withTy_withTy first second)
  | .index object position info =>
    (congr (congrArg₂ Expr.index object.withTys_withTys position.withTys_withTys)
      (info.withTy_withTy first second) :)

theorem Expr.withTysAll_withTysAll (exprs : List Expr) :
    Expr.withTysAll second (Expr.withTysAll first exprs) =
      Expr.withTysAll (second ∘ first) exprs :=
  match exprs with
  | [] => rfl
  | head :: tail => congrArg₂ List.cons head.withTys_withTys (Expr.withTysAll_withTysAll tail)

theorem Body.withTys_withTys (body : Body) :
    (body.withTys first).withTys second = body.withTys (second ∘ first) :=
  match body with
  | .value value => congrArg Body.value value.withTys_withTys
  | .block statements => congrArg Body.block (Stmt.withTysAll_withTysAll statements)

theorem Stmt.withTys_withTys (statement : Stmt) :
    (statement.withTys first).withTys second = statement.withTys (second ∘ first) :=
  match statement with
  | .const name declared init info =>
    congrArg₂ (Stmt.const name declared) init.withTys_withTys (info.withTy_withTy first second)
  | .return (some argument) info =>
    congrArg₂ (fun argument => Stmt.return (some argument)) argument.withTys_withTys
      (info.withTy_withTy first second)
  | .return none info => congrArg (Stmt.return none) (info.withTy_withTy first second)
  | .expr value => congrArg Stmt.expr value.withTys_withTys

/-- Filling the slots twice is filling them once. -/
theorem Stmt.withTysAll_withTysAll (statements : List Stmt) :
    Stmt.withTysAll second (Stmt.withTysAll first statements) =
      Stmt.withTysAll (second ∘ first) statements :=
  match statements with
  | [] => rfl
  | head :: tail => congrArg₂ List.cons head.withTys_withTys (Stmt.withTysAll_withTysAll tail)

end

end Again

end ArrowCheck
