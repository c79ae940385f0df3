/-
This file states the type rules of the language with type schemes. A rule relates a
tree to its type only, and chooses types freely: nothing is said about how they
are found.

A constant is generalised where it is declared, over all variables but those of the
types of the parameters around it, so that each use of its name may replace
those variables by types of its own. A parameter has one type. There is a rule
for each kind of node, but none for a name without a binding, none for the
operators without a type, and none for a return that is not the last statement of
the body of a function.
-/

import ArrowCheck.Proofs.TypeRules

namespace ArrowCheck

/-! ### Schemes -/

/-- A type, and the variables in it that stand for any type. -/
structure Scheme where
  generic : Set VarId
  ty : Ty

/-- A type arises from a scheme by replacing generic variables. -/
def Scheme.Instance (scheme : Scheme) (ty : Ty) : Prop :=
  ∃ values : VarId → Ty, ty = scheme.ty.subst values ∧
    ∀ id, id ∉ scheme.generic → values id = .var id

/-- The names in scope with their schemes, of which the first counts for a name, and the types of
the parameters of the functions around. -/
structure Assumptions where
  schemes : List (String × Scheme) := []
  params : List Ty := []

namespace Assumptions

/-- The scheme of a constant: its type, generalised over the variables that are in no type of a
parameter. -/
def generalise (assumptions : Assumptions) (ty : Ty) : Scheme :=
  ⟨{ id | ∀ param ∈ assumptions.params, id ∉ param.vars }, ty⟩

/-- Declares a constant. -/
def declare (assumptions : Assumptions) (name : String) (ty : Ty) : Assumptions :=
  { assumptions with schemes := (name, assumptions.generalise ty) :: assumptions.schemes }

/-- Binds a parameter, whose type is not generalised. -/
def bindParam (assumptions : Assumptions) (name : String) (ty : Ty) : Assumptions :=
  ⟨(name, ⟨∅, ty⟩) :: assumptions.schemes, assumptions.params ++ [ty]⟩

/-- Binds the parameters of a function. -/
def enter (assumptions : Assumptions) : List Param → List Ty → Assumptions
  | param :: params, ty :: tys => enter (assumptions.bindParam param.name ty) params tys
  | _, _ => assumptions

end Assumptions

/-! ### Rules -/

mutual

/-- An expression has a type. -/
inductive Expr.HasType : Assumptions → Expr → Ty → Prop
  | number {assumptions : Assumptions} {value : Binary64} {info : Info} {ty : Ty}
    (literal : ty = if value.isInteger then .number else .float) :
    Expr.HasType assumptions (.number value info) ty
  | string {assumptions : Assumptions} {value : String} {info : Info} :
    Expr.HasType assumptions (.string value info) .string
  | bool {assumptions : Assumptions} {value : Bool} {info : Info} :
    Expr.HasType assumptions (.bool value info) .bool
  | ident {assumptions : Assumptions} {name : String} {info : Info} {scheme : Scheme} {ty : Ty}
    (found : assumptions.schemes.lookup name = some scheme) (instance_ : scheme.Instance ty) :
    Expr.HasType assumptions (.ident name info) ty
  | binary {assumptions : Assumptions} {operator : Operator} {left right : Expr} {info : Info}
    {leftTy rightTy ty : Ty} (first : Expr.HasType assumptions left leftTy)
    (second : Expr.HasType assumptions right rightTy) (types : operator.Types leftTy rightTy ty) :
    Expr.HasType assumptions (.binary operator left right info) ty
  | conditional {assumptions : Assumptions} {test consequent alternate : Expr} {info : Info}
    {ty : Ty} (first : Expr.HasType assumptions test .bool)
    (second : Expr.HasType assumptions consequent ty)
    (third : Expr.HasType assumptions alternate ty) :
    Expr.HasType assumptions (.conditional test consequent alternate info) ty
  | arrow {assumptions : Assumptions} {params : List Param} {result : Option WrittenType}
    {body : Body} {info : Info} {paramTys : List Ty} {resultTy : Ty}
    (declared : List.Forall₂ (fun param ty => Declared param.declared ty) params paramTys)
    (inner : Body.HasType (assumptions.enter params paramTys) body resultTy)
    (agrees : Declared result resultTy) :
    Expr.HasType assumptions (.arrow params result body info) (.fn paramTys resultTy)
  | call {assumptions : Assumptions} {callee : Expr} {arguments : List Expr} {info : Info}
    {argumentTys : List Ty} {ty : Ty}
    (first : Expr.HasType assumptions callee (.fn argumentTys ty))
    (second : Expr.HasTypes assumptions arguments argumentTys) :
    Expr.HasType assumptions (.call callee arguments info) ty
  | array {assumptions : Assumptions} {elements : List Expr} {info : Info} {ty : Ty}
    (each : Expr.HasTypes assumptions elements (List.replicate elements.length ty)) :
    Expr.HasType assumptions (.array elements info) (.array ty)
  | index {assumptions : Assumptions} {object position : Expr} {info : Info} {ty : Ty}
    (first : Expr.HasType assumptions position .number)
    (second : Expr.HasType assumptions object (.array ty)) :
    Expr.HasType assumptions (.index object position info) ty

/-- Expressions have types, one by one. -/
inductive Expr.HasTypes : Assumptions → List Expr → List Ty → Prop
  | nil {assumptions : Assumptions} : Expr.HasTypes assumptions [] []
  | cons {assumptions : Assumptions} {head : Expr} {tail : List Expr} {ty : Ty} {tys : List Ty}
    (first : Expr.HasType assumptions head ty) (rest : Expr.HasTypes assumptions tail tys) :
    Expr.HasTypes assumptions (head :: tail) (ty :: tys)

/-- The body of an arrow function has a result of a type. -/
inductive Body.HasType : Assumptions → Body → Ty → Prop
  | value {assumptions : Assumptions} {value : Expr} {ty : Ty}
    (inner : Expr.HasType assumptions value ty) : Body.HasType assumptions (.value value) ty
  | block {assumptions : Assumptions} {statements : List Stmt} {ty : Ty}
    (inner : Stmt.HasResult assumptions statements ty) :
    Body.HasType assumptions (.block statements) ty

/-- The statements of a block have a result of a type. A return at the end gives it, and without one
there is none. -/
inductive Stmt.HasResult : Assumptions → List Stmt → Ty → Prop
  | nil {assumptions : Assumptions} : Stmt.HasResult assumptions [] .void
  | returnValue {assumptions : Assumptions} {argument : Expr} {info : Info} {ty : Ty}
    (inner : Expr.HasType assumptions argument ty) :
    Stmt.HasResult assumptions [.return (some argument) info] ty
  | returnNothing {assumptions : Assumptions} {info : Info} :
    Stmt.HasResult assumptions [.return none info] .void
  | cons {assumptions after : Assumptions} {head : Stmt} {tail : List Stmt} {ty result : Ty}
    (first : Stmt.HasType assumptions head ty after) (rest : Stmt.HasResult after tail result) :
    Stmt.HasResult assumptions (head :: tail) result

/-- A statement other than a return has a type, and leaves assumptions for what comes after it. -/
inductive Stmt.HasType : Assumptions → Stmt → Ty → Assumptions → Prop
  | const {assumptions : Assumptions} {name : String} {declared : Option WrittenType} {init : Expr}
    {info : Info} {ty : Ty} (inner : Expr.HasType assumptions init ty)
    (agrees : Declared declared ty) :
    Stmt.HasType assumptions (.const name declared init info) ty (assumptions.declare name ty)
  | expr {assumptions : Assumptions} {value : Expr} {ty : Ty}
    (inner : Expr.HasType assumptions value ty) :
    Stmt.HasType assumptions (.expr value) ty assumptions

end

/-- Statements have types in order, each under the assumptions that the one before it leaves. -/
inductive Stmt.HasTypes : Assumptions → List Stmt → List Ty → Prop
  | nil {assumptions : Assumptions} : Stmt.HasTypes assumptions [] []
  | cons {assumptions after : Assumptions} {head : Stmt} {tail : List Stmt} {ty : Ty}
    {tys : List Ty} (first : Stmt.HasType assumptions head ty after)
    (rest : Stmt.HasTypes after tail tys) : Stmt.HasTypes assumptions (head :: tail) (ty :: tys)

/-- A program has the type of its last statement, and no value if it is empty. -/
def Program.HasType (program : Program) (ty : Ty) : Prop :=
  ∃ tys, Stmt.HasTypes {} program.body tys ∧ ty = tys.getLastD .void

/-! ### The operators in a tree -/

mutual

/-- The operators in an expression. -/
def Expr.operators : Expr → List Operator
  | .number _ _ | .string _ _ | .bool _ _ | .ident _ _ => []
  | .binary operator left right _ => operator :: (left.operators ++ right.operators)
  | .conditional test consequent alternate _ =>
    test.operators ++ (consequent.operators ++ alternate.operators)
  | .arrow _ _ body _ => body.operators
  | .call callee arguments _ => callee.operators ++ Expr.operatorsAll arguments
  | .array elements _ => Expr.operatorsAll elements
  | .index object position _ => object.operators ++ position.operators

/-- The operators in expressions. -/
def Expr.operatorsAll : List Expr → List Operator
  | [] => []
  | head :: tail => head.operators ++ Expr.operatorsAll tail

/-- The operators in the body of an arrow function. -/
def Body.operators : Body → List Operator
  | .value value => value.operators
  | .block statements => Stmt.operatorsAll statements

/-- The operators in a statement. -/
def Stmt.operators : Stmt → List Operator
  | .const _ _ init _ => init.operators
  | .return (some argument) _ => argument.operators
  | .return none _ => []
  | .expr value => value.operators

/-- The operators in statements. -/
def Stmt.operatorsAll : List Stmt → List Operator
  | [] => []
  | head :: tail => head.operators ++ Stmt.operatorsAll tail

end

/-- The operators in a program. -/
def Program.operators (program : Program) : List Operator :=
  Stmt.operatorsAll program.body

end ArrowCheck
