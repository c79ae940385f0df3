/-
This file states the type rules of the language, apart from how types are found.
A rule relates a tree to the same tree with the type of every node in its slot.

A name has an instance of the type that it is bound to: variables in that type
may be replaced, except those that occur in the type of a parameter of an
enclosing function. Those types are the monomorphic ones of a context.
-/

import ArrowCheck.Proofs.Substitution
import ArrowCheck.Tree.Basic

namespace ArrowCheck

/-- A node with a type in its slot. -/
def Info.typed (info : Info) (ty : Ty) : Info :=
  { info with ty := some ty }

/-! ### Operators and written types -/

/-- The types of the operands and the result of an operator. The remaining operators have none. -/
inductive Operator.Types : Operator → Ty → Ty → Ty → Prop
  | join : Operator.Types .add .string .string .string
  | sum : Operator.Types .add .number .number .number
  | arithmetic {operator : Operator} (member : operator ∈ [.sub, .mul, .div]) :
    Operator.Types operator .number .number .number
  | comparison {operator : Operator}
    (member : operator ∈ [.less, .greater, .lessEqual, .greaterEqual]) :
    Operator.Types operator .number .number .bool
  | equality {operator : Operator} (member : operator ∈ [.equal, .unequal]) (ty : Ty) :
    Operator.Types operator ty ty .bool

/-- The names of types that a program can write, and the types that they stand for. -/
def WrittenType.primitives : List (String × Primitive) :=
  [("number", .number), ("string", .string), ("boolean", .bool), ("void", .void)]

mutual

/-- The types that a written type may stand for. Any other name stands for any type. -/
inductive WrittenType.Denotes : WrittenType → Ty → Prop
  | primitive {name : String} {primitive : Primitive} {span : Option Span}
    (member : (name, primitive) ∈ WrittenType.primitives) :
    WrittenType.Denotes (.named name span) (.prim primitive)
  | other {name : String} {span : Option Span} (ty : Ty)
    (unknown : ∀ primitive, (name, primitive) ∉ WrittenType.primitives) :
    WrittenType.Denotes (.named name span) ty
  | array {element : WrittenType} {span : Option Span} {ty : Ty}
    (inner : WrittenType.Denotes element ty) :
    WrittenType.Denotes (.array element span) (.array ty)
  | function {params : List WrittenType} {result : WrittenType} {span : Option Span}
    {paramTys : List Ty} {resultTy : Ty} (inner : WrittenType.DenoteAll params paramTys)
    (inner' : WrittenType.Denotes result resultTy) :
    WrittenType.Denotes (.function params result span) (.fn paramTys resultTy)

/-- The types that written types may stand for, one by one. -/
inductive WrittenType.DenoteAll : List WrittenType → List Ty → Prop
  | nil : WrittenType.DenoteAll [] []
  | cons {head : WrittenType} {tail : List WrittenType} {ty : Ty} {tys : List Ty}
    (inner : WrittenType.Denotes head ty) (rest : WrittenType.DenoteAll tail tys) :
    WrittenType.DenoteAll (head :: tail) (ty :: tys)

end

/-! ### Rules under substitution -/

theorem Operator.Types.subst {operator : Operator} {left right ty : Ty}
    (types : operator.Types left right ty) (values : VarId → Ty) :
    operator.Types (left.subst values) (right.subst values) (ty.subst values) := by
  cases types with
  | join => exact .join
  | sum => exact .sum
  | arithmetic member => exact .arithmetic member
  | comparison member => exact .comparison member
  | equality member _ => exact .equality member _

mutual

theorem WrittenType.Denotes.subst (values : VarId → Ty) {written : WrittenType} {ty : Ty}
    (denotes : written.Denotes ty) : written.Denotes (ty.subst values) := by
  match denotes with
  | .primitive member => exact .primitive member
  | .other ty unknown => exact .other (ty.subst values) unknown
  | .array inner => exact .array (inner.subst values)
  | .function inner inner' =>
    rw [Ty.subst_fn]
    exact .function (inner.subst values) (inner'.subst values)

theorem WrittenType.DenoteAll.subst (values : VarId → Ty) {written : List WrittenType}
    {tys : List Ty} (denote : WrittenType.DenoteAll written tys) :
    WrittenType.DenoteAll written (tys.map (Ty.subst values)) := by
  match denote with
  | .nil => exact .nil
  | .cons inner rest => exact .cons (inner.subst values) (rest.subst values)

end

/-- A type agrees with the one that a program declares, if it declares one. -/
def Declared (declared : Option WrittenType) (ty : Ty) : Prop :=
  ∀ written, declared = some written → written.Denotes ty

theorem declared_none (ty : Ty) : Declared none ty := by
  intro written same
  cases same

theorem WrittenType.Denotes.declared {written : WrittenType} {ty : Ty}
    (denotes : written.Denotes ty) : Declared (some written) ty := by
  intro other same
  rw [← Option.some.inj same]
  exact denotes

theorem Declared.subst {declared : Option WrittenType} {ty : Ty} (agrees : Declared declared ty)
    (values : VarId → Ty) : Declared declared (ty.subst values) :=
  fun written same => (agrees written same).subst values

/-! ### Contexts -/

/-- The names in scope with the types that they are bound to, of which the first counts for a name,
and the types whose variables are not generalised. -/
structure Context where
  bindings : List (String × Ty) := []
  monomorphic : List Ty := []

namespace Context

/-- Binds a name. -/
def bind (context : Context) (name : String) (ty : Ty) : Context :=
  { context with bindings := (name, ty) :: context.bindings }

/-- Binds the parameters of a function. -/
def enter (context : Context) : List Param → List Ty → Context
  | param :: params, ty :: tys =>
    enter ⟨(param.name, ty) :: context.bindings, context.monomorphic ++ [ty]⟩ params tys
  | _, _ => context

/-- A type arises from another by replacing variables that are not monomorphic. -/
def Instance (context : Context) (bound ty : Ty) : Prop :=
  ∃ values : VarId → Ty, ty = bound.subst values ∧
    ∀ fixed ∈ context.monomorphic, ∀ id ∈ fixed.vars, values id = .var id

end Context

/-! ### Trees -/

/-- Parameters with their types, which agree with the declared ones. -/
inductive Param.Elaborates : List Param → List Param → List Ty → Prop
  | nil : Param.Elaborates [] [] []
  | cons {param : Param} {params typed : List Param} {ty : Ty} {tys : List Ty}
    (declared : Declared param.declared ty) (rest : Param.Elaborates params typed tys) :
    Param.Elaborates (param :: params) ({ param with info := param.info.typed ty } :: typed)
      (ty :: tys)

mutual

/-- An expression, the same expression with types in all slots, and its type. -/
inductive Expr.Elaborates : Context → Expr → Expr → Ty → Prop
  | number {context : Context} {value : Binary64} {info : Info} {ty : Ty}
    (literal : ty = if value.isInteger then .number else .float) :
    Expr.Elaborates context (.number value info) (.number value (info.typed ty)) ty
  | string {context : Context} {value : String} {info : Info} :
    Expr.Elaborates context (.string value info) (.string value (info.typed .string)) .string
  | bool {context : Context} {value : Bool} {info : Info} :
    Expr.Elaborates context (.bool value info) (.bool value (info.typed .bool)) .bool
  | ident {context : Context} {name : String} {info : Info} {bound ty : Ty}
    (found : context.bindings.lookup name = some bound) (instance_ : context.Instance bound ty) :
    Expr.Elaborates context (.ident name info) (.ident name (info.typed ty)) ty
  | binary {context : Context} {operator : Operator} {left left' right right' : Expr} {info : Info}
    {leftTy rightTy ty : Ty} (first : Expr.Elaborates context left left' leftTy)
    (second : Expr.Elaborates context right right' rightTy)
    (types : operator.Types leftTy rightTy ty) :
    Expr.Elaborates context (.binary operator left right info)
      (.binary operator left' right' (info.typed ty)) ty
  | conditional {context : Context} {test test' consequent consequent' alternate alternate' : Expr}
    {info : Info} {ty : Ty} (first : Expr.Elaborates context test test' .bool)
    (second : Expr.Elaborates context consequent consequent' ty)
    (third : Expr.Elaborates context alternate alternate' ty) :
    Expr.Elaborates context (.conditional test consequent alternate info)
      (.conditional test' consequent' alternate' (info.typed ty)) ty
  | arrow {context : Context} {params params' : List Param} {result : Option WrittenType}
    {body body' : Body} {info : Info} {paramTys : List Ty} {resultTy : Ty}
    (first : Param.Elaborates params params' paramTys)
    (second : Body.Elaborates (context.enter params paramTys) body body' resultTy)
    (declared : Declared result resultTy) :
    Expr.Elaborates context (.arrow params result body info)
      (.arrow params' result body' (info.typed (.fn paramTys resultTy))) (.fn paramTys resultTy)
  | call {context : Context} {callee callee' : Expr} {arguments arguments' : List Expr}
    {info : Info} {argumentTys : List Ty} {ty : Ty}
    (first : Expr.Elaborates context callee callee' (.fn argumentTys ty))
    (second : Expr.ElaboratesAll context arguments arguments' argumentTys) :
    Expr.Elaborates context (.call callee arguments info)
      (.call callee' arguments' (info.typed ty)) ty
  | array {context : Context} {elements elements' : List Expr} {info : Info} {ty : Ty}
    (each : Expr.ElaboratesAll context elements elements' (List.replicate elements.length ty)) :
    Expr.Elaborates context (.array elements info) (.array elements' (info.typed (.array ty)))
      (.array ty)
  | index {context : Context} {object object' position position' : Expr} {info : Info} {ty : Ty}
    (first : Expr.Elaborates context position position' .number)
    (second : Expr.Elaborates context object object' (.array ty)) :
    Expr.Elaborates context (.index object position info)
      (.index object' position' (info.typed ty)) ty

/-- Expressions in one context, one by one. -/
inductive Expr.ElaboratesAll : Context → List Expr → List Expr → List Ty → Prop
  | nil {context : Context} : Expr.ElaboratesAll context [] [] []
  | cons {context : Context} {head head' : Expr} {tail tail' : List Expr} {ty : Ty} {tys : List Ty}
    (first : Expr.Elaborates context head head' ty)
    (rest : Expr.ElaboratesAll context tail tail' tys) :
    Expr.ElaboratesAll context (head :: tail) (head' :: tail') (ty :: tys)

/-- The body of an arrow function and the type of its result. -/
inductive Body.Elaborates : Context → Body → Body → Ty → Prop
  | value {context : Context} {value value' : Expr} {ty : Ty}
    (inner : Expr.Elaborates context value value' ty) :
    Body.Elaborates context (.value value) (.value value') ty
  | block {context : Context} {statements statements' : List Stmt} {ty : Ty}
    (inner : Stmt.ElaboratesBlock context statements statements' ty) :
    Body.Elaborates context (.block statements) (.block statements') ty

/-- The statements of a block and the type of its result. Only the last statement may be a return,
and without one there is no result. -/
inductive Stmt.ElaboratesBlock : Context → List Stmt → List Stmt → Ty → Prop
  | nil {context : Context} : Stmt.ElaboratesBlock context [] [] .void
  | last {context after : Context} {head head' : Stmt} {ty : Ty} (returns : head.isReturn = true)
    (first : Stmt.Elaborates context head head' ty after) :
    Stmt.ElaboratesBlock context [head] [head'] ty
  | cons {context after : Context} {head head' : Stmt} {tail tail' : List Stmt} {ty result : Ty}
    (continues : head.isReturn = false)
    (first : Stmt.Elaborates context head head' ty after)
    (rest : Stmt.ElaboratesBlock after tail tail' result) :
    Stmt.ElaboratesBlock context (head :: tail) (head' :: tail') result

/-- A statement, its type, and the context after it. -/
inductive Stmt.Elaborates : Context → Stmt → Stmt → Ty → Context → Prop
  | const {context : Context} {name : String} {declared : Option WrittenType} {init init' : Expr}
    {info : Info} {ty : Ty} (inner : Expr.Elaborates context init init' ty)
    (agrees : Declared declared ty) :
    Stmt.Elaborates context (.const name declared init info)
      (.const name declared init' (info.typed ty)) ty (context.bind name ty)
  | returnValue {context : Context} {argument argument' : Expr} {info : Info} {ty : Ty}
    (inner : Expr.Elaborates context argument argument' ty) :
    Stmt.Elaborates context (.return (some argument) info)
      (.return (some argument') (info.typed ty)) ty context
  | returnNothing {context : Context} {info : Info} :
    Stmt.Elaborates context (.return none info) (.return none (info.typed .void)) .void context
  | expr {context : Context} {value value' : Expr} {ty : Ty}
    (inner : Expr.Elaborates context value value' ty) :
    Stmt.Elaborates context (.expr value) (.expr value') ty context

end

/-- Statements in order, each in the context that the one before it leaves. -/
inductive Stmt.ElaboratesAll : Context → List Stmt → List Stmt → List Ty → Prop
  | nil {context : Context} : Stmt.ElaboratesAll context [] [] []
  | cons {context after : Context} {head head' : Stmt} {tail tail' : List Stmt} {ty : Ty}
    {tys : List Ty} (first : Stmt.Elaborates context head head' ty after)
    (rest : Stmt.ElaboratesAll after tail tail' tys) :
    Stmt.ElaboratesAll context (head :: tail) (head' :: tail') (ty :: tys)

/-- A program with types in all slots. Its own slot has the type of its last statement. -/
def Program.Elaborates (program typed : Program) : Prop :=
  ∃ tys, Stmt.ElaboratesAll {} program.body typed.body tys ∧
    typed.info = program.info.typed (tys.getLastD .void)

end ArrowCheck
