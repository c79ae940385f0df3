/-
This file walks over the type slots of a tree: every slot that is filled is given
to an action, and filled with what the action returns.
-/

import ArrowCheck.Tree.Basic

namespace ArrowCheck

variable {m : Type → Type} [Monad m]

/-- Changes the type of a node, if it has one. -/
def Info.mapTy (change : Ty → m Ty) (info : Info) : m Info :=
  match info.ty with
  | some ty => do
    let ty ← change ty
    pure { info with ty := some ty }
  | none => pure info

/-- Changes the types of parameters. -/
def Param.mapTys (change : Ty → m Ty) : List Param → m (List Param)
  | [] => pure []
  | param :: rest => do
    let info ← param.info.mapTy change
    let rest ← mapTys change rest
    pure ({ param with info := info } :: rest)

mutual

/-- Changes the types of an expression and of all its parts. -/
def Expr.mapTys (change : Ty → m Ty) : Expr → m Expr
  | .number value info => do
    let info ← info.mapTy change
    pure (.number value info)
  | .string value info => do
    let info ← info.mapTy change
    pure (.string value info)
  | .bool value info => do
    let info ← info.mapTy change
    pure (.bool value info)
  | .ident name info => do
    let info ← info.mapTy change
    pure (.ident name info)
  | .binary operator left right info => do
    let info ← info.mapTy change
    let left ← left.mapTys change
    let right ← right.mapTys change
    pure (.binary operator left right info)
  | .conditional test consequent alternate info => do
    let info ← info.mapTy change
    let test ← test.mapTys change
    let consequent ← consequent.mapTys change
    let alternate ← alternate.mapTys change
    pure (.conditional test consequent alternate info)
  | .arrow params result body info => do
    let info ← info.mapTy change
    let params ← Param.mapTys change params
    let body ← body.mapTys change
    pure (.arrow params result body info)
  | .call callee arguments info => do
    let info ← info.mapTy change
    let callee ← callee.mapTys change
    let arguments ← Expr.mapTysAll change arguments
    pure (.call callee arguments info)
  | .array elements info => do
    let info ← info.mapTy change
    let elements ← Expr.mapTysAll change elements
    pure (.array elements info)
  | .index object position info => do
    let info ← info.mapTy change
    let object ← object.mapTys change
    let position ← position.mapTys change
    pure (.index object position info)

/-- Changes the types of expressions. -/
def Expr.mapTysAll (change : Ty → m Ty) : List Expr → m (List Expr)
  | [] => pure []
  | head :: tail => do
    let head ← head.mapTys change
    let tail ← Expr.mapTysAll change tail
    pure (head :: tail)

/-- Changes the types of the body of an arrow function. -/
def Body.mapTys (change : Ty → m Ty) : Body → m Body
  | .value value => do
    let value ← value.mapTys change
    pure (.value value)
  | .block statements => do
    let statements ← Stmt.mapTysAll change statements
    pure (.block statements)

/-- Changes the types of a statement and of all its parts. -/
def Stmt.mapTys (change : Ty → m Ty) : Stmt → m Stmt
  | .const name declared init info => do
    let info ← info.mapTy change
    let init ← init.mapTys change
    pure (.const name declared init info)
  | .return (some argument) info => do
    let info ← info.mapTy change
    let argument ← argument.mapTys change
    pure (.return (some argument) info)
  | .return none info => do
    let info ← info.mapTy change
    pure (.return none info)
  | .expr value => do
    let value ← value.mapTys change
    pure (.expr value)

/-- Changes the types of statements. -/
def Stmt.mapTysAll (change : Ty → m Ty) : List Stmt → m (List Stmt)
  | [] => pure []
  | head :: tail => do
    let head ← head.mapTys change
    let tail ← Stmt.mapTysAll change tail
    pure (head :: tail)

end

/-- Changes the types of a program and of all its parts. -/
def Program.mapTys (change : Ty → m Ty) (program : Program) : m Program := do
  let info ← program.info.mapTy change
  let body ← Stmt.mapTysAll change program.body
  pure ⟨body, info⟩

end ArrowCheck
