/-
This file infers the types of expressions and statements. Inference returns the
tree with the type of every node in its slot. The types in the slots are as they
were when the node was left: variables in them may become known later.
-/

import ArrowCheck.Tree.Basic
import ArrowCheck.Typing.Operator

namespace ArrowCheck.Session

/-- The type of a name where it is used. A name without a binding is reported and may have any type.
-/
def inferIdent (name : String) (span : Option Span) : SessionM Ty := do
  match ← lookup name with
  | some ty => pure ty
  | none => do
    report (.unbound name) span
    fresh

/-- Gives a parameter its declared type, or a new variable, and binds it. -/
def inferParam (param : Param) : SessionM (Param × Ty) := do
  let ty ←
    match param.declared with
    | some written => ofWritten written
    | none => fresh
  bind param.name ty
  keep ty
  pure ({ param with info := { param.info with ty := some ty } }, ty)

/-- Gives parameters their types from left to right. -/
def inferParams : List Param → SessionM (List Param × List Ty)
  | [] => pure ([], [])
  | param :: rest => do
    let (param, ty) ← inferParam param
    let (params, types) ← inferParams rest
    pure (param :: params, ty :: types)

/-- Makes a type equal to the one that a program declares for it, if it declares one, and gives the
declared type. -/
def meetDeclared (inferred : Ty) (declared : Option WrittenType)
    (site : WrittenType → Site) : SessionM Ty := do
  match declared with
  | some written => do
    let ty ← ofWritten written
    let _ ← unify (site written) inferred ty
    pure ty
  | none => pure inferred

/-- Makes the types of arguments equal to those of the parameters, one by one. -/
def unifyArguments (span : Option Span) :
    (position : Nat) → List (Option Span × Ty) → List Ty → SessionM Unit
  | position, (argumentSpan, argument) :: arguments, param :: params => do
    let _ ← unify { span := argumentSpan <|> span, demand := some (.argument position) }
      argument param
    unifyArguments span (position + 1) arguments params
  | _, _, _ => pure ()

/-- The type of a call, from what was known of the callee before its arguments were inferred. -/
def solveCall (callee : Ty) (arguments : List (Option Span × Ty)) (span : Option Span) :
    SessionM Ty := do
  match callee with
  | .var id => do
    let result ← fresh
    let _ ← unify { span := span } (.var id) (.fn (arguments.map Prod.snd) result)
    pure result
  | .fn params result => do
    if params.length = arguments.length then unifyArguments span 1 arguments params
    else report (.argumentCount params.length arguments.length) span
    pure result
  | other => do
    let shown ← resolve other
    report (.notFunction shown) span
    fresh

/-- The type of an element of an indexed value. -/
def solveIndex (object : Ty) (site : Site) : SessionM Ty := do
  match ← compress object with
  | .array element => pure element
  | object => do
    let element ← fresh
    let _ ← unify site object (.array element)
    pure element

/-- Reports a return that is not the last statement of a block. -/
def reportEarlyReturn (statement : Stmt) : SessionM Unit := do
  if statement.isReturn then report .earlyReturn statement.span

mutual

/-- Infers an expression. -/
def inferExpr : Expr → SessionM (Expr × Ty)
  | .number value info =>
    let ty : Ty := if value.isInteger then .number else .float
    pure (.number value { info with ty := some ty }, ty)
  | .string value info => pure (.string value { info with ty := some .string }, .string)
  | .bool value info => pure (.bool value { info with ty := some .bool }, .bool)
  | .ident name info => do
    let ty ← inferIdent name info.span
    pure (.ident name { info with ty := some ty }, ty)
  | .binary operator left right info => do
    let (left, leftTy) ← inferExpr left
    let (right, rightTy) ← inferExpr right
    let ty ← solveBinary operator leftTy rightTy info.span
    pure (.binary operator left right { info with ty := some ty }, ty)
  | .conditional test consequent alternate info => do
    let (test, testTy) ← inferExpr test
    let _ ← unify { span := test.span <|> info.span, demand := some .boolCondition } testTy .bool
    let (consequent, consequentTy) ← inferExpr consequent
    let (alternate, alternateTy) ← inferExpr alternate
    let ty ← fresh
    let _ ← unify { span := consequent.span <|> info.span, demand := some .equalBranches }
      consequentTy ty
    let _ ← unify { span := alternate.span <|> info.span, demand := some .equalBranches }
      alternateTy ty
    pure (.conditional test consequent alternate { info with ty := some ty }, ty)
  | .arrow params result body info => do
    pushScope
    let (params, paramTys) ← inferParams params
    let (body, bodyTy) ← inferBody body
    let resultTy ← meetDeclared bodyTy result fun written =>
      { span := written.span <|> info.span, demand := some .declaredResult }
    popScope
    let resultTy ← compress resultTy
    let ty : Ty := .fn paramTys resultTy
    pure (.arrow params result body { info with ty := some ty }, ty)
  | .call callee arguments info => do
    let (callee, calleeTy) ← inferExpr callee
    let known ← compress calleeTy
    let (arguments, argumentTys) ← inferArguments arguments
    let ty ← solveCall known argumentTys info.span
    pure (.call callee arguments { info with ty := some ty }, ty)
  | .array [] info => do
    let element ← fresh
    pure (.array [] { info with ty := some (.array element) }, .array element)
  | .array (first :: rest) info => do
    let (first, element) ← inferExpr first
    let rest ← inferElements element rest
    pure (.array (first :: rest) { info with ty := some (.array element) }, .array element)
  | .index object position info => do
    let (position, positionTy) ← inferExpr position
    let _ ← unify { span := position.span <|> info.span, demand := some .numberIndex }
      positionTy .number
    let (object, objectTy) ← inferExpr object
    let ty ← solveIndex objectTy
      { span := object.span <|> info.span, demand := some .arrayIndexed }
    pure (.index object position { info with ty := some ty }, ty)

/-- Infers the arguments of a call, and gives their types with their places. -/
def inferArguments : List Expr → SessionM (List Expr × List (Option Span × Ty))
  | [] => pure ([], [])
  | argument :: rest => do
    let (argument, ty) ← inferExpr argument
    let (arguments, types) ← inferArguments rest
    pure (argument :: arguments, (argument.span, ty) :: types)

/-- Infers the elements of an array after the first one, whose type they should share. -/
def inferElements (element : Ty) : List Expr → SessionM (List Expr)
  | [] => pure []
  | value :: rest => do
    let (value, ty) ← inferExpr value
    let _ ← unify { span := value.span, demand := some .equalElements } ty element
    let rest ← inferElements element rest
    pure (value :: rest)

/-- Infers the body of an arrow function. -/
def inferBody : Body → SessionM (Body × Ty)
  | .value value => do
    let (value, ty) ← inferExpr value
    pure (.value value, ty)
  | .block statements => do
    let (statements, ty) ← inferBlock statements
    pure (.block statements, ty)

/-- Infers the statements of a block. Only a return at the end gives the block its type; without one
it has no value. -/
def inferBlock : List Stmt → SessionM (List Stmt × Ty)
  | [] => pure ([], .void)
  | statement :: rest => do
    let (statement, ty) ← inferStmt statement
    if statement.isReturn ∧ rest = [] then pure ([statement], ty)
    else do
      reportEarlyReturn statement
      let (statements, ty) ← inferBlock rest
      pure (statement :: statements, ty)

/-- Infers a statement. -/
def inferStmt : Stmt → SessionM (Stmt × Ty)
  | .const name declared init info => do
    let (init, initTy) ← inferExpr init
    let ty ← meetDeclared initTy declared fun _ =>
      { span := init.span <|> info.span, demand := some (.declaredType name) }
    bind name ty
    pure (.const name declared init { info with ty := some ty }, ty)
  | .return (some argument) info => do
    let (argument, ty) ← inferExpr argument
    pure (.return (some argument) { info with ty := some ty }, ty)
  | .return none info => pure (.return none { info with ty := some .void }, .void)
  | .expr value => do
    let (value, ty) ← inferExpr value
    pure (.expr value, ty)

end

/-- Infers statements in order. -/
def inferStmts : List Stmt → SessionM (List Stmt × List Ty)
  | [] => pure ([], [])
  | statement :: rest => do
    let (statement, ty) ← inferStmt statement
    let (statements, types) ← inferStmts rest
    pure (statement :: statements, ty :: types)

end ArrowCheck.Session
