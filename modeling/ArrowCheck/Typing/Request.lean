/-
This file lists what can be asked of a session from outside, and answers it. A
request may name a type variable that does not exist. As long as such a variable
is only mentioned that does no harm; once it is followed, the request is refused.
-/

import ArrowCheck.Typing.Outcome

namespace ArrowCheck

/-- What can be asked of a session. -/
inductive Request where
  | fresh
  | unify (site : Site) (first second : Ty)
  | compress (ty : Ty)
  | resolve (ty : Ty)
  | copy (ty : Ty)
  | occurs (id : VarId) (ty : Ty)
  | isFree (id : VarId)
  | push
  | pop
  | bind (name : String) (ty : Ty)
  | lookup (name : String)
  | binary (operator : Operator) (left right : Ty) (span : Option Span)
  | ofWritten (written : WrittenType)
  | inferExpr (expr : Expr)
  | inferStmts (program : Program)
  | infer (program : Program)
  | inferResolved (program : Program) (resolution : List Diagnostic)

/-- What a session answers. -/
inductive Response where
  | ty (ty : Ty)
  | maybeTy (ty : Option Ty)
  | verdict (value : Bool)
  | depth (depth : Nat)
  /-- A tree with raw slots, its type as it is, and what that type stands for. -/
  | expr (expr : Expr) (ty resolved : Ty)
  /-- Statements with raw slots, their types as they are, and the program with final slots. -/
  | statements (raw : List Stmt) (types : List Ty) (program : Program)
  | outcome (program : Program) (outcome : Outcome)

namespace Session

/-- The number of open scopes. -/
def scopeDepth : SessionM Response := do
  let session ← get
  pure (.depth session.scopes.depth)

/-- Answers a request. -/
def perform : Request → SessionM Response
  | .fresh => .ty <$> fresh
  | .unify site first second => .verdict <$> unify site first second
  | .compress ty => .ty <$> compress ty
  | .resolve ty => .ty <$> resolve ty
  | .copy ty => .ty <$> freshInstance ty
  | .occurs id ty => .verdict <$> occursIn id ty
  | .isFree id => do
    let session ← get
    pure (.verdict (session.arena.isFree id))
  | .push => do
    pushScope
    scopeDepth
  | .pop => do
    popScope
    scopeDepth
  | .bind name ty => do
    bind name ty
    scopeDepth
  | .lookup name => .maybeTy <$> lookup name
  | .binary operator left right span => .ty <$> solveBinary operator left right span
  | .ofWritten written => .ty <$> ofWritten written
  | .inferExpr expr => do
    let (expr, ty) ← inferExpr expr
    let resolved ← resolve ty
    pure (.expr expr ty resolved)
  | .inferStmts program => do
    let (raw, types) ← inferStmts program.body
    let program ← finalize { program with body := raw }
    pure (.statements raw types program)
  | .infer program => do
    let (program, outcome) ← infer program
    pure (.outcome program outcome)
  | .inferResolved program resolution => do
    let (program, outcome) ← inferResolved program resolution
    pure (.outcome program outcome)

/-- Answers a request, or refuses it because of a variable that does not exist. -/
def answer (session : Session) (request : Request) : Except VarId (Response × Session) :=
  let (response, session) := perform request session
  match session.arena.stray with
  | none => .ok (response, session)
  | some id => .error id

end Session

end ArrowCheck
