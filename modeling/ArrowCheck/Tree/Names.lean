/-
This file checks names. A constant can be used after its declaration, and not in
its own initial value. Parameters of an arrow function and the constants of its
block share one scope, and an inner function may declare an outer name again.
-/

import ArrowCheck.Diagnostic.Basic
import ArrowCheck.Tree.Basic

namespace ArrowCheck

/-- What can be wrong with a name. -/
inductive NameFault where
  /-- A name is used where it is not visible. -/
  | unresolved (name : String)
  /-- A name is declared a second time in one scope. -/
  | duplicate (name : String)
deriving DecidableEq, Repr, Inhabited

namespace NameFault

/-- The short name of a fault. -/
def code : NameFault → String
  | .unresolved _ => "unresolved-name"
  | .duplicate _ => "duplicate-binding"

/-- The wording of a fault. -/
def message : NameFault → String
  | .unresolved name => "`" ++ name ++ "` is used before it is declared"
  | .duplicate name => "`" ++ name ++ "` is already declared in this scope"

/-- The part of the checker that these diagnostics name. -/
def context : String :=
  "resolve"

/-- A fault at a place as a diagnostic. -/
def diagnostic (fault : NameFault) (span : Option Span) : Diagnostic :=
  { level := .error
    message := fault.message
    span := span
    context := some context
    code := some fault.code }

end NameFault

/-- The names that are visible at a place: those of the innermost scope, and those around it. -/
structure NameScope where
  inner : List String := []
  outer : List String := []
deriving DecidableEq, Inhabited

namespace NameScope

/-- The scope of a function inside a scope. -/
def enter (scope : NameScope) : NameScope :=
  ⟨[], scope.inner ++ scope.outer⟩

/-- A scope after a declaration. -/
def declare (scope : NameScope) (name : String) : NameScope :=
  { scope with inner := name :: scope.inner }

/-- The scope after parameters from left to right. -/
def declareParams (scope : NameScope) (params : List Param) : NameScope :=
  params.foldl (fun scope param => scope.declare param.name) scope

/-- What is wrong with the use of a name. -/
def useFaults (scope : NameScope) (name : String) (span : Option Span) : List Diagnostic :=
  if name ∈ scope.inner ∨ name ∈ scope.outer then []
  else [NameFault.diagnostic (.unresolved name) span]

/-- What is wrong with the declaration of a name. -/
def declareFaults (scope : NameScope) (name : String) (span : Option Span) : List Diagnostic :=
  if name ∈ scope.inner then [NameFault.diagnostic (.duplicate name) span] else []

/-- What is wrong with parameters, from left to right. -/
def paramFaults (scope : NameScope) : List Param → List Diagnostic
  | [] => []
  | param :: rest =>
    scope.declareFaults param.name param.info.span ++ paramFaults (scope.declare param.name) rest

end NameScope

mutual

/-- What is wrong with the names of an expression, in the order of the text. -/
def Expr.nameFaults (scope : NameScope) : Expr → List Diagnostic
  | .number _ _ | .string _ _ | .bool _ _ => []
  | .ident name info => scope.useFaults name info.span
  | .binary _ left right _ => left.nameFaults scope ++ right.nameFaults scope
  | .conditional test consequent alternate _ =>
    test.nameFaults scope ++ consequent.nameFaults scope ++ alternate.nameFaults scope
  | .arrow params _ body _ =>
    scope.enter.paramFaults params ++ body.nameFaults (scope.enter.declareParams params)
  | .call callee arguments _ => callee.nameFaults scope ++ Expr.nameFaultsAll scope arguments
  | .array elements _ => Expr.nameFaultsAll scope elements
  | .index object position _ => object.nameFaults scope ++ position.nameFaults scope

/-- What is wrong with the names of expressions. -/
def Expr.nameFaultsAll (scope : NameScope) : List Expr → List Diagnostic
  | [] => []
  | head :: tail => head.nameFaults scope ++ Expr.nameFaultsAll scope tail

/-- What is wrong with the names of the body of an arrow function. -/
def Body.nameFaults (scope : NameScope) : Body → List Diagnostic
  | .value value => value.nameFaults scope
  | .block statements => Stmt.nameFaultsAll scope statements

/-- What is wrong with the names of statements, each of which sees the constants before it. -/
def Stmt.nameFaultsAll (scope : NameScope) : List Stmt → List Diagnostic
  | [] => []
  | .const name _ init info :: rest =>
    init.nameFaults scope ++ scope.declareFaults name info.span ++
      Stmt.nameFaultsAll (scope.declare name) rest
  | .return (some argument) _ :: rest =>
    argument.nameFaults scope ++ Stmt.nameFaultsAll scope rest
  | .return none _ :: rest => Stmt.nameFaultsAll scope rest
  | .expr value :: rest => value.nameFaults scope ++ Stmt.nameFaultsAll scope rest

end

/-- What is wrong with the names of a program. -/
def Program.nameFaults (program : Program) : List Diagnostic :=
  Stmt.nameFaultsAll {} program.body

end ArrowCheck
