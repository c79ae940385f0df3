/-
This file defines inference sessions. A session holds everything that inference
changes: the arena of type variables, the scopes, and the diagnostics reported
so far.
-/

import ArrowCheck.Diagnostic.Basic
import ArrowCheck.Typing.Arena
import ArrowCheck.Typing.Fault
import ArrowCheck.Typing.Scope
import ArrowCheck.WrittenType.Basic

namespace ArrowCheck

/-- The state of inference. -/
structure Session where
  arena : Arena := {}
  scopes : Scopes := {}
  diagnostics : List Diagnostic := []
  /-- Whether an error was reported since the diagnostics were last handed out. -/
  hasErrors : Bool := false
  /-- Whether faults are reported as warnings. -/
  lossy : Bool := false
deriving DecidableEq, Inhabited

/-- A computation that reads and changes a session. -/
abbrev SessionM := StateM Session

namespace Session

/-- A computation on the arena of a session. -/
def onArena {α : Type} (action : ArenaM α) : SessionM α := fun session =>
  let (value, arena) := action session.arena
  (value, { session with arena := arena })

/-- A change of the scopes of a session. -/
def modifyScopes (change : Scopes → Scopes) : SessionM Unit :=
  modify fun session => { session with scopes := change session.scopes }

/-! ### Diagnostics -/

/-- The part of the checker that typing diagnostics name. -/
def context : String :=
  "typing"

/-- A session with one more diagnostic: a warning in a lossy session and an error in any other. -/
def addDiagnostic (kind : Fault.Kind) (span : Option Span) (message : String)
    (session : Session) : Session :=
  { session with
    diagnostics := session.diagnostics ++
      [{ level := if session.lossy then .warning else .error
         message := message
         span := span
         context := some context
         code := some kind.code }]
    hasErrors := session.hasErrors || !session.lossy }

/-- Reports a fault. -/
def report (fault : Fault) (span : Option Span) : SessionM Unit :=
  modify (addDiagnostic fault.kind span fault.message)

/-- Reports that two types could not be made equal. -/
def reportAt (site : Site) (fault : Fault) : SessionM Unit :=
  modify (addDiagnostic fault.kind site.span (site.message fault))

/-! ### Types -/

/-- Creates a type variable. -/
def fresh : SessionM Ty :=
  onArena Arena.fresh

/-- The outermost known form of a type. -/
def compress (ty : Ty) : SessionM Ty :=
  onArena (Arena.compress ty)

/-- What a type stands for. -/
def resolve (ty : Ty) : SessionM Ty :=
  onArena (Arena.resolve ty)

/-- Whether a variable occurs in what a type stands for. -/
def occursIn (id : VarId) (ty : Ty) : SessionM Bool :=
  onArena (Arena.occursIn id ty)

mutual

/-- The type that a written type stands for. A name that is not that of a primitive type stands for
any type, so it becomes a new variable. -/
def ofWritten : WrittenType → SessionM Ty
  | .named name _ =>
    if name = "number" then pure .number
    else if name = "string" then pure .string
    else if name = "boolean" then pure .bool
    else if name = "void" then pure .void
    else fresh
  | .array element _ => do
    let element ← ofWritten element
    pure (.array element)
  | .function params result _ => do
    let params ← ofWrittenAll params
    let result ← ofWritten result
    pure (.fn params result)

/-- The types that written types stand for, from left to right. -/
def ofWrittenAll : List WrittenType → SessionM (List Ty)
  | [] => pure []
  | head :: tail => do
    let head ← ofWritten head
    let tail ← ofWrittenAll tail
    pure (head :: tail)

end

/-! ### Scopes -/

/-- Opens a scope. -/
def pushScope : SessionM Unit :=
  modifyScopes Scopes.push

/-- Closes the innermost scope, unless it is the outermost one. -/
def popScope : SessionM Unit :=
  modifyScopes Scopes.pop

/-- Binds a name in the innermost scope. -/
def bind (name : String) (ty : Ty) : SessionM Unit :=
  modifyScopes (·.bind name ty)

/-- Makes a type monomorphic in the innermost scope. -/
def keep (ty : Ty) : SessionM Unit :=
  modifyScopes (·.keep ty)

/-- What each of a list of types stands for. -/
def resolveAll : List Ty → SessionM (List Ty)
  | [] => pure []
  | head :: tail => do
    let head ← resolve head
    let tail ← resolveAll tail
    pure (head :: tail)

/-- The free variables of the types that are monomorphic in the innermost scope. -/
def monomorphicVars : SessionM (List VarId) := do
  let session ← get
  let resolved ← resolveAll session.scopes.current.monomorphic
  pure (resolved.flatMap Ty.vars)

/-- An instance of a type: a copy with new variables for those that are not monomorphic. -/
def freshInstance (ty : Ty) : SessionM Ty := do
  let kept ← monomorphicVars
  onArena (Arena.copy kept ty)

/-- The type of a name where it is used: the bound type itself if it is monomorphic, and an instance
of it otherwise. -/
def lookup (name : String) : SessionM (Option Ty) := do
  let session ← get
  match session.scopes.find? name with
  | none => pure none
  | some stored =>
    if stored ∈ session.scopes.current.monomorphic then pure (some stored)
    else do
      let copied ← freshInstance stored
      pure (some copied)

end Session

end ArrowCheck
