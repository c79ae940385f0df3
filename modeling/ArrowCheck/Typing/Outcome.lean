/-
This file infers whole programs. After inference every slot of the tree is filled
with what its type stands for, so that the tree no longer depends on the
session. A program whose names are wrong is not inferred at all.
-/

import ArrowCheck.Tree.Names
import ArrowCheck.Tree.Slots
import ArrowCheck.Typing.Infer

namespace ArrowCheck

/-- What inference has to say about a program. -/
structure Outcome where
  diagnostics : List Diagnostic
  hasErrors : Bool
  /-- The type of the last statement, unless inference was skipped. -/
  programTy : Option Ty
  skipped : Bool
deriving DecidableEq, Inhabited

/-- The number of errors among the diagnostics. -/
def Outcome.errorCount (outcome : Outcome) : Nat :=
  outcome.diagnostics.countP Diagnostic.isError

namespace Session

/-- A session without variables, bindings or diagnostics. -/
def new (lossy : Bool) : Session :=
  { lossy := lossy }

/-- Fills every slot of a program with what its type stands for. -/
def finalize (program : Program) : SessionM Program :=
  program.mapTys resolve

/-- Infers the statements of a program. The program has the type of its last statement, and no value
if it is empty. -/
def inferBodyOf (program : Program) : SessionM (Program × Ty) := do
  let (statements, types) ← inferStmts program.body
  let ty := types.getLastD .void
  pure ({ body := statements, info := { program.info with ty := some ty } }, ty)

/-- Hands out the diagnostics reported so far, and forgets them. -/
def finish (programTy : Ty) : SessionM Outcome := do
  let session ← get
  set { session with diagnostics := [], hasErrors := false }
  pure ⟨session.diagnostics, session.hasErrors, some programTy, false⟩

/-- Infers a program. -/
def infer (program : Program) : SessionM (Program × Outcome) := do
  let (program, ty) ← inferBodyOf program
  let program ← finalize program
  let ty ← resolve ty
  let outcome ← finish ty
  pure (program, outcome)

/-- Infers a program after its names were checked, and puts the diagnostics of that check first. If
there is an error among them, nothing is inferred. -/
def inferResolved (program : Program) (resolution : List Diagnostic) :
    SessionM (Program × Outcome) := do
  if Diagnostic.anyError resolution then
    pure (program, ⟨resolution, true, none, true⟩)
  else
    let (program, outcome) ← infer program
    pure (program, { outcome with diagnostics := resolution ++ outcome.diagnostics })

end Session

end ArrowCheck
