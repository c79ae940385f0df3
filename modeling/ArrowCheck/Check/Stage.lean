/-
This file defines the stages of a check and chains of stages. A stage turns one
value into the next and may add diagnostics. A stage that cannot go on fails, and
the chain stops there; the diagnostics collected up to then are kept.
-/

import ArrowCheck.Diagnostic.Basic

namespace ArrowCheck

/-- The diagnostics of all stages that have run. -/
structure Collected where
  items : List Diagnostic := []
  /-- How many of the items belong to stages that have ended well. -/
  emitted : Nat := 0
deriving DecidableEq, Inhabited

namespace Collected

/-- Adds a diagnostic. -/
def push (collected : Collected) (diagnostic : Diagnostic) : Collected :=
  { collected with items := collected.items ++ [diagnostic] }

/-- Adds diagnostics. -/
def extend (collected : Collected) (diagnostics : List Diagnostic) : Collected :=
  { collected with items := collected.items ++ diagnostics }

/-- Marks all items as belonging to stages that have ended well. -/
def emit (collected : Collected) : Collected :=
  { collected with emitted := collected.items.length }

/-- Whether there is an error among the items. -/
def hasErrors (collected : Collected) : Bool :=
  Diagnostic.anyError collected.items

end Collected

/-- Why a stage could not go on. -/
structure StageError where
  stage : String
  message : String
deriving DecidableEq, Repr, Inhabited

/-- The wording of a stage's failure. -/
def StageError.text (error : StageError) : String :=
  "[" ++ error.stage ++ "] " ++ error.message

/-- A computation that collects diagnostics and may fail. -/
abbrev StageM := ExceptT StageError (StateM Collected)

/-- One step of a check. -/
structure Stage (α β : Type) where
  name : String
  run : α → StageM β

/-- Stages one after the other, each working on what the one before it gave. -/
structure Chain (α β : Type) where
  run : α → StageM β

namespace Stage

/-- Adds diagnostics to those collected so far. -/
def collect (diagnostics : List Diagnostic) : StageM Unit :=
  modify (·.extend diagnostics)

/-- Runs a stage. A failure is put down to this stage, whatever stage it names. -/
def runNamed {α β : Type} (stage : Stage α β) (context : α) : StageM β := do
  let result ← tryCatch (stage.run context) fun error =>
    throw { error with stage := stage.name }
  modify Collected.emit
  pure result

end Stage

namespace Chain

/-- The chain without stages. -/
def empty {α : Type} : Chain α α :=
  ⟨pure⟩

/-- A chain with one more stage at its end. -/
def add {α β γ : Type} (chain : Chain α β) (stage : Stage β γ) : Chain α γ :=
  ⟨fun context => do
    let middle ← chain.run context
    stage.runNamed middle⟩

/-- What a chain gives for a value, and the diagnostics collected on the way. -/
def start {α β : Type} (chain : Chain α β) (context : α) (collected : Collected) :
    Except StageError β × Collected :=
  (chain.run context).run collected

end Chain

end ArrowCheck
