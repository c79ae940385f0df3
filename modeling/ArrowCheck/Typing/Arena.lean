/-
This file defines the arena of type variables. A variable is either free or
linked to a type, and following links leads from a variable to the type that it
stands for. Links are only made after a check that the variable does not occur
in its own type, so no chain of links returns to where it began. Whoever follows
a chain points every variable on it directly at its end.

The functions below end on every arena, also on one with a cycle of links: a
chain without a repetition follows at most as many links as there are variables,
so they carry the number of links that may still be followed. If that number
runs out, the arena records that a walk found no end.
-/

import ArrowCheck.Ty

namespace ArrowCheck

/-- The type variables created so far and their links. A variable that was never created should not
be followed. If that happens the arena keeps the first such variable as a stray one and takes it to
be free. If a walk along the links finds no end the arena is marked as endless. What is computed
from then on means nothing in either case. -/
structure Arena where
  links : Array (Option Ty) := #[]
  stray : Option VarId := none
  endless : Bool := false
deriving DecidableEq, Inhabited

/-- A computation that reads and changes an arena. -/
abbrev ArenaM := StateM Arena

namespace Arena

/-- The number of variables. -/
def size (arena : Arena) : Nat :=
  arena.links.size

/-- An arena in which a variable is linked to a type. -/
def link (arena : Arena) (id : VarId) (ty : Ty) : Arena :=
  { arena with links := arena.links.setIfInBounds id (some ty) }

/-- An arena in which a variable is recorded as stray, unless another one was before it. -/
def noteStray (arena : Arena) (id : VarId) : Arena :=
  { arena with stray := arena.stray <|> some id }

/-- An arena in which a walk found no end. -/
def noteEndless (arena : Arena) : Arena :=
  { arena with endless := true }

/-- Whether a variable exists and is free. -/
def isFree (arena : Arena) (id : VarId) : Bool :=
  arena.links[id]? == some none

/-- Creates a variable. -/
def fresh : ArenaM Ty := do
  let arena ← get
  set { arena with links := arena.links.push none }
  pure (.var arena.size)

/-! ### Following links -/

/-- The end of the chain of links from a variable, after at most a number of links. Every variable
on the way is linked directly to the end. -/
def follow : (steps : Nat) → VarId → ArenaM Ty
  | 0, id => do
    modify noteEndless
    pure (.var id)
  | steps + 1, id => do
    match (← get).links[id]? with
    | none => do
      modify (·.noteStray id)
      pure (.var id)
    | some none => pure (.var id)
    | some (some (.var next)) => do
      let target ← follow steps next
      modify (·.link id target)
      pure target
    | some (some ty) => pure ty

/-- The outermost known form of a type: a variable is replaced by the end of its chain. -/
def compress : Ty → ArenaM Ty
  | .var id => do
    let arena ← get
    follow (arena.size + 1) id
  | ty => pure ty

/-- What a variable stands for, through at most a number of variables inside one another. -/
def resolveVar : (hops : Nat) → VarId → ArenaM Ty
  | 0, id => do
    modify noteEndless
    pure (.var id)
  | hops + 1, id => do
    match ← compress (.var id) with
    | .var root => pure (.var root)
    | ty => ty.mapVars (resolveVar hops)

/-- A type with every variable in it replaced by what it stands for. -/
def resolve (ty : Ty) : ArenaM Ty := do
  let arena ← get
  ty.mapVars (resolveVar (arena.size + 1))

/-- Whether a variable occurs in what another one stands for. -/
def occursInVar (target : VarId) : (hops : Nat) → VarId → ArenaM Bool
  | 0, _ => do
    modify noteEndless
    pure false
  | hops + 1, id => do
    match ← compress (.var id) with
    | .var root => pure (root == target)
    | ty => ty.anyVar (occursInVar target hops)

/-- Whether a variable occurs in what a type stands for. -/
def occursIn (target : VarId) (ty : Ty) : ArenaM Bool := do
  let arena ← get
  ty.anyVar (occursInVar target (arena.size + 1))

/-! ### Copies -/

/-- An arena while a type is copied, and the copies of variables made so far. -/
structure Copying where
  arena : Arena
  copies : List (VarId × Ty) := []

/-- A computation that makes copies. -/
abbrev CopyM := StateM Copying

/-- A computation on the arena while a type is copied. -/
def Copying.onArena {α : Type} (action : ArenaM α) : CopyM α := fun copying =>
  let (value, arena) := action copying.arena
  (value, { copying with arena := arena })

/-- The copy of a free variable: the variable itself if it is to be kept, the copy made before if
there is one, and a new variable otherwise. -/
def copyFree (kept : List VarId) (root : VarId) : CopyM Ty := do
  if kept.contains root then pure (.var root)
  else
    match (← get).copies.lookup root with
    | some copy => pure copy
    | none => do
      let copy ← Copying.onArena fresh
      modify fun copying => { copying with copies := (root, copy) :: copying.copies }
      pure copy

/-- The copy of what a variable stands for. -/
def copyVar (kept : List VarId) : (hops : Nat) → VarId → CopyM Ty
  | 0, id => do
    Copying.onArena (modify noteEndless)
    pure (.var id)
  | hops + 1, id => do
    match ← Copying.onArena (compress (.var id)) with
    | .var root => copyFree kept root
    | ty => ty.mapVars (copyVar kept hops)

/-- A copy of what a type stands for, in which each free variable that is not to be kept is replaced
by a new one, always the same for the same variable. -/
def copy (kept : List VarId) (ty : Ty) : ArenaM Ty := fun arena =>
  let (copied, copying) := ty.mapVars (copyVar kept (arena.size + 1)) { arena := arena }
  (copied, copying.arena)

end Arena

end ArrowCheck
