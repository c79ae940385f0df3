/-
This file defines the scopes of a session: a stack of frames, of which the
outermost stays for the whole session. Each frame binds names to types and knows
which types are monomorphic while it is the innermost frame. A new frame starts
with the monomorphic types of the frame around it, so that leaving it restores
them.
-/

import ArrowCheck.Ty

namespace ArrowCheck

/-- One frame. Of two bindings of one name the first counts. -/
structure Frame where
  bindings : List (String × Ty) := []
  /-- The types whose free variables are not generalised. -/
  monomorphic : List Ty := []
deriving DecidableEq, Inhabited

/-- A stack of frames: the innermost one and those around it, from inside to outside. -/
structure Scopes where
  current : Frame := {}
  outer : List Frame := []
deriving DecidableEq, Inhabited

namespace Scopes

/-- The number of frames. -/
def depth (scopes : Scopes) : Nat :=
  scopes.outer.length + 1

/-- Opens a frame. -/
def push (scopes : Scopes) : Scopes :=
  ⟨{ monomorphic := scopes.current.monomorphic }, scopes.current :: scopes.outer⟩

/-- Closes the innermost frame, unless it is the outermost one. -/
def pop (scopes : Scopes) : Scopes :=
  match scopes.outer with
  | frame :: outer => ⟨frame, outer⟩
  | [] => scopes

/-- Binds a name in the innermost frame. -/
def bind (scopes : Scopes) (name : String) (ty : Ty) : Scopes :=
  { scopes with
    current := { scopes.current with bindings := (name, ty) :: scopes.current.bindings } }

/-- Makes a type monomorphic in the innermost frame. -/
def keep (scopes : Scopes) (ty : Ty) : Scopes :=
  { scopes with
    current := { scopes.current with monomorphic := scopes.current.monomorphic ++ [ty] } }

/-- The binding of a name in the innermost frame that has one. -/
def find? (scopes : Scopes) (name : String) : Option Ty :=
  (scopes.current :: scopes.outer).findSome? fun frame => frame.bindings.lookup name

end Scopes

end ArrowCheck
