/-
This file makes types equal. Unification walks two types side by side, and links
a free variable on one side to the type on the other, after a check that this
would not make an infinite type. What cannot be made equal is reported, and the
walk goes on with the other parts.
-/

import ArrowCheck.Typing.Session

namespace ArrowCheck.Session

/-- Reports at a site why two types cannot be made equal. -/
def refuse (site : Site) (fault : Fault) : SessionM Bool := do
  reportAt site fault
  pure false

/-- Links a free variable to a type, unless the variable occurs in it. -/
def bindVar (site : Site) (id : VarId) (ty : Ty) : SessionM Bool := do
  if ← occursIn id ty then
    let shown ← resolve ty
    refuse site (.infinite id shown)
  else
    onArena (modify (·.link id ty))
    pure true

mutual

/-- Makes two types equal part by part. Where a variable stands on either side, `meet` takes over.
Types that are the same are left alone. -/
def unifyParts (meet : Ty → Ty → SessionM Bool) (site : Site) : Ty → Ty → SessionM Bool
  | .var id, second => meet (.var id) second
  | first, .var id => meet first (.var id)
  | .prim first, .prim second =>
    if first = second then pure true else refuse site (.primitives first second)
  | .array first, .array second =>
    if first = second then pure true else unifyParts meet site first second
  | .fn params result, .fn params' result' =>
    if params = params' ∧ result = result' then pure true
    else if params.length ≠ params'.length then
      refuse site (.parameterCounts params.length params'.length)
    else do
      let sameParams ← unifyAllParts meet site params params'
      let sameResult ← unifyParts meet site result result'
      pure (sameParams && sameResult)
  | first, second => do
    let first ← resolve first
    let second ← resolve second
    refuse site (.shapes first second)

/-- Makes the types of two lists equal one by one, also after one of them could not be made equal.
-/
def unifyAllParts (meet : Ty → Ty → SessionM Bool) (site : Site) :
    List Ty → List Ty → SessionM Bool
  | first :: firsts, second :: seconds => do
    let same ← unifyParts meet site first second
    let sameRest ← unifyAllParts meet site firsts seconds
    pure (same && sameRest)
  | _, _ => pure true

end

/-- Makes two types equal, following variables to at most a number of further variables inside what
they stand for. -/
def unifyWithin (site : Site) : (hops : Nat) → Ty → Ty → SessionM Bool
  | 0, _, _ => do
    onArena (modify Arena.noteEndless)
    pure false
  | hops + 1, first, second => do
    let first ← compress first
    let second ← compress second
    match first, second with
    | .var id, .var id' => if id = id' then pure true else bindVar site id (.var id')
    | .var id, second => bindVar site id second
    | first, .var id => bindVar site id first
    | first, second => unifyParts (unifyWithin site hops) site first second

/-- Makes two types equal, and says whether that succeeded. On a path into the two types each
variable is followed at most once on either side. -/
def unify (site : Site) (first second : Ty) : SessionM Bool := do
  let session ← get
  unifyWithin site (2 * session.arena.size + 2) first second

end ArrowCheck.Session
