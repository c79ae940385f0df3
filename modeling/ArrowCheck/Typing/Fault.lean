/-
This file lists what inference can complain about, and what it can ask for when
it makes two types equal. All wording of typing diagnostics is here.
-/

import ArrowCheck.Operator
import ArrowCheck.Span
import ArrowCheck.Ty

namespace ArrowCheck

/-- The kinds of typing faults. -/
inductive Fault.Kind where
  | mismatch
  | arity
  | infiniteType
  | unsupported
  | misuse
deriving DecidableEq, Repr, Inhabited

/-- The short name of a kind of fault. -/
def Fault.Kind.code : Fault.Kind → String
  | .mismatch => "type-mismatch"
  | .arity => "arity-mismatch"
  | .infiniteType => "infinite-type"
  | .unsupported => "unsupported"
  | .misuse => "misuse"

/-- What inference can complain about. -/
inductive Fault where
  /-- Two different primitive types should be equal. -/
  | primitives (first second : Primitive)
  /-- Two types of different shape should be equal. -/
  | shapes (first second : Ty)
  /-- Two function types with different numbers of parameters should be equal. -/
  | parameterCounts (first second : Nat)
  /-- A variable should stand for a type that it occurs in. -/
  | infinite (id : VarId) (ty : Ty)
  /-- An operator has no typing rule. -/
  | operator (operator : Operator)
  /-- A string is added to something that is not a string. -/
  | concatenation
  /-- A name has no binding. -/
  | unbound (name : String)
  /-- A function is called with a wrong number of arguments. -/
  | argumentCount (expected given : Nat)
  /-- Something that is not a function is called. -/
  | notFunction (ty : Ty)
  /-- A return is not the last statement of its block. -/
  | earlyReturn
deriving DecidableEq, Repr, Inhabited

namespace Fault

/-- The kind of a fault. -/
def kind : Fault → Kind
  | .primitives _ _ | .shapes _ _ => .mismatch
  | .parameterCounts _ _ | .argumentCount _ _ => .arity
  | .infinite _ _ => .infiniteType
  | .operator _ | .unbound _ | .earlyReturn => .unsupported
  | .concatenation | .notFunction _ => .misuse

/-- The wording of a fault. -/
def message : Fault → String
  | .primitives first second =>
    "type mismatch between `" ++ first.name ++ "` and `" ++ second.name ++ "`"
  | .shapes first second => "cannot unify `" ++ first.text ++ "` with `" ++ second.text ++ "`"
  | .parameterCounts first second =>
    "function arity mismatch: " ++ first.repr ++ " parameter(s) vs " ++ second.repr ++
      " parameter(s)"
  | .infinite id ty =>
    "infinite unification: `" ++ Ty.varName id ++ "` occurs in `" ++ ty.text ++ "`"
  | .operator written => "unsupported binary operator `" ++ written.text ++ "`"
  | .concatenation => "cannot concatenate string with non-string value"
  | .unbound name => "unbound identifier `" ++ name ++ "` reached type inference"
  | .argumentCount expected given =>
    "function expects " ++ expected.repr ++ " argument(s) but was called with " ++ given.repr
  | .notFunction ty => "called value is not a function: `" ++ ty.text ++ "`"
  | .earlyReturn => "`return` must be the last statement of a function body"

end Fault

/-- What two types are made equal for. -/
inductive Demand where
  | boolCondition
  | equalBranches
  | declaredResult
  | argument (position : Nat)
  | equalElements
  | numberIndex
  | arrayIndexed
  | declaredType (name : String)
  | stated (text : String)
deriving DecidableEq, Repr, Inhabited

/-- The wording of a demand. -/
def Demand.text : Demand → String
  | .boolCondition => "ternary condition must be Bool"
  | .equalBranches => "ternary branches must have the same type"
  | .declaredResult => "declared return type"
  | .argument position => "argument " ++ position.repr ++ " of call"
  | .equalElements => "array elements must share one type"
  | .numberIndex => "array index must be Number"
  | .arrayIndexed => "indexed value must be an array"
  | .declaredType name => "declared type of `" ++ name ++ "`"
  | .stated text => text

/-- Where two types are made equal, and what for if that is known. -/
structure Site where
  span : Option Span := none
  demand : Option Demand := none
deriving DecidableEq, Repr, Inhabited

/-- The wording of a fault at a site: what was asked for comes first. -/
def Site.message (site : Site) (fault : Fault) : String :=
  match site.demand with
  | some demand => demand.text ++ ": " ++ fault.message
  | none => fault.message

end ArrowCheck
