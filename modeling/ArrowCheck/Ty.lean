/-
This file defines the types that inference works with: variables, primitive
types, functions and arrays. A variable is only a number here; what it stands
for is recorded elsewhere, so types are plain values that can be compared and
copied.
-/

namespace ArrowCheck

/-- The types without parts. -/
inductive Primitive where
  | number
  | float
  | bool
  | string
  | void
deriving DecidableEq, Repr, Inhabited

/-- The name by which a primitive type is shown. -/
def Primitive.name : Primitive → String
  | .number => "Number"
  | .float => "Float"
  | .bool => "Bool"
  | .string => "String"
  | .void => "Void"

/-- A type variable, numbered in the order of creation. -/
abbrev VarId := Nat

/-- A type term. -/
inductive Ty where
  | var (id : VarId)
  | prim (primitive : Primitive)
  | fn (params : List Ty) (result : Ty)
  | array (element : Ty)
deriving Repr, Inhabited

namespace Ty

abbrev number : Ty := prim .number

abbrev float : Ty := prim .float

abbrev bool : Ty := prim .bool

abbrev string : Ty := prim .string

abbrev void : Ty := prim .void

/-! ### Equality -/

mutual

/-- Equality of types is decided part by part. -/
def decideEq : (first second : Ty) → Decidable (first = second)
  | .var first, .var second =>
    if same : first = second then isTrue (same ▸ rfl)
    else isFalse fun equal => same (var.inj equal)
  | .prim first, .prim second =>
    if same : first = second then isTrue (same ▸ rfl)
    else isFalse fun equal => same (prim.inj equal)
  | .fn params result, .fn params' result' =>
    match decideEqAll params params', decideEq result result' with
    | isTrue same, isTrue same' => isTrue (same ▸ same' ▸ rfl)
    | isFalse other, _ => isFalse fun equal => other (fn.inj equal).1
    | _, isFalse other => isFalse fun equal => other (fn.inj equal).2
  | .array first, .array second =>
    match decideEq first second with
    | isTrue same => isTrue (same ▸ rfl)
    | isFalse other => isFalse fun equal => other (array.inj equal)
  | .var _, .prim _ | .var _, .fn _ _ | .var _, .array _
  | .prim _, .var _ | .prim _, .fn _ _ | .prim _, .array _
  | .fn _ _, .var _ | .fn _ _, .prim _ | .fn _ _, .array _
  | .array _, .var _ | .array _, .prim _ | .array _, .fn _ _ => isFalse nofun

/-- Equality of lists of types is decided member by member. -/
def decideEqAll : (first second : List Ty) → Decidable (first = second)
  | [], [] => isTrue rfl
  | head :: tail, head' :: tail' =>
    match decideEq head head', decideEqAll tail tail' with
    | isTrue same, isTrue same' => isTrue (same ▸ same' ▸ rfl)
    | isFalse other, _ => isFalse fun equal => other (List.cons.inj equal).1
    | _, isFalse other => isFalse fun equal => other (List.cons.inj equal).2
  | [], _ :: _ | _ :: _, [] => isFalse nofun

end

instance : DecidableEq Ty := decideEq

/-! ### Variables -/

mutual

/-- The variables of a type from left to right, each as often as it occurs. -/
def vars : Ty → List VarId
  | .var id => [id]
  | .prim _ => []
  | .fn params result => varsAll params ++ vars result
  | .array element => vars element

/-- The variables of a list of types from left to right. -/
def varsAll : List Ty → List VarId
  | [] => []
  | head :: tail => vars head ++ varsAll tail

end

/-! ### Walks -/

mutual

/-- A type with each variable replaced by what an action gives for it, from left to right. -/
def mapVars {m : Type → Type} [Monad m] (replace : VarId → m Ty) : Ty → m Ty
  | .var id => replace id
  | .prim primitive => pure (.prim primitive)
  | .fn params result => do
    let params ← mapVarsAll replace params
    let result ← mapVars replace result
    pure (.fn params result)
  | .array element => do
    let element ← mapVars replace element
    pure (.array element)

/-- A list of types with each variable replaced, from left to right. -/
def mapVarsAll {m : Type → Type} [Monad m] (replace : VarId → m Ty) : List Ty → m (List Ty)
  | [] => pure []
  | head :: tail => do
    let head ← mapVars replace head
    let tail ← mapVarsAll replace tail
    pure (head :: tail)

end

mutual

/-- Whether an action accepts a variable of a type. Variables are tried from left to right, and none
after the first that is accepted. -/
def anyVar {m : Type → Type} [Monad m] (accept : VarId → m Bool) : Ty → m Bool
  | .var id => accept id
  | .prim _ => pure false
  | .fn params result => do
    if ← anyVarAll accept params then pure true else anyVar accept result
  | .array element => anyVar accept element

/-- Whether an action accepts a variable of a list of types. -/
def anyVarAll {m : Type → Type} [Monad m] (accept : VarId → m Bool) : List Ty → m Bool
  | [] => pure false
  | head :: tail => do
    if ← anyVar accept head then pure true else anyVarAll accept tail

end

/-! ### Text -/

/-- The name of a variable: `a` to `z`, then `a1` to `z1`, and so on. -/
def varName (id : VarId) : String :=
  let letter := String.singleton (Char.ofNat ('a'.toNat + id % 26))
  if id / 26 = 0 then letter else letter ++ (id / 26).repr

mutual

/-- The text of a type. -/
def text : Ty → String
  | .var id => varName id
  | .prim primitive => primitive.name
  | .fn params result => "(" ++ ", ".intercalate (textAll params) ++ ") -> " ++ text result
  | .array element => "Array<" ++ text element ++ ">"

/-- The texts of a list of types. -/
def textAll : List Ty → List String
  | [] => []
  | head :: tail => text head :: textAll tail

end

end Ty

end ArrowCheck
