/-
This file types binary operators.
-/

import ArrowCheck.Typing.Unify

namespace ArrowCheck.Session

/-- Requires both operands to be numbers. -/
def requireNumbers (left right : Ty) (span : Option Span) : SessionM Unit := do
  let _ ← unify { span := span } left .number
  let _ ← unify { span := span } right .number

/-- The type of a sum or of two strings put together. Operands of which nothing is known are taken
to be numbers. -/
def solveAdd (left right : Ty) (span : Option Span) : SessionM Ty := do
  let left' ← compress left
  let right' ← compress right
  match decide (left' = .string), decide (right' = .string) with
  | true, true => pure .string
  | false, false => do
    requireNumbers left right span
    pure .number
  | _, _ => do
    report .concatenation span
    pure .string

/-- The type of a binary operator between operands of given types. -/
def solveBinary (operator : Operator) (left right : Ty) (span : Option Span) : SessionM Ty := do
  match operator with
  | .add => solveAdd left right span
  | .sub | .mul | .div =>
    requireNumbers left right span
    pure .number
  | .greater | .less | .greaterEqual | .lessEqual =>
    requireNumbers left right span
    pure .bool
  | .equal | .unequal =>
    let _ ← unify { span := span } left right
    pure .bool
  | .mod | .strictEqual | .strictUnequal | .and | .or =>
    report (.operator operator) span
    fresh

end ArrowCheck.Session
