/-
This file defines the binary operators of the language: how each is written and
how tightly it binds.
-/

namespace ArrowCheck

/-- The binary operators. -/
inductive Operator where
  | add
  | sub
  | mul
  | div
  | mod
  | greater
  | less
  | greaterEqual
  | lessEqual
  | equal
  | unequal
  | strictEqual
  | strictUnequal
  | and
  | or
deriving DecidableEq, Repr, Inhabited

namespace Operator

/-- All operators. -/
def all : List Operator :=
  [.add, .sub, .mul, .div, .mod, .greater, .less, .greaterEqual, .lessEqual, .equal, .unequal,
    .strictEqual, .strictUnequal, .and, .or]

/-- How an operator is written. -/
def text : Operator → String
  | .add => "+"
  | .sub => "-"
  | .mul => "*"
  | .div => "/"
  | .mod => "%"
  | .greater => ">"
  | .less => "<"
  | .greaterEqual => ">="
  | .lessEqual => "<="
  | .equal => "=="
  | .unequal => "!="
  | .strictEqual => "==="
  | .strictUnequal => "!=="
  | .and => "&&"
  | .or => "||"

/-- How tightly an operator binds; a larger number binds tighter. -/
def precedence : Operator → Nat
  | .or => 1
  | .and => 2
  | .equal | .unequal | .strictEqual | .strictUnequal => 3
  | .greater | .less | .greaterEqual | .lessEqual => 4
  | .add | .sub => 5
  | .mul | .div | .mod => 6

/-- The operator that is written in a given way. -/
def ofText? (text : String) : Option Operator :=
  all.find? fun operator => operator.text == text

end Operator

end ArrowCheck
