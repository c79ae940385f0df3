/-
This file defines the tree of a program: expressions, statements, and the
program as a list of statements. Every node that denotes a value has a slot for
its type, which is empty until inference fills it.
-/

import ArrowCheck.Numeric.Binary64
import ArrowCheck.Operator
import ArrowCheck.Ty
import ArrowCheck.WrittenType.Basic

namespace ArrowCheck

/-- What a node carries besides its parts: its place, and its type once that is known. -/
structure Info where
  span : Option Span := none
  ty : Option Ty := none
deriving DecidableEq, Repr, Inhabited

/-- A parameter of an arrow function. -/
structure Param where
  name : String
  declared : Option WrittenType := none
  info : Info := {}
deriving Repr, Inhabited

mutual

/-- An expression. -/
inductive Expr where
  | number (value : Binary64) (info : Info)
  | string (value : String) (info : Info)
  | bool (value : Bool) (info : Info)
  | ident (name : String) (info : Info)
  | binary (operator : Operator) (left right : Expr) (info : Info)
  | conditional (test consequent alternate : Expr) (info : Info)
  | arrow (params : List Param) (result : Option WrittenType) (body : Body) (info : Info)
  | call (callee : Expr) (arguments : List Expr) (info : Info)
  | array (elements : List Expr) (info : Info)
  | index (object position : Expr) (info : Info)

/-- The body of an arrow function: its value, or statements that end in a return. -/
inductive Body where
  | value (value : Expr)
  | block (statements : List Stmt)

/-- A statement. -/
inductive Stmt where
  | const (name : String) (declared : Option WrittenType) (init : Expr) (info : Info)
  | return (argument : Option Expr) (info : Info)
  | expr (value : Expr)

end

instance : Inhabited Expr := ⟨.bool false {}⟩

instance : Inhabited Stmt := ⟨.expr default⟩

/-- A program. -/
structure Program where
  body : List Stmt
  info : Info := {}
deriving Inhabited

namespace Expr

/-- The place and type of an expression. -/
def info : Expr → Info
  | .number _ info | .string _ info | .bool _ info | .ident _ info | .binary _ _ _ info
  | .conditional _ _ _ info | .arrow _ _ _ info | .call _ _ info | .array _ info
  | .index _ _ info => info

/-- An expression with another place and type. -/
def withInfo (info : Info) : Expr → Expr
  | .number value _ => .number value info
  | .string value _ => .string value info
  | .bool value _ => .bool value info
  | .ident name _ => .ident name info
  | .binary operator left right _ => .binary operator left right info
  | .conditional test consequent alternate _ => .conditional test consequent alternate info
  | .arrow params result body _ => .arrow params result body info
  | .call callee arguments _ => .call callee arguments info
  | .array elements _ => .array elements info
  | .index object position _ => .index object position info

/-- The place of an expression. -/
def span (expr : Expr) : Option Span :=
  expr.info.span

/-- The type of an expression, once it is known. -/
def ty (expr : Expr) : Option Ty :=
  expr.info.ty

/-- An expression moved to another place. -/
def withSpan (span : Option Span) (expr : Expr) : Expr :=
  expr.withInfo { expr.info with span := span }

/-- The name of an expression's kind. -/
def kind : Expr → String
  | .number _ _ => "NumericLiteral"
  | .string _ _ => "StringLiteral"
  | .bool _ _ => "BooleanLiteral"
  | .ident _ _ => "Identifier"
  | .binary _ _ _ _ => "BinaryExpression"
  | .conditional _ _ _ _ => "ConditionalExpression"
  | .arrow _ _ _ _ => "ArrowFunctionExpression"
  | .call _ _ _ => "CallExpression"
  | .array _ _ => "ArrayLiteral"
  | .index _ _ _ => "MemberExpression"

end Expr

namespace Stmt

/-- The place and type of a statement. -/
def info : Stmt → Info
  | .const _ _ _ info | .return _ info => info
  | .expr value => value.info

/-- The place of a statement. -/
def span (stmt : Stmt) : Option Span :=
  stmt.info.span

/-- The type of a statement, once it is known. -/
def ty (stmt : Stmt) : Option Ty :=
  stmt.info.ty

/-- Whether a statement is a return. -/
def isReturn : Stmt → Bool
  | .return _ _ => true
  | _ => false

/-- The name of a statement's kind. -/
def kind : Stmt → String
  | .const _ _ _ _ => "ConstDeclaration"
  | .return _ _ => "ReturnStatement"
  | .expr value => value.kind

end Stmt

/-- A constant that a program declares at its top level. -/
structure Declaration where
  name : String
  declared : Option WrittenType
  init : Expr
  info : Info

namespace Program

/-- The constants that a program declares at its top level, in the order of the text. -/
def declarations (program : Program) : List Declaration :=
  program.body.filterMap fun
    | .const name declared init info => some ⟨name, declared, init, info⟩
    | _ => none

/-- The first declaration of a name. -/
def declaration? (program : Program) (name : String) : Option Declaration :=
  program.declarations.find? (·.name == name)

end Program

end ArrowCheck
