/-
This file turns trees into JSON values. A node is an object whose first member
names its kind; then come its parts, its place and its type, the last two only
if they are known.
-/

import ArrowCheck.Tree.Basic

namespace ArrowCheck

/-- The members for place and type. -/
def Info.members (info : Info) : List (String × Json) :=
  Span.members info.span ++
    (match info.ty with
      | some ty => [("inferredType", .string ty.text)]
      | none => [])

/-- The member for a written type, which is left out when there is none. -/
def WrittenType.members (name : String) : Option WrittenType → List (String × Json)
  | some written => [(name, written.toJson)]
  | none => []

/-- A parameter as a JSON value. -/
def Param.toJson (param : Param) : Json :=
  .object ([("name", .string param.name)] ++ WrittenType.members "annotation" param.declared ++
    param.info.members)

mutual

/-- An expression as a JSON value. -/
def Expr.toJson : Expr → Json
  | .number value info =>
    .object ([("type", .string "NumericLiteral"), ("value", .number value)] ++ info.members)
  | .string value info =>
    .object ([("type", .string "StringLiteral"), ("value", .string value)] ++ info.members)
  | .bool value info =>
    .object ([("type", .string "BooleanLiteral"), ("value", .bool value)] ++ info.members)
  | .ident name info =>
    .object ([("type", .string "Identifier"), ("name", .string name)] ++ info.members)
  | .binary operator left right info =>
    .object ([("type", .string "BinaryExpression"), ("operator", .string operator.text),
      ("left", left.toJson), ("right", right.toJson)] ++ info.members)
  | .conditional test consequent alternate info =>
    .object ([("type", .string "ConditionalExpression"), ("test", test.toJson),
      ("consequent", consequent.toJson), ("alternate", alternate.toJson)] ++ info.members)
  | .arrow params result body info =>
    .object ([("type", .string "ArrowFunctionExpression"),
      ("params", .array (params.map Param.toJson))] ++
      WrittenType.members "returnType" result ++ [("body", body.toJson)] ++ info.members)
  | .call callee arguments info =>
    .object ([("type", .string "CallExpression"), ("callee", callee.toJson),
      ("arguments", .array (Expr.toJsonAll arguments))] ++ info.members)
  | .array elements info =>
    .object ([("type", .string "ArrayLiteral"),
      ("elements", .array (Expr.toJsonAll elements))] ++ info.members)
  | .index object position info =>
    .object ([("type", .string "MemberExpression"), ("object", object.toJson),
      ("property", position.toJson)] ++ info.members)

/-- Expressions as JSON values. -/
def Expr.toJsonAll : List Expr → List Json
  | [] => []
  | head :: tail => head.toJson :: Expr.toJsonAll tail

/-- The body of an arrow function as a JSON value: an array for a block. -/
def Body.toJson : Body → Json
  | .value value => value.toJson
  | .block statements => .array (Stmt.toJsonAll statements)

/-- A statement as a JSON value. An expression that stands as a statement is written like any other.
-/
def Stmt.toJson : Stmt → Json
  | .const name declared init info =>
    .object ([("type", .string "ConstDeclaration"), ("name", .string name)] ++
      WrittenType.members "annotation" declared ++ [("init", init.toJson)] ++ info.members)
  | .return (some argument) info =>
    .object ([("type", .string "ReturnStatement"), ("argument", argument.toJson)] ++
      info.members)
  | .return none info => .object ([("type", .string "ReturnStatement")] ++ info.members)
  | .expr value => value.toJson

/-- Statements as JSON values. -/
def Stmt.toJsonAll : List Stmt → List Json
  | [] => []
  | head :: tail => head.toJson :: Stmt.toJsonAll tail

end

/-- A program as a JSON value. -/
def Program.toJson (program : Program) : Json :=
  .object ([("type", .string "Program"), ("body", .array (Stmt.toJsonAll program.body))] ++
    program.info.members)

end ArrowCheck
