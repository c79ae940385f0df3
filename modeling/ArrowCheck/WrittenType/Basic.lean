/-
This file defines written types: the types that a program states for a constant,
a parameter or a result. They are kept as they were written, with their places.
What they mean to inference is decided elsewhere.
-/

import ArrowCheck.Json
import ArrowCheck.Span

namespace ArrowCheck

/-- A type as a program states it. -/
inductive WrittenType where
  | named (name : String) (span : Option Span)
  | array (element : WrittenType) (span : Option Span)
  | function (params : List WrittenType) (result : WrittenType) (span : Option Span)
deriving Repr, Inhabited

namespace WrittenType

/-- The place of a written type. -/
def span : WrittenType → Option Span
  | .named _ span | .array _ span | .function _ _ span => span

/-- Whether a written type is a function type. -/
def isFunction : WrittenType → Bool
  | .function _ _ _ => true
  | _ => false

mutual

/-- The text of a written type. A function type is put in parentheses where it is the element of an
array, since it would swallow the brackets otherwise. -/
def text : WrittenType → String
  | .named name _ => name
  | .array element _ =>
    if element.isFunction then "(" ++ text element ++ ")[]" else text element ++ "[]"
  | .function params result _ =>
    "(" ++ ", ".intercalate (textAll params) ++ ") => " ++ text result

/-- The texts of a list of written types. -/
def textAll : List WrittenType → List String
  | [] => []
  | head :: tail => text head :: textAll tail

end

end WrittenType

/-- A span as a JSON value. -/
def Span.toJson (span : Span) : Json :=
  .object [("lo", .nat span.lo.toNat), ("hi", .nat span.hi.toNat)]

/-- The member for a span, which is left out when there is none. -/
def Span.members : Option Span → List (String × Json)
  | some span => [("span", span.toJson)]
  | none => []

namespace WrittenType

mutual

/-- A written type as a JSON value. -/
def toJson : WrittenType → Json
  | .named name span =>
    .object ([("kind", .string "Named"), ("name", .string name)] ++ Span.members span)
  | .array element span =>
    .object ([("kind", .string "Array"), ("element", toJson element)] ++ Span.members span)
  | .function params result span =>
    .object ([("kind", .string "Function"), ("params", .array (toJsonAll params)),
      ("ret", toJson result)] ++ Span.members span)

/-- A list of written types as JSON values. -/
def toJsonAll : List WrittenType → List Json
  | [] => []
  | head :: tail => toJson head :: toJsonAll tail

end

end WrittenType

end ArrowCheck
