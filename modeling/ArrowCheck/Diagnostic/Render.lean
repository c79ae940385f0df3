/-
This file renders diagnostics as lines of text. The plain template has two
lines. The pretty template can also show the line of source text that the
diagnostic is about, with a row of carets under the place.
-/

import ArrowCheck.Diagnostic.Basic

namespace ArrowCheck.Diagnostic

/-- The shapes in which a diagnostic can be shown. -/
inductive Template where
  | pretty
  | plain
deriving DecidableEq, Repr, Inhabited

/-- What a rendering shows. -/
structure Display where
  template : Template
  showSourceLine : Bool
deriving DecidableEq, Repr

namespace Display

/-- The pretty template with the line of source text. -/
def pretty : Display :=
  ⟨.pretty, true⟩

/-- The plain template. -/
def plain : Display :=
  ⟨.plain, false⟩

instance : Inhabited Display := ⟨plain⟩

end Display

/-- The context named for a diagnostic that has none. -/
def defaultContext : String :=
  "tern"

/-- A character repeated. -/
def repeated (char : Char) (count : Nat) : String :=
  String.ofList (List.replicate count char)

/-- The source line under a pretty diagnostic: an empty gutter, the line, and the row of carets. -/
def sourceLines (place : LineSpan) : List String :=
  let gutter := place.line.repr
  let pad := repeated ' ' gutter.length
  let width := max (place.endColumn - place.firstColumn) 1
  [pad ++ " |",
    gutter ++ " | " ++ place.text,
    pad ++ " | " ++ repeated ' ' (place.firstColumn - 1) ++ repeated '^' width]

/-- The lines of the pretty template. -/
def renderPretty (diagnostic : Diagnostic) (file : Option SourceFile) (showSourceLine : Bool) :
    List String :=
  let level :=
    match diagnostic.level with
    | .error => "error"
    | .warning => "warning"
  let code :=
    match diagnostic.code with
    | some code => "[" ++ code ++ "]"
    | none => ""
  let place := do
    let span ← diagnostic.span
    let file ← file
    file.spanOnLine? span
  [level ++ code ++ ": " ++ diagnostic.message,
    "  --> " ++ SourceFile.describe diagnostic.span file] ++
    (match showSourceLine, place with
      | true, some place => sourceLines place
      | _, _ => [])

/-- The lines of the plain template. -/
def renderPlain (diagnostic : Diagnostic) (file : Option SourceFile) : List String :=
  let level :=
    match diagnostic.level with
    | .error => "ERROR"
    | .warning => "WARNING"
  let code :=
    match diagnostic.code with
    | some code => " (" ++ code ++ ")"
    | none => ""
  ["[" ++ diagnostic.context.getD defaultContext ++ "] " ++ level ++ ": " ++ diagnostic.message ++
      code,
    "   at " ++ SourceFile.describe diagnostic.span file]

/-- The lines of a diagnostic as a display shows them. -/
def render (diagnostic : Diagnostic) (file : Option SourceFile) (display : Display) :
    List String :=
  match display.template with
  | .pretty => renderPretty diagnostic file display.showSourceLine
  | .plain => renderPlain diagnostic file

end ArrowCheck.Diagnostic
