/-
This file defines the report of a check: the typed tree of a file together with
everything that was said about it, and the texts made from it.
-/

import ArrowCheck.Diagnostic.Render
import ArrowCheck.Tree.Json

namespace ArrowCheck

/-- The result of checking a file. -/
structure Report where
  file : SourceFile
  program : Program
  diagnostics : List Diagnostic
  programTy : Option Ty
  /-- Whether names were wrong, so that no types were inferred. -/
  skipped : Bool
deriving Inhabited

namespace Report

/-- Whether an error was reported. -/
def hasErrors (report : Report) : Bool :=
  Diagnostic.anyError report.diagnostics

/-- The number of errors. -/
def errorCount (report : Report) : Nat :=
  report.diagnostics.countP Diagnostic.isError

/-- The constants of the top level with the texts of their types, in the order of the text. -/
def bindingTypes (report : Report) : List (String × String) :=
  report.program.declarations.filterMap fun declaration =>
    declaration.info.ty.map fun ty => (declaration.name, ty.text)

/-- All diagnostics as a display shows them. -/
def render (report : Report) (display : Diagnostic.Display) : String :=
  "\n".intercalate (report.diagnostics.flatMap (·.render (some report.file) display))

/-- A line for each constant of the top level. -/
def renderBindings (report : Report) : String :=
  "\n".intercalate (report.bindingTypes.map fun (name, ty) => name ++ ": " ++ ty)

/-- The typed tree as JSON text. -/
def json (report : Report) : String :=
  report.program.toJson.pretty

end Report

end ArrowCheck
