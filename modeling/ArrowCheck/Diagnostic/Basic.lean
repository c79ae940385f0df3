/-
This file defines diagnostics: what the checker has to say about a program,
where, how severe it is, and which part of the checker says it.
-/

import ArrowCheck.Source

namespace ArrowCheck

/-- How severe a diagnostic is. -/
inductive Level where
  | warning
  | error
deriving DecidableEq, Repr, Inhabited

/-- One remark about a program. -/
structure Diagnostic where
  level : Level
  message : String
  span : Option Span := none
  /-- The part of the checker that made the remark. -/
  context : Option String := none
  /-- A short name for the kind of remark. -/
  code : Option String := none
deriving DecidableEq, Repr, Inhabited

namespace Diagnostic

/-- Whether a remark is an error. -/
def isError (diagnostic : Diagnostic) : Bool :=
  diagnostic.level = .error

/-- The place of a remark when the text is not at hand. -/
def location (diagnostic : Diagnostic) : String :=
  SourceFile.describe diagnostic.span none

/-- A remark on one line. -/
def text (diagnostic : Diagnostic) : String :=
  diagnostic.message ++ " at " ++ diagnostic.location ++
    (match diagnostic.code with
      | some code => " [" ++ code ++ "]"
      | none => "")

/-- Whether there is an error among remarks. -/
def anyError (diagnostics : List Diagnostic) : Bool :=
  diagnostics.any isError

end Diagnostic

end ArrowCheck
