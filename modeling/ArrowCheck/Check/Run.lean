/-
This file checks texts and files. A check has three stages: the text is parsed,
its names are checked, and its types are inferred.
-/

import ArrowCheck.Check.Failure
import ArrowCheck.Check.Report
import ArrowCheck.Tree.Parser
import ArrowCheck.Typing.Outcome

namespace ArrowCheck

/-- A file after parsing. -/
structure ParsedSource where
  file : SourceFile
  program : Program

/-- A file after its names were checked. -/
structure ResolvedSource where
  file : SourceFile
  program : Program
  resolution : List Diagnostic

/-- A file after its types were inferred. -/
structure TypedSource where
  file : SourceFile
  program : Program
  programTy : Option Ty
  skipped : Bool

namespace Stage

/-- Parses a file. A text that is not a program is a failure, told with its place. -/
def parse : Stage SourceFile ParsedSource where
  name := "parse"
  run file :=
    match Program.parse file.text with
    | .ok program => pure ⟨file, program⟩
    | .error error =>
      throw ⟨"parse", error.message ++ " at " ++ SourceFile.describe error.span (some file)⟩

/-- Checks the names of a program. What is found is handed on and not yet collected. -/
def resolve : Stage ParsedSource ResolvedSource where
  name := "resolve"
  run source := pure ⟨source.file, source.program, source.program.nameFaults⟩

/-- Infers the types of a program in a new session. -/
def typing (lossy : Bool) : Stage ResolvedSource TypedSource where
  name := "typing"
  run source := do
    let ((program, outcome), _) :=
      (Session.inferResolved source.program source.resolution).run (Session.new lossy)
    collect outcome.diagnostics
    pure ⟨source.file, program, outcome.programTy, outcome.skipped⟩

end Stage

namespace Chain

/-- The first stage. -/
def toParsed : Chain SourceFile ParsedSource :=
  empty.add Stage.parse

/-- The first two stages. -/
def toResolved : Chain SourceFile ResolvedSource :=
  toParsed.add Stage.resolve

/-- All three stages. -/
def toTyped (lossy : Bool) : Chain SourceFile TypedSource :=
  toResolved.add (Stage.typing lossy)

end Chain

/-- Checks a file whose text is known. -/
def SourceFile.check (file : SourceFile) (lossy : Bool) : Except CheckError Report :=
  match (Chain.toTyped lossy).start file {} with
  | (.ok typed, collected) =>
    .ok ⟨typed.file, typed.program, collected.items, typed.programTy, typed.skipped⟩
  | (.error error, _) => .error (.failed file.path error)

/-- The bytes of the files that exist, by their paths. -/
abbrev FileStore := String → Option ByteArray

/-- Reads a file. -/
def SourceFile.load (files : FileStore) (path : String) : Except ReadError SourceFile :=
  match files path with
  | none => .error .notFound
  | some bytes =>
    match String.fromUTF8? bytes with
    | some text => .ok ⟨path, text⟩
    | none => .error .notUtf8

/-- Reads a file and checks it. -/
def checkFile (files : FileStore) (path : String) (lossy : Bool) : Except CheckError Report :=
  match SourceFile.load files path with
  | .ok file => file.check lossy
  | .error error => .error (.unreadable path (.io error))

end ArrowCheck
