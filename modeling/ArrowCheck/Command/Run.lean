/-
This file runs the command line: it checks files in order and gives what is to be
printed. A file that gives no report stops the run, and what was printed before
it stays printed.
-/

import ArrowCheck.Check.Run
import ArrowCheck.Command.Options

namespace ArrowCheck.Command

/-- What a run printed, and whether it went well. -/
structure Transcript where
  out : String := ""
  err : String := ""
  clean : Bool := true
deriving DecidableEq, Repr, Inhabited

namespace Transcript

/-- A text with a line break after it. -/
def line (text : String) : String :=
  text ++ "\n"

/-- A transcript with the report of one more file. -/
def add (transcript : Transcript) (options : Options) (report : Report) : Transcript :=
  let display := if options.pretty then Diagnostic.Display.pretty else Diagnostic.Display.plain
  let err := if report.diagnostics.isEmpty then "" else line (report.render display)
  let out :=
    match options.output.getD .types with
    | .types => if report.renderBindings.isEmpty then "" else line report.renderBindings
    | .json => line report.json
  { out := transcript.out ++ out
    err := transcript.err ++ err
    clean := transcript.clean && !report.hasErrors }

end Transcript

/-- The transcript of checking files in order, and the failure that stopped the run if there was
one. -/
def checkAll (files : FileStore) (options : Options) (lossy : Bool) :
    Transcript → List String → Transcript × Option CheckError
  | transcript, [] => (transcript, none)
  | transcript, path :: rest =>
    match checkFile files path lossy with
    | .ok report => checkAll files options lossy (transcript.add options report) rest
    | .error error => (transcript, some error)

/-- How a run ended. -/
structure Finished where
  exit : Nat
  out : String
  err : String
deriving DecidableEq, Repr, Inhabited

/-- The exit code of a run that could not be carried out. -/
def failureExit : Nat :=
  2

/-- Runs the command line on files that exist. The setting is the value of the environment variable
that switches lossy checks on, if it is set. -/
def run (files : FileStore) (setting : Option String) (options : Options) : Finished :=
  let lossy := options.lossy || setting.any isOn
  match checkAll files options lossy {} options.files with
  | (transcript, none) => ⟨if transcript.clean then 0 else 1, transcript.out, transcript.err⟩
  | (transcript, some _) => ⟨failureExit, transcript.out, transcript.err⟩

end ArrowCheck.Command
