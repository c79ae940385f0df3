/-
This file is the command line itself: it reads the arguments, the environment and
the files, and prints what the run gives.
-/

import ArrowCheck.Command.Run

namespace ArrowCheck.Command

/-- The environment variable that switches lossy checks on. -/
def lossyVariable : String :=
  "TERN_LOSSY"

/-- The bytes of a file, if it can be read. -/
def readBytes? (path : String) : IO (Option ByteArray) := do
  try
    let bytes ← IO.FS.readBinFile path
    pure (some bytes)
  catch _ => pure none

/-- The bytes of those files that can be read, by their paths. -/
def readFiles (paths : List String) : IO FileStore := do
  let contents ← paths.mapM fun path => do
    let bytes ← readBytes? path
    pure (path, bytes)
  pure fun path => (contents.lookup path).join

end ArrowCheck.Command

open ArrowCheck.Command in
/-- Checks the files named in the arguments. -/
def main (arguments : List String) : IO UInt32 := do
  match Options.parse arguments with
  | .error error =>
    IO.eprintln error.message
    pure failureExit.toUInt32
  | .ok options =>
    let files ← readFiles options.files
    let setting ← IO.getEnv lossyVariable
    let finished := run files setting options
    IO.eprint finished.err
    IO.print finished.out
    pure finished.exit.toUInt32
