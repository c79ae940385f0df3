/-
This file reads the arguments of the command line. Flags may stand anywhere
among the paths of files; after two hyphens alone everything is a path. Every
flag but the one for more log messages may be given only once.
-/

import ArrowCheck.Text.Blank

namespace ArrowCheck.Command

/-- What is printed for a file. -/
inductive Output where
  | types
  | json
deriving DecidableEq, Repr, Inhabited

/-- The output with a given name. -/
def Output.ofText? : String → Option Output
  | "types" => some .types
  | "json" => some .json
  | _ => none

/-- What the command line asks for. -/
structure Options where
  files : List String := []
  lossy : Bool := false
  pretty : Bool := false
  output : Option Output := none
  /-- How much is logged. -/
  verbosity : Nat := 0
deriving DecidableEq, Repr, Inhabited

/-- Why arguments cannot be understood. -/
inductive UsageError where
  | noFile
  | emptyPath
  | unknownFlag (text : String)
  | repeatedFlag (name : String)
  | unexpectedValue (name : String)
  | missingValue (name : String)
  | invalidValue (name value : String)
deriving DecidableEq, Repr, Inhabited

/-- The wording of a usage error. -/
def UsageError.message : UsageError → String
  | .noFile => "a source file is required"
  | .emptyPath => "a path is empty"
  | .unknownFlag text => "unknown argument '" ++ text ++ "'"
  | .repeatedFlag name => "'--" ++ name ++ "' is given more than once"
  | .unexpectedValue name => "'--" ++ name ++ "' takes no value"
  | .missingValue name => "'--" ++ name ++ "' needs a value"
  | .invalidValue name value => "'" ++ value ++ "' is no value for '--" ++ name ++ "'"

namespace Options

/-- Adds a path. -/
def addFile (options : Options) (path : String) : Except UsageError Options :=
  if path.isEmpty then .error .emptyPath
  else .ok { options with files := options.files ++ [path] }

/-- Adds paths. -/
def addFiles (options : Options) : List String → Except UsageError Options
  | [] => .ok options
  | path :: rest => do
    let options ← options.addFile path
    options.addFiles rest

/-- Takes the value of the output flag. -/
def setOutput (options : Options) (value : String) : Except UsageError Options :=
  if options.output.isSome then .error (.repeatedFlag "output")
  else
    match Output.ofText? value with
    | some output => .ok { options with output := some output }
    | none => .error (.invalidValue "output" value)

/-- Takes a flag that has no value. -/
def setFlag (options : Options) (name : String) : Except UsageError Options :=
  match name with
  | "lossy" =>
    if options.lossy then .error (.repeatedFlag name) else .ok { options with lossy := true }
  | "pretty" =>
    if options.pretty then .error (.repeatedFlag name) else .ok { options with pretty := true }
  | "verbose" => .ok { options with verbosity := options.verbosity + 1 }
  | _ => .error (.unknownFlag ("--" ++ name))

/-- Takes a flag whose value stands behind an equals sign. -/
def setValue (options : Options) (name value : String) : Except UsageError Options :=
  match name with
  | "output" => options.setOutput value
  | "lossy" | "pretty" | "verbose" => .error (.unexpectedValue name)
  | _ => .error (.unknownFlag ("--" ++ name))

/-- Takes short flags that share one hyphen. -/
def setShort (options : Options) : List Char → Except UsageError Options
  | [] => .ok options
  | 'v' :: rest => { options with verbosity := options.verbosity + 1 }.setShort rest
  | char :: _ => .error (.unknownFlag (String.ofList ['-', char]))

/-- Whether an argument looks like a flag: a hyphen with something behind it. -/
def isFlag (argument : String) : Bool :=
  match argument.toList with
  | '-' :: _ :: _ => true
  | _ => false

/-- Takes arguments from left to right. -/
def takeAll (options : Options) : List String → Except UsageError Options
  | [] => .ok options
  | "--" :: rest => options.addFiles rest
  | "--output" :: value :: rest => do
    if isFlag value then throw (.missingValue "output")
    let options ← options.setOutput value
    options.takeAll rest
  | ["--output"] => .error (.missingValue "output")
  | argument :: rest => do
    let options ←
      match argument.toList with
      | '-' :: '-' :: flag =>
        match flag.dropWhile (· ≠ '=') with
        | _ :: value =>
          options.setValue (String.ofList (flag.takeWhile (· ≠ '='))) (String.ofList value)
        | [] => options.setFlag (String.ofList flag)
      | '-' :: char :: flags => options.setShort (char :: flags)
      | _ => options.addFile argument
    options.takeAll rest

/-- What arguments ask for. At least one file is needed. -/
def parse (arguments : List String) : Except UsageError Options := do
  let options ← takeAll {} arguments
  if options.files.isEmpty then throw .noFile
  pure options

end Options

/-- The words that switch something off in an environment variable. -/
def offWords : List String :=
  ["0", "false", "FALSE", "False"]

/-- Whether the value of an environment variable switches something on: it is not blank, and not one
of the words for switching off. -/
def isOn (value : String) : Bool :=
  let trimmed := Text.trim value
  !trimmed.isEmpty && !offWords.contains trimmed

end ArrowCheck.Command
