/-
This file defines what can keep a check from giving a report: a file that cannot
be read, and a text that is not a program. Failures are told as a list of causes,
the outermost first.
-/

import ArrowCheck.Check.Stage

namespace ArrowCheck

/-- Why a file cannot be read. -/
inductive ReadError where
  | notFound
  | notUtf8
deriving DecidableEq, Repr, Inhabited

/-- The wording of a reading error. -/
def ReadError.message : ReadError → String
  | .notFound => "No such file or directory (os error 2)"
  | .notUtf8 => "stream did not contain valid UTF-8"

/-- A failure below a check. -/
inductive Failure where
  | io (error : ReadError)
  | general (message : String)
deriving DecidableEq, Repr, Inhabited

namespace Failure

/-- The wording of a failure. -/
def message : Failure → String
  | .io error => "I/O error: " ++ error.message
  | .general message => "Generic error: " ++ message

/-- A failure made of a list of causes, of which it keeps the outermost. -/
def ofCauses (causes : List String) : Failure :=
  .general (causes.headD "")

/-- The wordings of a failure and of its cause. -/
def causes : Failure → List String
  | .io error => [(io error).message, error.message]
  | .general message => [(general message).message]

end Failure

/-- Why a check gives no report. -/
inductive CheckError where
  | unreadable (path : String) (failure : Failure)
  | failed (path : String) (error : StageError)
deriving DecidableEq, Repr, Inhabited

namespace CheckError

/-- The wording of the outermost cause. -/
def message : CheckError → String
  | .unreadable path _ => "failed to read " ++ path
  | .failed path _ => "failed to check " ++ path

/-- The wordings of all causes, the outermost first. -/
def causes : CheckError → List String
  | .unreadable path failure => (unreadable path failure).message :: failure.causes
  | .failed path error => [(failed path error).message, error.text]

end CheckError

end ArrowCheck
