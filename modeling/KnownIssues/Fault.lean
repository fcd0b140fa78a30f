import KnownIssues.Json.Fault
import KnownIssues.Path

/-!
# Faults

All that can go wrong, with its wording.  That there is no key, no file or no match is no fault.

The faults of a disk are those of files and directories alone.  A system knows more of them, for
links that go round, for missing permissions, for a full or broken device; none of these is here.
-/

namespace KnownIssues

/-- Why a file or a directory cannot be used. -/
inductive DiskFault where
  | notFound
  | fileExists
  | notADirectory
  | isADirectory
  | nameTooLong
  | zeroByte
  | notUtf8
  deriving DecidableEq, Repr

/-- The wording of a disk fault. -/
def DiskFault.message : DiskFault → String
  | notFound => "No such file or directory (os error 2)"
  | fileExists => "File exists (os error 17)"
  | notADirectory => "Not a directory (os error 20)"
  | isADirectory => "Is a directory (os error 21)"
  | nameTooLong => "File name too long (os error 36)"
  | zeroByte => "file name contained an unexpected NUL byte"
  | notUtf8 => "stream did not contain valid UTF-8"

/-- What can go wrong. -/
inductive Fault where
  /-- A diagnostic ends on a line that its source does not have. -/
  | lineOutOfRange (line lineCount : Nat)
  /-- A rule without an id cannot be registered. -/
  | emptyRuleId
  | disk (cause : DiskFault)
  /-- A file of issues that does not hold any. -/
  | invalidFile (path : Path) (reason : Json.Fault)
  deriving DecidableEq, Repr

/-- The wording of a fault. -/
def Fault.message : Fault → String
  | lineOutOfRange line lineCount =>
    "line " ++ toString line ++ " is out of range: source has " ++ toString lineCount ++ " line(s)"
  | emptyRuleId => "cannot register a suppression for an empty rule id"
  | disk cause => "IO error: " ++ cause.message
  | invalidFile path reason => "Invalid settings file " ++ path.shown ++ ": " ++ reason.message

end KnownIssues
