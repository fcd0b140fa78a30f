import KnownIssues.Fault
import KnownIssues.ProjectKey

/-!
# Events

What the library tells its log.  Each event has a level and a wording.
-/

namespace KnownIssues

/-- How much an event matters. -/
inductive Level where
  | trace
  | debug
  | warn
  deriving DecidableEq, Repr

/-- The name of a level. -/
def Level.label : Level → String
  | trace => "TRACE"
  | debug => "DEBUG"
  | warn => "WARN"

/-- What is told. -/
inductive Event where
  /-- The cache takes over a list of issues. -/
  | updating (count : Nat) (key : ProjectKey)
  | noFile (key : ProjectKey)
  | loadFailed (key : ProjectKey) (fault : Fault)
  | noKey
  | noIssues (key : ProjectKey)
  | suppressing (id : String) (line : UInt64)
  | cannotMatch (id : String) (fault : Fault)
  /-- A batch of diagnostics is done. -/
  | suppressed (count total : Nat) (key : ProjectKey)
  deriving DecidableEq

namespace Event

/-- The level of an event. -/
def level : Event → Level
  | suppressing .. => .trace
  | loadFailed .. | cannotMatch .. => .warn
  | _ => .debug

/-- The wording of an event. -/
def message : Event → String
  | updating count key =>
    "Updating " ++ toString count ++ " suppressed issue(s) for '" ++ key.text ++ "'"
  | noFile key => "No suppression settings file for '" ++ key.text ++ "'"
  | loadFailed key fault =>
    "Failed to load suppression settings for '" ++ key.text ++ "': " ++ fault.message
  | noKey => "No suppression settings key configured; skipping"
  | noIssues key => "No suppressed issues for '" ++ key.text ++ "'"
  | suppressing id line => "Suppressing " ++ id ++ " at line " ++ toString line.toNat
  | cannotMatch id fault => "Cannot match " ++ id ++ ": " ++ fault.message
  | suppressed count total key =>
    "Suppressed " ++ toString count ++ " of " ++ toString total ++ " diagnostic(s) for '"
      ++ key.text ++ "'"

/-- The line of the log. -/
def line (e : Event) : String :=
  e.level.label ++ " " ++ e.message

end Event

end KnownIssues
