import KnownIssues.Event
import KnownIssues.Issue
import KnownIssues.KeyLookup
import KnownIssues.Diagnostic
import KnownIssues.Registry

/-!
# Suppressing a batch of diagnostics

A `Suppressor` finds the key of a compilation, asks for the issues of that project, and has every
diagnostic of a registered rule checked against them, in order.  What asks and checks may keep a
state of any type `σ`.

What comes of the diagnostics is kept in a `Tally`: those that were suppressed and how many there
are, the first fault, and what was told.  One diagnostic that cannot be checked keeps none of the
others from being suppressed; its fault is told at the end.
-/

namespace KnownIssues

/-- A suppressed diagnostic and the descriptor of its rule. -/
structure Suppression where
  descriptor : Descriptor
  diagnostic : Diagnostic
  deriving DecidableEq, Repr

/-- What comes of a batch: how many diagnostics were suppressed or the first fault, the suppressions
themselves, and what was told. -/
structure Report where
  outcome : Except Fault Nat
  suppressions : List Suppression
  events : List Event

/-- Nothing is suppressed, for the reason told. -/
def Report.nothing (reason : Event) : Report :=
  ⟨.ok 0, [], [reason]⟩

/-- What has come of a batch so far. -/
structure Tally where
  suppressions : Array Suppression
  count : Nat
  firstFault : Option Fault
  events : Array Event

namespace Tally

/-- Nothing has come of it yet. -/
def start : Tally :=
  ⟨#[], 0, none, #[]⟩

/-- The tally with the answer for one more diagnostic. -/
def add (t : Tally) (descriptor : Descriptor) (d : Diagnostic) : Except Fault Bool → Tally
  | .ok true =>
    { t with
      suppressions := t.suppressions.push ⟨descriptor, d⟩
      count := t.count + 1
      events := t.events.push (.suppressing d.id d.startLine) }
  | .ok false => t
  | .error e =>
    { t with
      firstFault := t.firstFault.or (some e)
      events := t.events.push (.cannotMatch d.id e) }

/-- The report at the end of a batch of `total` diagnostics. -/
def report (t : Tally) (key : ProjectKey) (total : Nat) : Report where
  outcome :=
    match t.firstFault with
    | some e => .error e
    | none => .ok t.count
  suppressions := t.suppressions.toList
  events := (t.events.push (.suppressed t.count total key)).toList

end Tally

/-- What finds the key, has the issues, checks a diagnostic, and names the rules. -/
structure Suppressor (σ : Type) where
  locate : Compilation → Option ProjectKey
  candidates : ProjectKey → σ → List Issue × σ
  check : List Issue → Diagnostic → σ → Except Fault Bool × σ
  registry : Registry

namespace Suppressor

variable {σ : Type}

/-- Checks the diagnostics of registered rules one after another. -/
def tally (p : Suppressor σ) (issues : List Issue) : List Diagnostic → Tally → σ → Tally × σ
  | [], t, s => (t, s)
  | d :: ds, t, s =>
    match p.registry.get? d.id with
    | none => p.tally issues ds t s
    | some descriptor =>
      let (answer, s) := p.check issues d s
      p.tally issues ds (t.add descriptor d answer) s

/-- Suppresses a batch of diagnostics. -/
def report (p : Suppressor σ) (c : Compilation) (batch : List Diagnostic) (s : σ) : Report × σ :=
  match p.locate c with
  | none => (.nothing .noKey, s)
  | some key =>
    match p.candidates key s with
    | ([], s) => (.nothing (.noIssues key), s)
    | (issues, s) =>
      let (t, s) := p.tally issues batch .start s
      (t.report key batch.length, s)

end Suppressor

end KnownIssues
