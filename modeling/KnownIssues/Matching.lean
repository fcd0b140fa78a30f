import KnownIssues.Diagnostic
import KnownIssues.Fault
import KnownIssues.Fingerprint
import KnownIssues.Issue
import KnownIssues.Text.AsciiCase

/-!
# Matching diagnostics with issues

A diagnostic is settled if one of the issues matches it.  Only an issue with the diagnostic's rule
id, up to letter case, is *relevant*.  A diagnostic about the file as a whole matches an issue
without a range; any other matches an issue that starts on its first line, or whose hash is the hash
of its last line.

The issues are tried in order, up to the first that matches (`judge`).  The last line is hashed when
the first issue asks for its hash, and not again, so a batch over long files hashes little; if the
source has no such line, that is a fault and ends the search.  A `Judgement` tells besides the
verdict which lines were hashed.
-/

namespace KnownIssues

/-- The issue is about the diagnostic's rule. -/
def Issue.concerns (i : Issue) (d : Diagnostic) : Bool :=
  Text.sameIgnoringCase d.id i.rule

/-- The fault of a diagnostic whose last line is not in its source. -/
def Diagnostic.outOfRange (d : Diagnostic) : Fault :=
  .lineOutOfRange d.endLine d.source.lineCount

/-- Whether a diagnostic is settled, and the lines that were hashed to tell. -/
structure Judgement where
  verdict : Except Fault Bool
  hashed : List String

namespace Judgement

/-- A verdict for which nothing more is hashed. -/
def settled (verdict : Except Fault Bool) : Judgement :=
  ⟨verdict, []⟩

/-- The judgement after one more line was hashed before it. -/
def afterHashing (line : String) (j : Judgement) : Judgement :=
  ⟨j.verdict, line :: j.hashed⟩

end Judgement

/-- Tries the issues in order; `known` is the hash of the last line once it is known. -/
def judgeFrom (hash : String → String) (d : Diagnostic) :
    (known : Option String) → List Issue → Judgement
  | _, [] => .settled (.ok false)
  | known, i :: issues =>
    if !i.concerns d then judgeFrom hash d known issues
    else if d.isFileLevel then
      if i.isFileLevel then .settled (.ok true) else judgeFrom hash d known issues
    else if i.startsAt d.startLine then .settled (.ok true)
    else
      match known with
      | some h => if h = i.hash then .settled (.ok true) else judgeFrom hash d known issues
      | none =>
        match d.endLineText? with
        | none => .settled (.error d.outOfRange)
        | some line =>
          if hash line = i.hash then Judgement.afterHashing line (.settled (.ok true))
          else .afterHashing line (judgeFrom hash d (some (hash line)) issues)

/-- Judges a diagnostic by the issues. -/
def judge (hash : String → String) (issues : List Issue) (d : Diagnostic) : Judgement :=
  judgeFrom hash d none issues

/-- Whether a diagnostic is settled, by fingerprints. -/
def isSettled (issues : List Issue) (d : Diagnostic) : Except Fault Bool :=
  (judge fingerprint issues d).verdict

end KnownIssues
