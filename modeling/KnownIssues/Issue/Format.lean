import KnownIssues.Issue
import KnownIssues.Json.Format

/-!
# Written issues

The JSON form of issues, of their line ranges, and of the file that holds the issues of a project.
A range has two members that must be there.  An issue must have its rule; the range is left out
where there is none, and may be left out or `null` on reading, as may the hash, which then is empty.
-/

namespace KnownIssues

open Json (Field Shape Format Reader)

/-! ### Line ranges -/

/-- What is known of a range while it is read. -/
structure LineRange.Draft where
  first : Option UInt64
  last : Option UInt64

namespace LineRange

/-- The record of a range. -/
def shape : Shape Draft LineRange where
  name := "TextRange"
  fields :=
    [.of "startLine" Draft.first (fun n d => { d with first := some n }) .word,
      .of "endLine" Draft.last (fun n d => { d with last := some n }) .word]
  blank := ⟨none, none⟩
  build
    | ⟨none, _⟩ => .error "startLine"
    | ⟨some _, none⟩ => .error "endLine"
    | ⟨some first, some last⟩ => .ok ⟨first, last⟩

/-- The written form of a range. -/
def format : Format LineRange where
  reader := .record shape
  write style level r :=
    style.object level
      [("startLine", Format.word.write style (level + 1) r.first),
        ("endLine", Format.word.write style (level + 1) r.last)]

end LineRange

/-! ### Issues -/

/-- What is known of an issue while it is read. -/
structure Issue.Draft where
  rule : Option String
  range : Option (Option LineRange)
  hash : Option String

namespace Issue

/-- The record of an issue. -/
def shape : Shape Draft Issue where
  name := "ServerIssue"
  fields :=
    [.of "ruleId" Draft.rule (fun s d => { d with rule := some s }) .text,
      .of "textRange" Draft.range (fun r d => { d with range := some r })
        LineRange.format.reader.orNull,
      .of "hash" Draft.hash (fun s d => { d with hash := some s }) .text]
  blank := ⟨none, none, none⟩
  build
    | ⟨none, _, _⟩ => .error "ruleId"
    | ⟨some rule, range, hash⟩ => .ok ⟨rule, range.join, hash.getD ""⟩

/-- The written form of an issue. -/
def format : Format Issue where
  reader := .record shape
  write style level i :=
    style.object level
      (("ruleId", Format.text.write style (level + 1) i.rule)
        :: (i.range.toList.map fun r => ("textRange", LineRange.format.write style (level + 1) r))
        ++ [("hash", Format.text.write style (level + 1) i.hash)])

end Issue

/-! ### Files of issues -/

/-- What a file holds. -/
structure IssueFile where
  issues : List Issue
  deriving DecidableEq, Repr

/-- What is known of a file while it is read. -/
structure IssueFile.Draft where
  issues : Option (List Issue)

namespace IssueFile

/-- The record of a file. -/
def shape : Shape Draft IssueFile where
  name := "SettingsFile"
  fields :=
    [.of "issues" Draft.issues (fun l _ => ⟨some l⟩) (Format.list Issue.format).reader]
  blank := ⟨none⟩
  build d := .ok ⟨d.issues.getD []⟩

/-- The written form of a file. -/
def format : Format IssueFile where
  reader := .record shape
  write style level f :=
    style.object level [("issues", (Format.list Issue.format).write style (level + 1) f.issues)]

end IssueFile

end KnownIssues
