import KnownIssues.Disk
import KnownIssues.Issue.Format
import KnownIssues.ProjectKey
import KnownIssues.Text.Percent

/-!
# The store of issues

One directory holds a file for each project, named after the project's key with its bytes in percent
escapes.  A file that is missing is no fault.  Writing makes the directory if need be and replaces
the file.
-/

namespace KnownIssues

/-- A directory of issue files. -/
structure IssueStore where
  dir : Path
  deriving DecidableEq, Repr

namespace IssueStore

/-- The name of a project's file. -/
def fileName (key : ProjectKey) : String :=
  .ofList (Text.Percent.encode (Text.encode key.text)) ++ ".json"

/-- The path of a project's file. -/
def pathFor (s : IssueStore) (key : ProjectKey) : Path :=
  s.dir.child (Text.encode (fileName key))

/-- What a project's file holds, if there is one. -/
def read (s : IssueStore) (d : Disk) (key : ProjectKey) : Except Fault (Option (List Issue)) :=
  match d.readText (s.pathFor key) with
  | .error .notFound => .ok none
  | .error e => .error (.disk e)
  | .ok text =>
    match IssueFile.format.decode text with
    | .ok file => .ok (some file.issues)
    | .error reason => .error (.invalidFile (s.pathFor key) reason)

/-- The bytes of a file that holds the issues. -/
def fileBytes (issues : List Issue) : List UInt8 :=
  Text.encode (IssueFile.format.pretty ⟨issues⟩)

/-- Writes a project's file. -/
def write (s : IssueStore) (d : Disk) (key : ProjectKey) (issues : List Issue) :
    Disk × Except Fault Unit :=
  match d.makeDirs s.dir with
  | (d', some e) => (d', .error (.disk e))
  | (d', none) =>
    match d'.write (s.pathFor key) (fileBytes issues) with
    | .ok d'' => (d'', .ok ())
    | .error e => (d', .error (.disk e))

end IssueStore

end KnownIssues
