import KnownIssues.Json.Format
import KnownIssues.Path
import KnownIssues.ProjectKey
import KnownIssues.Table
import KnownIssues.Text.AsciiCase

/-!
# Finding the key of a compilation

A compilation is bound to a project by an option that gives the key, or else by a marker file that
lies among its additional files below a directory named after the key:

    .../<root>/<key>/.../<marker>

A blank option counts as none, and a file that gives no key is passed over.  Of several roots in one
path the last one counts.
-/

namespace KnownIssues

open Json (Shape Format)

/-- What a compilation brings along. -/
structure Compilation where
  options : Table String String
  files : List Path

/-- Which option and which files give a key. -/
structure KeyLookup where
  option : String
  marker : String
  root : String
  deriving DecidableEq, Repr

/-- The element that follows the last occurrence of `x`. -/
def afterLast? {α : Type} [DecidableEq α] (x : α) : List α → Option α
  | [] => none
  | y :: ys => if x ∈ ys then afterLast? x ys else if y = x then ys.head? else none

namespace KeyLookup

/-- The usual names. -/
def default : KeyLookup :=
  ⟨"sonarlint_internal.suppressions_settings_key", "SonarLint.xml", ".sonarlint"⟩

/-- The key that the option gives. -/
def keyOfOption? (l : KeyLookup) (c : Compilation) : Option ProjectKey :=
  (c.options.find? l.option).bind ProjectKey.ofString?

/-- The file is a marker: its name is text and, up to letter case, the marker's. -/
def isMarker (l : KeyLookup) (p : Path) : Bool :=
  (p.fileName?.bind Text.decode?).any (Text.sameIgnoringCase · l.marker)

/-- The key that the directories of a path give. -/
def keyBelowRoot? (l : KeyLookup) (p : Path) : Option ProjectKey :=
  ((afterLast? (Text.encode l.root) p.directories).bind Text.decode?).bind ProjectKey.ofString?

/-- The key that a file gives. -/
def keyOfFile? (l : KeyLookup) (p : Path) : Option ProjectKey :=
  if l.isMarker p then l.keyBelowRoot? p else none

/-- The key of a compilation. -/
def resolve? (l : KeyLookup) (c : Compilation) : Option ProjectKey :=
  (l.keyOfOption? c).or (c.files.findSome? l.keyOfFile?)

end KeyLookup

/-! ### Its written form -/

/-- What is known of a lookup while it is read. -/
structure KeyLookup.Draft where
  option : Option String
  marker : Option String
  root : Option String

namespace KeyLookup

/-- The record of a lookup; what is left out is as usual. -/
def shape : Shape Draft KeyLookup where
  name := "ResolverConfig"
  fields :=
    [.of "settings_key_option" Draft.option (fun s d => { d with option := some s }) .text,
      .of "marker_file_name" Draft.marker (fun s d => { d with marker := some s }) .text,
      .of "settings_root_dir" Draft.root (fun s d => { d with root := some s }) .text]
  blank := ⟨none, none, none⟩
  build d :=
    .ok ⟨d.option.getD default.option, d.marker.getD default.marker, d.root.getD default.root⟩

/-- The written form of a lookup. -/
def format : Format KeyLookup where
  reader := .record shape
  write style level l :=
    style.object level
      [("settings_key_option", Format.text.write style (level + 1) l.option),
        ("marker_file_name", Format.text.write style (level + 1) l.marker),
        ("settings_root_dir", Format.text.write style (level + 1) l.root)]

end KeyLookup

end KnownIssues
