import KnownIssues.Text.Utf8

/-!
# Paths

A path is a list of bytes, which need not be text.  Slashes separate its segments; a slash in
front is the root, empty segments do not count, a dot stays where it is, and two dots step up.
Every other segment is a name.

There are two readings.  The `steps` are what is followed on a disk: every dot counts, because it
can stand only behind a directory.  The `components` are what the path says: dots are dropped,
except for one at the front of a relative path.

A path of a text is shown as that text (`shown_ofString`).
-/

namespace KnownIssues

/-- The bytes of a name: no slash, not empty, neither one dot nor two. -/
abbrev Name := List UInt8

/-- The bytes of a path. -/
structure Path where
  bytes : List UInt8
  deriving DecidableEq, Repr

/-- A component of a path. -/
inductive Component where
  | root
  | here
  | up
  | name (n : Name)
  deriving DecidableEq, Repr

namespace Component

/-- The name that a component is. -/
def name? : Component → Option Name
  | name n => some n
  | _ => none

/-- How a component is spelled between slashes. -/
def segment : Component → List UInt8
  | root => []
  | here => [0x2E]
  | up => [0x2E, 0x2E]
  | name n => n

end Component

namespace Path

/-- The slash. -/
def slash : UInt8 := 0x2F

/-- The path of a text. -/
def ofString (s : String) : Path :=
  ⟨Text.encode s⟩

/-- What stands between slashes. -/
def segments : List UInt8 → List (List UInt8)
  | [] => [[]]
  | b :: bs =>
    match segments bs with
    | [] => [[b]]
    | s :: ss => if b = slash then [] :: s :: ss else (b :: s) :: ss

/-- The component of a segment, unless it is empty. -/
def component? (segment : List UInt8) : Option Component :=
  if segment = [] then none
  else if segment = Component.here.segment then some .here
  else if segment = Component.up.segment then some .up
  else some (.name segment)

/-- The path begins at the root. -/
def isAbsolute (p : Path) : Bool :=
  p.bytes.head? == some slash

/-- The path ends in a slash, so that it can lead to a directory only. -/
def endsInSlash (p : Path) : Bool :=
  p.bytes.getLast? == some slash

/-- The steps along the path, from the front. -/
def steps (p : Path) : List Component :=
  (if p.isAbsolute then [.root] else []) ++ (segments p.bytes).filterMap component?

/-- The steps without the dots behind the first one. -/
def components (p : Path) : List Component :=
  match p.steps with
  | [] => []
  | c :: cs => c :: cs.filter (· != .here)

/-- The last step is a name. -/
def endsInName (p : Path) : Bool :=
  (p.steps.getLast?.bind Component.name?).isSome

/-- The last component, if it is a name. -/
def fileName? (p : Path) : Option Name :=
  p.components.getLast?.bind Component.name?

/-- The names among the components before the last one. -/
def directories (p : Path) : List Name :=
  p.components.dropLast.filterMap Component.name?

/-- The path of a list of components. -/
def ofComponents : List Component → Path
  | [.root] => ⟨[slash]⟩
  | cs => ⟨[slash].intercalate (cs.map Component.segment)⟩

/-- The path without its last component. -/
def parent (p : Path) : Path :=
  ofComponents p.components.dropLast

/-- The path of a name in a directory. -/
def child (dir : Path) (n : Name) : Path :=
  if dir.bytes = [] ∨ dir.endsInSlash = true then ⟨dir.bytes ++ n⟩ else ⟨dir.bytes ++ slash :: n⟩

/-- The path as it is shown to a reader. -/
def shown (p : Path) : String :=
  Text.lossy p.bytes

@[simp] theorem shown_ofString (s : String) : (ofString s).shown = s := by
  rw [shown, ofString, Text.lossy, Text.decode?_encode, Option.getD_some]

example : (ofString "./a//b/../c/.").components
    = [.here, .name [0x61], .name [0x62], .up, .name [0x63]] := by decide

example : (ofString "./a//./b/").steps = [.here, .name [0x61], .here, .name [0x62]]
    ∧ (ofString "/a/./b/.").parent = ofString "/a" := by decide

example : (ofString "/a/..").fileName? = none ∧ (ofString "a/x/").fileName? = some [0x78] := by
  decide

end Path

end KnownIssues
