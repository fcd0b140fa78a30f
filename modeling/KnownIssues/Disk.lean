import KnownIssues.Fault
import KnownIssues.Place
import KnownIssues.Table
import KnownIssues.Trie

/-!
# Disks

A disk has entries at places, files and directories (`entryAt?`).  It keeps them by the names that
lead to them, one tree for each origin; the origins themselves, the root, the working directory and
those above it, are directories without an entry.

`find` follows a path and tells what stands at its end; only the last name may be missing.  It goes
along the tree as it follows (`walk`), so that a long path costs no more than its steps; what each
step does is said over `entryAt?` alone (`findFrom_name`, `findFrom_up`).  On it rest the
operations: `read`, `write`, `makeDirs` and `remove`.  Making directories can fail half way, and
then the directories made so far stay.  A path may have up to 4095 bytes and a name up to 255; no
byte of them is zero.

Left out are links, permissions, special files, and whatever else may make a system refuse: full or
read-only disks, limits on open files, failing devices.  An operation of this disk fails for the
reasons of a `DiskFault` only.
-/

namespace KnownIssues

/-- What stands at a place. -/
inductive Entry where
  | file (bytes : List UInt8)
  | directory
  deriving DecidableEq, Repr

/-- Trees of directories and files. -/
structure Disk where
  trees : Table Origin (Trie Name Entry)

/-- What stands at the end of a path: an entry, or nothing in a directory that is there. -/
inductive Target where
  | present (place : Place) (entry : Entry)
  | vacant (place : Place)
  deriving DecidableEq, Repr

namespace Disk

/-- The disk without files and directories. -/
def empty : Disk :=
  ⟨.empty⟩

/-- The entries at the places of an origin, by the names that lead to them. -/
def tree (d : Disk) (origin : Origin) : Trie Name Entry :=
  (d.trees.find? origin).getD .empty

/-- The disk with another tree at an origin. -/
def setTree (d : Disk) (origin : Origin) (t : Trie Name Entry) : Disk :=
  ⟨d.trees.insert origin t⟩

/-- What stands at a place. -/
def entryAt? (d : Disk) (place : Place) : Option Entry :=
  if place.names = [] then some .directory else (d.tree place.origin).find? place.trail

/-- The entries in the directory at a place, by the names that lead to them from there. -/
def inside (d : Disk) (place : Place) : Trie Name Entry :=
  (d.tree place.origin).behindAll place.trail

/-- What is inside each directory above the place of these names, the nearest first, up to the
origin. -/
def above (d : Disk) (origin : Origin) : List Name → List (Trie Name Entry)
  | [] => []
  | _ :: names => d.inside ⟨origin, names⟩ :: d.above origin names

/-- The disk with another entry at a place. -/
def set (d : Disk) (place : Place) (e : Entry) : Disk :=
  d.setTree place.origin ((d.tree place.origin).insert place.trail e)

/-! ### Following a path -/

/-- The length of the longest path. -/
def maxPath : Nat := 4095

/-- The length of the longest name. -/
def maxName : Nat := 255

/-- The steps along a path, if it can be followed at all. -/
def route (p : Path) : Except DiskFault (List Component) :=
  if 0 ∈ p.bytes then .error .zeroByte
  else if maxPath < p.bytes.length then .error .nameTooLong
  else .ok p.steps

/-- Follows steps from a directory, with what is inside it and above it at hand. -/
def walk (d : Disk) (place : Place) (inside : Trie Name Entry) (above : List (Trie Name Entry)) :
    List Component → Except DiskFault Target
  | [] => .ok (.present place .directory)
  | .root :: cs => walk d .root (d.inside .root) [] cs
  | .here :: cs => walk d place inside above cs
  | .up :: cs =>
    match above with
    | [] => walk d place.parent (d.inside place.parent) [] cs
    | t :: ts => walk d place.parent t ts cs
  | .name n :: cs =>
    if maxName < n.length then .error .nameTooLong
    else
      match inside.value? n with
      | some .directory => walk d (place.child n) (inside.behind n) (inside :: above) cs
      | some (.file bytes) =>
        if cs = [] then .ok (.present (place.child n) (.file bytes)) else .error .notADirectory
      | none => if cs = [] then .ok (.vacant (place.child n)) else .error .notFound

/-- Follows steps from a directory. -/
def findFrom (d : Disk) (place : Place) (steps : List Component) : Except DiskFault Target :=
  d.walk place (d.inside place) (d.above place.origin place.names) steps

/-- Follows steps from the working directory. -/
def follow (d : Disk) (steps : List Component) : Except DiskFault Target :=
  d.findFrom .working steps

/-- Follows a path. -/
def find (d : Disk) (p : Path) : Except DiskFault Target :=
  match route p with
  | .error e => .error e
  | .ok steps => d.follow steps

/-! ### Files -/

/-- The bytes of a file. -/
def read (d : Disk) (p : Path) : Except DiskFault (List UInt8) :=
  match d.find p with
  | .error e => .error e
  | .ok (.vacant _) => .error .notFound
  | .ok (.present _ .directory) => .error .isADirectory
  | .ok (.present _ (.file bytes)) => if p.endsInSlash then .error .notADirectory else .ok bytes

/-- The text of a file. -/
def readText (d : Disk) (p : Path) : Except DiskFault String :=
  match d.read p with
  | .error e => .error e
  | .ok bytes =>
    match Text.decode? bytes with
    | some text => .ok text
    | none => .error .notUtf8

/-- The disk with a file of these bytes, in place of the file that was there. -/
def write (d : Disk) (p : Path) (bytes : List UInt8) : Except DiskFault Disk :=
  match d.find p with
  | .error e => .error e
  | .ok (.present _ .directory) => .error .isADirectory
  | .ok (.vacant place) | .ok (.present place (.file _)) =>
    if p.endsInSlash then .error .isADirectory else .ok (d.set place (.file bytes))

/-- The disk without what stands at the end of the path, nor anything in it.  A directory whose path
does not end in its name is only emptied. -/
def remove (d : Disk) (p : Path) : Disk :=
  match d.find p with
  | .ok (.present place e) =>
    let goes := p.endsInName && (e == .directory || !p.endsInSlash)
    let stays (names : List Name) : Bool :=
      if names = place.trail then !goes else !place.trail.isPrefixOf names
    d.setTree place.origin ((d.tree place.origin).filterKeys stays)
  | _ => d

/-! ### Directories -/

/-- There is a directory at the end of the steps. -/
def isDirectory (d : Disk) (steps : List Component) : Bool :=
  match d.follow steps with
  | .ok (.present _ .directory) => true
  | _ => false

/-- The disk with one more directory. -/
def makeDir (d : Disk) (steps : List Component) : Except DiskFault Disk :=
  match d.follow steps with
  | .error e => .error e
  | .ok (.vacant place) => .ok (d.set place .directory)
  | .ok (.present ..) => .error .fileExists

/-- A directory that could not be made is no fault if it is there. -/
def unlessDirectory (d : Disk) (steps : List Component) (e : DiskFault) : Option DiskFault :=
  if d.isDirectory steps then none else some e

/-- Makes a directory, and before it the one that it lies in, whose components are given from the
end. -/
def makeDirsIn (d : Disk) (steps : List Component) (parent : List Component) :
    Disk × Option DiskFault :=
  match d.makeDir steps with
  | .ok d' => (d', none)
  | .error .notFound =>
    match parent with
    | [] => (d, some .notFound)
    | c :: back =>
      match d.makeDirsIn (c :: back).reverse back with
      | (d', some e) => (d', some e)
      | (d', none) =>
        match d'.makeDir steps with
        | .ok d'' => (d'', none)
        | .error e => (d', d'.unlessDirectory steps e)
  | .error e => (d, d.unlessDirectory steps e)

/-- Makes a directory and those that it lies in, as far as they are missing.  There is nothing to do
for the empty path. -/
def makeDirs (d : Disk) (p : Path) : Disk × Option DiskFault :=
  match route p with
  | .error e => (d, some e)
  | .ok [] => (d, none)
  | .ok steps => d.makeDirsIn steps p.components.reverse.tail

/-! ### Listing -/

/-- The text of an entry below the working directory; a directory ends in a slash. -/
def label (names : List Name) (e : Entry) : String :=
  "/".intercalate (names.map fun n => (Text.decode? n).getD "")
    ++ (if e = .directory then "/" else "")

/-- All files and directories below the working directory, in the order of their texts. -/
def listing (d : Disk) : List String :=
  ((d.tree Place.working.origin).entries.map fun e => label e.1 e.2).mergeSort
    fun s t => decide (s ≤ t)

/-! ### What stands where -/

theorem tree_setTree (d : Disk) (o o' : Origin) (t : Trie Name Entry) :
    (d.setTree o t).tree o' = if o' = o then t else d.tree o' := by
  by_cases h : o' = o <;> simp [tree, setTree, Table.find?_insert, h]

theorem entryAt?_child (d : Disk) (p : Place) (n : Name) :
    d.entryAt? (p.child n) = (d.inside p).value? n := by
  simp [entryAt?, inside, Place.child, Place.trail, Trie.find?_append, Trie.find?]

theorem inside_child (d : Disk) (p : Place) (n : Name) :
    d.inside (p.child n) = (d.inside p).behind n := by
  simp [inside, Place.child, Place.trail, Trie.behindAll]

theorem entryAt?_set (d : Disk) (p q : Place) (e : Entry) :
    (d.set p e).entryAt? q
      = if q.names = [] then some .directory else if q = p then some e else d.entryAt? q := by
  by_cases hq : q.names = []
  · simp [entryAt?, hq]
  · have hr : q.trail ≠ [] := by simpa [Place.trail] using hq
    by_cases ho : q.origin = p.origin
    · by_cases hp : q = p
      · subst hp
        simp [entryAt?, set, hq, tree_setTree, Trie.find?_insert _ _ _ hr]
      · have : q.trail ≠ p.trail := fun h => hp (Place.trail_inj ho h)
        simp [entryAt?, set, hq, tree_setTree, Trie.find?_insert _ _ _ hr, ho, hp, this]
    · have hp : q ≠ p := fun h => ho (h ▸ rfl)
      simp [entryAt?, set, hq, tree_setTree, ho, hp]

/-! ### One step -/

theorem findFrom_nil (d : Disk) (p : Place) :
    d.findFrom p [] = .ok (.present p .directory) := rfl

theorem findFrom_up (d : Disk) (p : Place) (cs : List Component) :
    d.findFrom p (.up :: cs) = d.findFrom p.parent cs := by
  obtain ⟨origin, names⟩ := p
  cases names with
  | nil => cases origin <;> rfl
  | cons n names => cases origin <;> rfl

theorem findFrom_name (d : Disk) (p : Place) (n : Name) (cs : List Component) :
    d.findFrom p (.name n :: cs)
      = if maxName < n.length then .error .nameTooLong
        else
          match d.entryAt? (p.child n) with
          | some .directory => d.findFrom (p.child n) cs
          | some (.file bytes) =>
            if cs = [] then .ok (.present (p.child n) (.file bytes)) else .error .notADirectory
          | none => if cs = [] then .ok (.vacant (p.child n)) else .error .notFound := by
  rw [entryAt?_child, findFrom, walk, findFrom, inside_child]
  rfl

end Disk

end KnownIssues
