import KnownIssues.Path

/-!
# Places

A place is where a path leads to: it begins at the root, or so many directories above the working
directory, and the names lead on from there.  The names stand from the last to the first, so that a
step down adds one in front and a step up takes it away.

How far the working directory lies below the root and what its name is are not known, so one
directory may be at several places; a path that steps up leaves the names it came from.
-/

namespace KnownIssues

/-- Where the names of a place begin. -/
inductive Origin where
  | root
  | above (levels : Nat)
  deriving DecidableEq, Repr

/-- Where a path leads to.  The last name stands in front. -/
structure Place where
  origin : Origin
  names : List Name
  deriving DecidableEq, Repr

namespace Place

/-- The working directory. -/
def working : Place :=
  ⟨.above 0, []⟩

/-- The root. -/
def root : Place :=
  ⟨.root, []⟩

/-- The place of this name in the directory. -/
def child (p : Place) (n : Name) : Place :=
  ⟨p.origin, n :: p.names⟩

/-- The place one step up; above the root is the root. -/
def parent : Place → Place
  | ⟨.root, []⟩ => root
  | ⟨.above levels, []⟩ => ⟨.above (levels + 1), []⟩
  | ⟨origin, _ :: names⟩ => ⟨origin, names⟩

/-- The names from the first to the last. -/
def trail (p : Place) : List Name :=
  p.names.reverse

theorem parent_child (p : Place) (n : Name) : (p.child n).parent = p := by
  obtain ⟨origin, names⟩ := p
  cases origin <;> rfl

theorem trail_inj {p q : Place} (ho : p.origin = q.origin) (hr : p.trail = q.trail) : p = q := by
  obtain ⟨_, _⟩ := p
  obtain ⟨_, _⟩ := q
  simp_all [trail]

end Place

end KnownIssues
