import KnownIssues.Event
import KnownIssues.IssueStore

/-!
# The cache of issues

The issues of each project, as they were last handed over or last read from the store.  What was
read is remembered until the key is invalidated, also that there was no file or that it could not be
read; both count as no issues.  Without a store an unknown key has no issues, and that is not
remembered.
-/

namespace KnownIssues

/-- The issues by project, and the store behind them, if there is one. -/
structure IssueCache where
  entries : Table ProjectKey (List Issue)
  store : Option IssueStore

/-- An answer of the cache: the issues, what was told on the way, and the cache afterwards. -/
structure CacheAnswer where
  issues : List Issue
  events : List Event
  cache : IssueCache

namespace IssueCache

/-- The cache that knows no project. -/
def empty (store : Option IssueStore) : IssueCache :=
  ⟨.empty, store⟩

/-- How many projects the cache knows. -/
def size (c : IssueCache) : Nat :=
  c.entries.size

/-- Takes over the issues of a project. -/
def update (c : IssueCache) (key : ProjectKey) (issues : List Issue) : CacheAnswer :=
  ⟨issues, [.updating issues.length key], { c with entries := c.entries.insert key issues }⟩

/-- Forgets a project. -/
def invalidate (c : IssueCache) (key : ProjectKey) : IssueCache :=
  { c with entries := c.entries.erase key }

/-- Forgets all projects. -/
def clear (c : IssueCache) : IssueCache :=
  { c with entries := .empty }

/-- The issues that a store has for a project, and what is told of it. -/
def load (s : IssueStore) (d : Disk) (key : ProjectKey) : List Issue × List Event :=
  match s.read d key with
  | .ok (some issues) => (issues, [])
  | .ok none => ([], [.noFile key])
  | .error fault => ([], [.loadFailed key fault])

/-- The issues of a project. -/
def issues (c : IssueCache) (d : Disk) (key : ProjectKey) : CacheAnswer :=
  match c.entries.find? key with
  | some issues => ⟨issues, [], c⟩
  | none =>
    match c.store with
    | none => ⟨[], [], c⟩
    | some s =>
      let loaded := load s d key
      ⟨loaded.1, loaded.2, { c with entries := c.entries.insert key loaded.1 }⟩

end IssueCache

end KnownIssues
