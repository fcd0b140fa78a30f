import KnownIssues.IssueCache
import KnownIssues.Matching
import KnownIssues.Suppressor

/-!
# Sessions

A session is one cache, shared by a suppressor and by whoever refreshes the issues, over a disk that
others may change.  `Session.step` is one action on it: an action of the library, or one of those
`Edit`s of the disk.  An action whose key is blank does nothing.
-/

namespace KnownIssues

/-- The state of a cache and what its use has told so far. -/
structure Logged where
  cache : IssueCache
  events : List Event

/-- What is at hand in a session. -/
structure Session where
  lookup : KeyLookup
  registry : Registry
  cache : IssueCache
  disk : Disk
  held : Table String (List Issue)

/-- A change of the disk from outside. -/
inductive Edit where
  /-- Writes a file and makes the directories that it lies in. -/
  | put (path : Path) (bytes : List UInt8)
  | makeDirs (path : Path)
  | remove (path : Path)

/-- An action on a session. -/
inductive Action where
  | update (key : ProjectKey) (issues : List Issue)
  | invalidate (key : ProjectKey)
  | clear
  | issues (key : ProjectKey)
  /-- Keeps the issues of a project, as they are now, under a name. -/
  | hold (key : ProjectKey) (name : String)
  | held (name : String)
  | report (compilation : Compilation) (batch : List Diagnostic)
  | read (key : ProjectKey)
  | write (key : ProjectKey) (issues : List Issue)
  | edit (e : Edit)
  | text (path : Path)
  | listing
  /-- An action whose key is blank. -/
  | blankKey

/-- The action on the project whose key a text stands for, if it stands for one. -/
def Action.keyed (act : ProjectKey → Action) (text : String) : Action :=
  match ProjectKey.ofString? text with
  | some key => act key
  | none => .blankKey

/-- What an action answers. -/
inductive Answer where
  | done
  | issues (l : List Issue)
  | file (l : Option (List Issue))
  | fault (e : Fault)
  | report (r : Report)
  | text (t : Option String)
  | listing (l : List String)
  | blankKey

/-- An answer, what was told, and the session afterwards. -/
structure Turn where
  answer : Answer
  events : List Event
  session : Session

/-- The suppressor that looks into a cache over a disk. -/
def cacheSuppressor (lookup : KeyLookup) (registry : Registry) (disk : Disk) :
    Suppressor Logged where
  locate := lookup.resolve?
  candidates key s :=
    let a := s.cache.issues disk key
    (a.issues, ⟨a.cache, s.events ++ a.events⟩)
  check issues d s := (isSettled issues d, s)
  registry := registry

/-- The disk after a change.  A change that cannot be made is given up where it fails. -/
def Disk.edit (d : Disk) : Edit → Disk
  | .put path bytes =>
    match d.makeDirs path.parent with
    | (d', some _) => d'
    | (d', none) => (d'.write path bytes).toOption.getD d'
  | .makeDirs path => (d.makeDirs path).1
  | .remove path => d.remove path

namespace Session

/-- The session before the first action: an empty disk, and a cache that knows nothing. -/
def start (lookup : KeyLookup) (registry : Registry) (store : Option IssueStore) : Session :=
  ⟨lookup, registry, .empty store, .empty, .empty⟩

/-- One action. -/
def step (s : Session) : Action → Turn
  | .update key issues =>
    let a := s.cache.update key issues
    ⟨.done, a.events, { s with cache := a.cache }⟩
  | .invalidate key => ⟨.done, [], { s with cache := s.cache.invalidate key }⟩
  | .clear => ⟨.done, [], { s with cache := s.cache.clear }⟩
  | .issues key =>
    let a := s.cache.issues s.disk key
    ⟨.issues a.issues, a.events, { s with cache := a.cache }⟩
  | .hold key name =>
    let a := s.cache.issues s.disk key
    ⟨.done, a.events, { s with cache := a.cache, held := s.held.insert name a.issues }⟩
  | .held name => ⟨.issues ((s.held.find? name).getD []), [], s⟩
  | .report compilation batch =>
    let (r, used) :=
      (cacheSuppressor s.lookup s.registry s.disk).report compilation batch ⟨s.cache, []⟩
    ⟨.report r, used.events ++ r.events, { s with cache := used.cache }⟩
  | .read key =>
    match s.cache.store with
    | none => ⟨.file none, [], s⟩
    | some store =>
      match store.read s.disk key with
      | .ok l => ⟨.file l, [], s⟩
      | .error e => ⟨.fault e, [], s⟩
  | .write key issues =>
    match s.cache.store with
    | none => ⟨.done, [], s⟩
    | some store =>
      match store.write s.disk key issues with
      | (disk, .ok ()) => ⟨.done, [], { s with disk := disk }⟩
      | (disk, .error e) => ⟨.fault e, [], { s with disk := disk }⟩
  | .edit e => ⟨.done, [], { s with disk := s.disk.edit e }⟩
  | .text path => ⟨.text (s.disk.readText path).toOption, [], s⟩
  | .listing => ⟨.listing s.disk.listing, [], s⟩
  | .blankKey => ⟨.blankKey, [], s⟩

/-- The turns of a list of actions. -/
def run (s : Session) : List Action → List Turn
  | [] => []
  | a :: actions =>
    let turn := s.step a
    turn :: turn.session.run actions

end Session

end KnownIssues
