import KnownIssues.Proofs.Batch
import KnownIssues.Session

/-! # Sessions after a list of actions

`after` is the session that a list of actions leads to.  What a step does to the cache is said once
(`cache_step`): it is an update, it forgets, or it asks for the issues of a project (`Action.asks?`),
and a report is such a question whose answer it passes on (`answer_step_report`).

What the cache answers is the entry of the key, or what the file of the key holds (`listOn`), a file
that cannot be read holding nothing (`issues_issues`, `find?_issues`). -/

namespace KnownIssues

/-! ### The cache -/

/-- The issues that the file of a project holds; there are none in a file that is missing or cannot
be read. -/
def IssueStore.listOn (st : IssueStore) (d : Disk) (key : ProjectKey) : List Issue :=
  match d.readText (st.pathFor key) with
  | .error _ => []
  | .ok text =>
    match IssueFile.format.decode text with
    | .error _ => []
    | .ok file => file.issues

namespace IssueCache

theorem load_fst (st : IssueStore) (d : Disk) (key : ProjectKey) :
    (load st d key).1 = st.listOn d key := by
  unfold load IssueStore.read IssueStore.listOn
  cases d.readText (st.pathFor key) with
  | error e => cases e <;> rfl
  | ok text =>
    cases h : IssueFile.format.decode text <;> simp only [h]

theorem store_issues (c : IssueCache) (d : Disk) (key : ProjectKey) :
    (c.issues d key).cache.store = c.store := by
  unfold issues
  split
  · rfl
  · split
    · rfl
    · rfl

theorem find?_issues (c : IssueCache) (d : Disk) (j k : ProjectKey) :
    (c.issues d j).cache.entries.find? k
      = if k = j then (c.entries.find? k).or (c.store.map (·.listOn d k))
        else c.entries.find? k := by
  unfold issues
  cases hj : c.entries.find? j with
  | some l =>
    by_cases hk : k = j
    · subst hk; simp [hj]
    · simp [hk]
  | none =>
    cases hs : c.store with
    | none =>
      by_cases hk : k = j
      · subst hk; simp [hj]
      · simp [hk]
    | some st =>
      rw [Table.find?_insert]
      by_cases hk : k = j
      · subst hk; simp [hj, load_fst]
      · simp [hk]

theorem issues_issues (c : IssueCache) (d : Disk) (key : ProjectKey) :
    (c.issues d key).issues
      = ((c.entries.find? key).or (c.store.map (·.listOn d key))).getD [] := by
  unfold issues
  cases hk : c.entries.find? key with
  | some l => simp
  | none =>
    cases hs : c.store with
    | none => simp
    | some st => simp [load_fst]

end IssueCache

/-! ### Reports -/

/-- The suppressor to whom these issues are given. -/
def givenSuppressor (lookup : KeyLookup) (registry : Registry) (issues : List Issue) :
    Suppressor Unit where
  locate := lookup.resolve?
  candidates _ s := (issues, s)
  check issues d s := (isSettled issues d, s)
  registry := registry

/-- Checks that neither read nor change a state give the same verdicts over any two states. -/
theorem Suppressor.verdicts_congr {σ τ : Type} {p : Suppressor σ} {q : Suppressor τ}
    {issues : List Issue} {f : Diagnostic → Except Fault Bool}
    (hp : ∀ d s, p.check issues d s = (f d, s)) (hq : ∀ d t, q.check issues d t = (f d, t))
    (hr : p.registry = q.registry) (ds : List Diagnostic) (s : σ) (t : τ) :
    p.verdicts issues ds s = ((q.verdicts issues ds t).1, s) := by
  induction ds with
  | nil => rfl
  | cons d ds ih =>
    unfold verdicts
    rw [hr]
    cases q.registry.get? d.id with
    | none => exact ih
    | some descriptor => simp only [hp, hq, ih]

/-- A report over a cache is the report on the issues that the cache answers. -/
theorem report_cacheSuppressor (lookup : KeyLookup) (registry : Registry) (disk : Disk)
    {c : Compilation} {key : ProjectKey} (h : lookup.resolve? c = some key)
    (batch : List Diagnostic) (cache : IssueCache) :
    ((cacheSuppressor lookup registry disk).report c batch ⟨cache, []⟩).1
        = ((givenSuppressor lookup registry (cache.issues disk key).issues).report c batch ()).1 ∧
      ((cacheSuppressor lookup registry disk).report c batch ⟨cache, []⟩).2.cache
        = (cache.issues disk key).cache := by
  have hlocate : (cacheSuppressor lookup registry disk).locate c = some key := h
  have hgiven (l : List Issue) : (givenSuppressor lookup registry l).locate c = some key := h
  rcases hl : cache.issues disk key with ⟨issues, events, cache'⟩
  have hcand : (cacheSuppressor lookup registry disk).candidates key ⟨cache, []⟩
      = (issues, ⟨cache', [] ++ events⟩) := by
    simp only [cacheSuppressor, hl]
  by_cases hne : issues = []
  · subst hne
    rw [Suppressor.report_nil _ hlocate hcand, Suppressor.report_nil _ (hgiven []) rfl]
    exact ⟨rfl, rfl⟩
  · rw [Suppressor.report_some _ hlocate hcand hne,
      Suppressor.report_some _ (hgiven issues) rfl hne,
      Suppressor.verdicts_congr (p := cacheSuppressor lookup registry disk)
        (q := givenSuppressor lookup registry issues) (f := isSettled issues)
        (fun _ _ => rfl) (fun _ _ => rfl) rfl batch _ ()]
    exact ⟨rfl, rfl⟩

theorem report_cacheSuppressor_none (lookup : KeyLookup) (registry : Registry) (disk : Disk)
    {c : Compilation} (h : lookup.resolve? c = none) (batch : List Diagnostic) (s : Logged) :
    (cacheSuppressor lookup registry disk).report c batch s = (.nothing .noKey, s) :=
  Suppressor.report_none _ h batch s

/-! ### Actions -/

namespace Action

/-- The key whose issues an action asks the cache for. -/
def asks? (lookup : KeyLookup) : Action → Option ProjectKey
  | .issues key | .hold key _ => some key
  | .report c _ => lookup.resolve? c
  | _ => none

/-- The action makes the cache forget a key. -/
def Forgets (key : ProjectKey) : Action → Prop
  | .invalidate j => j = key
  | .clear => True
  | _ => False

/-- The action hands the issues of a key to the cache, or makes it forget the key. -/
def Settles (key : ProjectKey) (a : Action) : Prop :=
  (∃ l, a = .update key l) ∨ a.Forgets key

theorem not_settles_of_asks? {lookup : KeyLookup} {a : Action} {j : ProjectKey}
    (h : a.asks? lookup = some j) (key : ProjectKey) : ¬ a.Settles key := by
  rintro (⟨l, rfl⟩ | hf)
  · cases h
  · cases a with
    | invalidate _ => cases h
    | clear => cases h
    | _ => exact False.elim hf

end Action

namespace Session

/-! ### One step -/

/-- **What a step does to the cache.** -/
theorem cache_step (s : Session) (a : Action) :
    (s.step a).session.cache
      = match a.asks? s.lookup, a with
        | some key, _ => (s.cache.issues s.disk key).cache
        | none, .update key l => (s.cache.update key l).cache
        | none, .invalidate key => s.cache.invalidate key
        | none, .clear => s.cache.clear
        | none, _ => s.cache := by
  cases a with
  | report c batch =>
    simp only [Action.asks?, step]
    cases h : s.lookup.resolve? c with
    | none => rw [report_cacheSuppressor_none _ _ _ h]
    | some key => exact (report_cacheSuppressor _ _ _ h batch _).2
  | read key =>
    simp only [Action.asks?, step]
    split
    · rfl
    · split <;> rfl
  | write key l =>
    simp only [Action.asks?, step]
    split
    · rfl
    · split <;> rfl
  | _ => rfl

theorem lookup_step (s : Session) (a : Action) :
    (s.step a).session.lookup = s.lookup ∧ (s.step a).session.registry = s.registry := by
  cases a with
  | read key =>
    simp only [step]
    split
    · exact ⟨rfl, rfl⟩
    · split <;> exact ⟨rfl, rfl⟩
  | write key l =>
    simp only [step]
    split
    · exact ⟨rfl, rfl⟩
    · split <;> exact ⟨rfl, rfl⟩
  | _ => exact ⟨rfl, rfl⟩

theorem store_step (s : Session) (a : Action) :
    (s.step a).session.cache.store = s.cache.store := by
  rw [cache_step]
  split
  · exact IssueCache.store_issues ..
  all_goals rfl

theorem answer_step_report (s : Session) {c : Compilation} {key : ProjectKey}
    (h : s.lookup.resolve? c = some key) (batch : List Diagnostic) :
    (s.step (.report c batch)).answer
      = .report ((givenSuppressor s.lookup s.registry (s.cache.issues s.disk key).issues).report
          c batch ()).1 :=
  congrArg Answer.report (report_cacheSuppressor _ _ _ h batch _).1

theorem answer_step_report_none (s : Session) {c : Compilation} (h : s.lookup.resolve? c = none)
    (batch : List Diagnostic) : (s.step (.report c batch)).answer = .report (.nothing .noKey) := by
  simp only [step, report_cacheSuppressor_none s.lookup s.registry s.disk h]

/-! ### Many steps -/

/-- The session after actions. -/
def after (s : Session) (actions : List Action) : Session :=
  actions.foldl (fun s a => (s.step a).session) s

@[simp] theorem after_nil (s : Session) : s.after [] = s := rfl

@[simp] theorem after_cons (s : Session) (a : Action) (actions : List Action) :
    s.after (a :: actions) = (s.step a).session.after actions := rfl

theorem after_append (s : Session) (as bs : List Action) :
    s.after (as ++ bs) = (s.after as).after bs := by
  simp [after]

theorem lookup_after (s : Session) (actions : List Action) :
    (s.after actions).lookup = s.lookup := by
  induction actions generalizing s with
  | nil => rfl
  | cons a actions ih => rw [after_cons, ih, (lookup_step s a).1]

theorem registry_after (s : Session) (actions : List Action) :
    (s.after actions).registry = s.registry := by
  induction actions generalizing s with
  | nil => rfl
  | cons a actions ih => rw [after_cons, ih, (lookup_step s a).2]

theorem store_after (s : Session) (actions : List Action) :
    (s.after actions).cache.store = s.cache.store := by
  induction actions generalizing s with
  | nil => rfl
  | cons a actions ih => rw [after_cons, ih, store_step]

end Session

end KnownIssues
