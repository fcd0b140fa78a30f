import KnownIssues.Proofs.CacheHistory

/-! # A batch may be reported on in parts

What is reported on two batches, one after the other, is what is reported on both at once
(`Report.Joins`): the suppressions follow each other, the first fault counts, and without a fault
the numbers add up.

* `joins_report_given`: this is so for a given list of issues, since each diagnostic has a verdict
  of its own (`verdicts_append`).
* `known?_after_asked`: the first report leaves the cache with an entry for its key, unless there is
  no store to ask.  So the second report has the same issues, whatever has become of the disk.
* `report_split`: both together, for sessions in any state. -/

namespace KnownIssues

/-- The first report tells what the other two tell one after the other. -/
structure Report.Joins (r a b : Report) : Prop where
  suppressions : r.suppressions = a.suppressions ++ b.suppressions
  outcome : r.outcome =
    match a.outcome, b.outcome with
    | .error e, _ => .error e
    | .ok _, .error e => .error e
    | .ok m, .ok n => .ok (m + n)

/-! ### The verdicts -/

theorem Report.joins_nothing (reason : Event) :
    (nothing reason).Joins (nothing reason) (nothing reason) :=
  ⟨rfl, rfl⟩

theorem Report.joins_ofVerdicts (key : ProjectKey) (total m n : Nat) (vs ws : List Verdict) :
    (ofVerdicts key total (vs ++ ws)).Joins (ofVerdicts key m vs) (ofVerdicts key n ws) := by
  refine ⟨List.filterMap_append, ?_⟩
  simp only [ofVerdicts, List.findSome?_append, List.filterMap_append, List.length_append]
  cases vs.findSome? Verdict.fault? with
  | some e => rfl
  | none => cases ws.findSome? Verdict.fault? <;> rfl

theorem Suppressor.verdicts_append {σ : Type} (p : Suppressor σ) (issues : List Issue)
    (A B : List Diagnostic) (s : σ) :
    p.verdicts issues (A ++ B) s
      = ((p.verdicts issues A s).1 ++ (p.verdicts issues B (p.verdicts issues A s).2).1,
        (p.verdicts issues B (p.verdicts issues A s).2).2) := by
  induction A generalizing s with
  | nil => rfl
  | cons d A ih =>
    rw [List.cons_append]
    cases h : p.registry.get? d.id with
    | none => rw [verdicts_cons_none p issues h, verdicts_cons_none p issues h, ih]
    | some descriptor =>
      rw [verdicts_cons_some p issues h, verdicts_cons_some p issues h, ih]
      rfl

/-- **The reports on given issues** join. -/
theorem joins_report_given (lookup : KeyLookup) (registry : Registry) (issues : List Issue)
    (c : Compilation) (A B : List Diagnostic) :
    ((givenSuppressor lookup registry issues).report c (A ++ B) ()).1.Joins
      ((givenSuppressor lookup registry issues).report c A ()).1
      ((givenSuppressor lookup registry issues).report c B ()).1 := by
  cases hkey : (givenSuppressor lookup registry issues).locate c with
  | none =>
    simp only [Suppressor.report_none _ hkey]
    exact Report.joins_nothing _
  | some key =>
    by_cases hne : issues = []
    · subst hne
      simp only [Suppressor.report_nil _ hkey rfl]
      exact Report.joins_nothing _
    · simp only [Suppressor.report_some _ hkey rfl hne, Suppressor.verdicts_append]
      exact Report.joins_ofVerdicts ..

/-! ### The cache -/

theorem IssueCache.issues_cache_eq {c : IssueCache} {key : ProjectKey}
    (h : (c.entries.find? key).isSome ∨ c.store = none) (d : Disk) :
    (c.issues d key).cache = c := by
  unfold issues
  split
  · rfl
  · next hnone =>
    rw [hnone] at h
    rw [h.resolve_left (by simp)]

/-- The action hands issues to the cache, or makes it forget some. -/
def Action.setsEntries : Action → Bool
  | .update .. | .invalidate _ | .clear => true
  | _ => false

theorem Action.not_settles_of_setsEntries {a : Action} (h : a.setsEntries = false)
    (key : ProjectKey) : ¬ a.Settles key := by
  rintro (⟨l, rfl⟩ | hf)
  · cases h
  · cases a with
    | invalidate _ => cases h
    | clear => cases h
    | _ => exact hf.elim

namespace Session

variable {s : Session} {a : Action} {key : ProjectKey} {between : List Action}

/-- After somebody has asked for a key there is an entry, or no store to take one from. -/
theorem isSome_known?_or_of_asks (h : a.asks? s.lookup = some key) :
    ((s.step a).session.known? key).isSome ∨ (s.step a).session.cache.store = none := by
  rw [known?_step s (Action.not_settles_of_asks? h key), if_pos h, store_step]
  cases s.cache.store with
  | none => exact Or.inr rfl
  | some st => exact Or.inl (by cases s.known? key <;> rfl)

/-- **What was asked for stays** until the key is settled, whether or not there was an entry to be
had. -/
theorem known?_after_asked (h : a.asks? s.lookup = some key)
    (hset : ∀ b ∈ between, b.setsEntries = false) :
    ((s.step a).session.after between).known? key = (s.step a).session.known? key := by
  have hset' : ∀ b ∈ between, ¬ b.Settles key := fun b hb =>
    Action.not_settles_of_setsEntries (hset b hb) key
  cases hk : (s.step a).session.known? key with
  | some l => exact known?_after_of_some hk hset'
  | none =>
    have hstore := (isSome_known?_or_of_asks h).resolve_left (by simp [hk])
    exact known?_after_of_none hk hset' (Or.inl hstore)

theorem known?_after_of_quiet (hset : ∀ b ∈ between, b.setsEntries = false)
    (hquiet : ∀ b ∈ between, b.asks? s.lookup ≠ some key) :
    (s.after between).known? key = s.known? key := by
  induction between generalizing s with
  | nil => rfl
  | cons b between ih =>
    rw [List.forall_mem_cons] at hset hquiet
    have hnot := Action.not_settles_of_setsEntries hset.1 key
    rw [after_cons, ih hset.2 (by rw [(lookup_step s b).1]; exact hquiet.2), known?_step s hnot,
      if_neg hquiet.1]

theorem cache_after_of_quiet (hset : ∀ b ∈ between, b.setsEntries = false)
    (hquiet : ∀ b ∈ between, b.asks? s.lookup = none) : (s.after between).cache = s.cache := by
  induction between generalizing s with
  | nil => rfl
  | cons b between ih =>
    rw [List.forall_mem_cons] at hset hquiet
    rw [after_cons, ih hset.2 (by rw [(lookup_step s b).1]; exact hquiet.2), cache_step, hquiet.1]
    cases b with
    | update j l => cases hset.1
    | invalidate j => cases hset.1
    | clear => cases hset.1
    | _ => rfl

/-! ### The reports -/

theorem handsOut_after_asked (h : a.asks? s.lookup = some key)
    (hset : ∀ b ∈ between, b.setsEntries = false) :
    ((s.step a).session.after between).HandsOut key (s.cache.issues s.disk key).issues := by
  have hknown := known?_after_asked h hset
  have hstep := known?_step s (Action.not_settles_of_asks? h key)
  rw [if_pos h] at hstep
  rw [IssueCache.issues_issues, ← known?, ← hstep, ← hknown]
  cases hk : ((s.step a).session.after between).known? key with
  | some l => exact handsOut_of_known? hk
  | none =>
    rw [hk] at hknown
    have hstore := (isSome_known?_or_of_asks h).resolve_left (by simp [← hknown])
    have hnone := handsOut_of_known?_none hk
    rwa [store_after, hstore] at hnone

theorem cache_step_report (s : Session) {c : Compilation} (h : s.lookup.resolve? c = some key)
    (batch : List Diagnostic) :
    (s.step (.report c batch)).session.cache = (s.cache.issues s.disk key).cache := by
  rw [cache_step, show (Action.report c batch).asks? s.lookup = some key from h]

theorem cache_step_report_none (s : Session) {c : Compilation} (h : s.lookup.resolve? c = none)
    (batch : List Diagnostic) : (s.step (.report c batch)).session.cache = s.cache := by
  rw [cache_step, show (Action.report c batch).asks? s.lookup = none from h]

theorem cache_step_report_congr (s : Session) (c : Compilation) (A B : List Diagnostic) :
    (s.step (.report c A)).session.cache = (s.step (.report c B)).session.cache := by
  cases hc : s.lookup.resolve? c with
  | none => rw [cache_step_report_none s hc, cache_step_report_none s hc]
  | some key => rw [cache_step_report s hc, cache_step_report s hc]

theorem cache_step_report_again (s : Session) (c : Compilation) (A B : List Diagnostic)
    (hbetween : ∀ x ∈ between, x.setsEntries = false) :
    (((s.step (.report c A)).session.after between).step (.report c B)).session.cache
      = ((s.step (.report c A)).session.after between).cache := by
  have hlookup : ((s.step (.report c A)).session.after between).lookup = s.lookup := by
    rw [lookup_after, (lookup_step s _).1]
  cases hc : s.lookup.resolve? c with
  | none => exact cache_step_report_none _ (by rwa [hlookup]) B
  | some key =>
    have hasks : (Action.report c A).asks? s.lookup = some key := hc
    have hc' : ((s.step (.report c A)).session.after between).lookup.resolve? c = some key := by
      rwa [hlookup]
    rw [cache_step_report _ hc' B]
    refine IssueCache.issues_cache_eq ?_ _
    have hknown := known?_after_asked hasks hbetween
    rw [known?] at hknown
    rw [hknown, store_after]
    exact isSome_known?_or_of_asks hasks

/-- **A batch may be split.**  Let there be anything between the two reports that neither hands
issues to the cache nor makes it forget some: changes of the disk, by writes and from outside, and
questions.  The two reports join to the report on both batches.  The entries of the cache are the
same as after that one, at the key of the report and wherever nobody has asked meanwhile. -/
theorem report_split (s : Session) (c : Compilation) (A B : List Diagnostic)
    (hbetween : ∀ x ∈ between, x.setsEntries = false) :
    let whole := s.step (.report c (A ++ B))
    let first := s.step (.report c A)
    let second := (first.session.after between).step (.report c B)
    ∃ r a b, whole.answer = .report r ∧ first.answer = .report a ∧ second.answer = .report b ∧
      r.Joins a b ∧
      (∀ key, (s.lookup.resolve? c = some key ∨ ∀ x ∈ between, x.asks? s.lookup ≠ some key) →
        second.session.known? key = whole.session.known? key) ∧
      ((∀ x ∈ between, x.asks? s.lookup = none) →
        second.session.cache = whole.session.cache) := by
  intro whole first second
  have hfirst : first.session.lookup = s.lookup := (lookup_step s _).1
  have hlookup : (first.session.after between).lookup = s.lookup := by rw [lookup_after, hfirst]
  have hregistry : (first.session.after between).registry = s.registry := by
    rw [registry_after, (lookup_step s _).2]
  have hcache : first.session.cache = whole.session.cache := cache_step_report_congr s c A (A ++ B)
  have hagain : second.session.cache = (first.session.after between).cache :=
    cache_step_report_again s c A B hbetween
  have hentries : ∀ key, (s.lookup.resolve? c = some key ∨
      ∀ x ∈ between, x.asks? s.lookup ≠ some key) →
        second.session.known? key = whole.session.known? key := by
    intro key hkey
    have hbefore : (first.session.after between).known? key = first.session.known? key := by
      rcases hkey with hkey | hquiet
      · exact known?_after_asked (a := .report c A) hkey hbetween
      · exact known?_after_of_quiet hbetween (by rwa [hfirst])
    rw [known?, hagain, ← known?, hbefore, known?, hcache, known?]
  have hsame : (∀ x ∈ between, x.asks? s.lookup = none) →
      second.session.cache = whole.session.cache := by
    intro hquiet
    rw [hagain, cache_after_of_quiet hbetween (by rwa [hfirst]), hcache]
  cases hc : s.lookup.resolve? c with
  | none =>
    have hc' : (first.session.after between).lookup.resolve? c = none := by rwa [hlookup]
    exact ⟨_, _, _, answer_step_report_none s hc _, answer_step_report_none s hc _,
      answer_step_report_none _ hc' _, Report.joins_nothing _, hc ▸ hentries, hsame⟩
  | some key =>
    have hc' : (first.session.after between).lookup.resolve? c = some key := by rwa [hlookup]
    have hreport := (handsOut_after_asked (a := .report c A) hc hbetween).report c B hc'
    rw [hlookup, hregistry] at hreport
    exact ⟨_, _, _, answer_step_report s hc _, answer_step_report s hc _, hreport,
      joins_report_given _ _ _ c A B, hc ▸ hentries, hsame⟩

/-- The file is spoilt and written anew between the two reports, after the first one has read it. -/
theorem report_split_spoilt :
    let key : ProjectKey := ⟨"p", by decide, by decide⟩
    let issue : Issue := ⟨"s1", none, ""⟩
    let d (id : String) : Diagnostic := ⟨id, .file, ⟨""⟩⟩
    let far : Diagnostic := ⟨"S1", ⟨⟨4, 0⟩, ⟨4, 1⟩⟩, ⟨"a"⟩⟩
    let store : IssueStore := ⟨.ofString "known"⟩
    let registry : Registry := ⟨[.ofRule "why" "S1"]⟩
    let c : Compilation := ⟨.ofList [("key", "p")], []⟩
    let s := (start ⟨"key", "m", "r"⟩ registry (some store)).after [.write key [issue]]
    let between : List Action := [.edit (.put (store.pathFor key) [0xFF]), .write key []]
    (∀ x ∈ between, x.setsEntries = false) ∧
      ∃ r a b, (s.step (.report c ([d "S1", d "S2"] ++ [far, d "S1"]))).answer = .report r ∧
        (s.step (.report c [d "S1", d "S2"])).answer = .report a ∧
        (((s.step (.report c [d "S1", d "S2"])).session.after between).step
          (.report c [far, d "S1"])).answer = .report b ∧
        r.Joins a b ∧ a.suppressions.map (·.diagnostic) = [d "S1"] ∧
        b.suppressions.map (·.diagnostic) = [d "S1"] ∧ r.outcome = .error (.lineOutOfRange 4 1) := by
  intro key issue d far store registry c s between
  have hbetween : ∀ x ∈ between, x.setsEntries = false := by decide
  have hlookup : s.lookup = ⟨"key", "m", "r"⟩ := lookup_after ..
  have hregistry : s.registry = registry := registry_after ..
  have hkey : s.lookup.resolve? c = some key := by rw [hlookup]; decide
  have hissues : (s.cache.issues s.disk key).issues = [issue] := by decide +kernel
  obtain ⟨r, a, b, hr, ha, hb, hjoins, -⟩ :=
    report_split s c [d "S1", d "S2"] [far, d "S1"] hbetween
  refine ⟨hbetween, r, a, b, hr, ha, hb, hjoins, ?_⟩
  rw [answer_step_report s hkey, hissues, hlookup, hregistry, Answer.report.injEq] at hr ha
  have hwhole : r.suppressions.map (·.diagnostic) = [d "S1", d "S1"] := by rw [← hr]; decide +kernel
  have hfirst : a.suppressions.map (·.diagnostic) = [d "S1"] := by rw [← ha]; decide +kernel
  have hparts := congrArg (List.map Suppression.diagnostic) hjoins.suppressions
  rw [List.map_append, hwhole, hfirst] at hparts
  exact ⟨hfirst, (List.cons.inj hparts).2.symm, by rw [← hr]; decide +kernel⟩

end Session

end KnownIssues
