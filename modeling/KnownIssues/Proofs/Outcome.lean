import KnownIssues.Proofs.CacheHistory
import KnownIssues.Proofs.Matching

/-! # How a report can end

Whatever the disk is like, the cache hands out a list: what it cannot read counts as no issues.  So
a report ends with the number of its suppressions, or with the fault of a diagnostic of the batch
(`Diagnostic.Astray`), and nothing that is wrong with the disk shows in it.

* `error_isSettled`: only a diagnostic that ends behind its source cannot be checked.
* `outcome_ofVerdicts`: the fault of a report is that of one of the verdicts.
* `outcome_after`: both together, after any actions.  Asking and reporting leave the disk as it
  is. -/

namespace KnownIssues

/-- The diagnostic of a registered rule ends on a line that its source does not have. -/
structure Diagnostic.Astray (r : Registry) (d : Diagnostic) : Prop where
  registered : (r.get? d.id).isSome
  span_ne : d.span ≠ ⟨⟨0, 0⟩, ⟨0, 0⟩⟩
  lineCount_le : d.source.lineCount ≤ d.endLine

/-! ### One diagnostic -/

/-- **What cannot be checked** ends behind its source. -/
theorem error_isSettled {issues : List Issue} {d : Diagnostic} {e : Fault}
    (h : isSettled issues d = .error e) :
    d.span ≠ ⟨⟨0, 0⟩, ⟨0, 0⟩⟩ ∧ d.source.lineCount ≤ d.endLine ∧
      e = .lineOutOfRange d.endLine d.source.lineCount := by
  have hfile : d.isFileLevel = false := by
    cases hd : d.isFileLevel with
    | false => rfl
    | true => rw [isSettled, judge_file fingerprint issues hd] at h; cases h
  have hline : d.endLineText? = none := by
    cases hl : d.endLineText? with
    | none => rfl
    | some line => rw [isSettled, verdict_judge_of_line fingerprint issues hfile hl] at h; cases h
  refine ⟨fun hd => ?_, Source.line?_eq_none_iff.1 hline, ?_⟩
  · rw [isFileLevel_iff.2 hd] at hfile; cases hfile
  · rw [isSettled] at h
    cases hr : relevant issues d with
    | nil => rw [judge_of_relevant_nil fingerprint hr] at h; cases h
    | cons i rest =>
      rw [judge_of_relevant_cons fingerprint hfile hr, hline] at h
      split at h
      · cases h
      · exact (Except.error.inj h).symm

/-! ### A batch -/

theorem Suppressor.verdict_of_mem {σ : Type} {p : Suppressor σ} {issues : List Issue}
    {f : Diagnostic → Except Fault Bool} (hp : ∀ d s, p.check issues d s = (f d, s))
    {batch : List Diagnostic} {s : σ} {v : Verdict} (hv : v ∈ (p.verdicts issues batch s).1) :
    v.diagnostic ∈ batch ∧ (p.registry.get? v.diagnostic.id).isSome ∧
      v.answer = f v.diagnostic := by
  induction batch with
  | nil => cases hv
  | cons d batch ih =>
    cases h : p.registry.get? d.id with
    | none =>
      rw [verdicts_cons_none p issues h] at hv
      obtain ⟨hmem, hrest⟩ := ih hv
      exact ⟨List.mem_cons_of_mem _ hmem, hrest⟩
    | some descriptor =>
      rw [verdicts_cons_some p issues h, hp] at hv
      rcases List.mem_cons.1 hv with rfl | hv
      · exact ⟨List.mem_cons_self .., by rw [h]; rfl, rfl⟩
      · obtain ⟨hmem, hrest⟩ := ih hv
        exact ⟨List.mem_cons_of_mem _ hmem, hrest⟩

theorem fault?_eq_some {v : Verdict} {e : Fault} (h : v.fault? = some e) : v.answer = .error e := by
  unfold Verdict.fault? at h
  split at h
  · next he => cases h; exact he
  · cases h

theorem outcome_ofVerdicts (key : ProjectKey) (total : Nat) (vs : List Verdict) :
    (Report.ofVerdicts key total vs).outcome
        = .ok (Report.ofVerdicts key total vs).suppressions.length ∨
      ∃ v ∈ vs, ∃ e, v.answer = .error e ∧
        (Report.ofVerdicts key total vs).outcome = .error e := by
  unfold Report.ofVerdicts
  cases h : vs.findSome? Verdict.fault? with
  | none => exact Or.inl rfl
  | some e =>
    obtain ⟨v, hv, he⟩ := List.exists_of_findSome?_eq_some h
    exact Or.inr ⟨v, hv, e, fault?_eq_some he, rfl⟩

/-- **How a report on given issues ends.** -/
theorem outcome_report_given (lookup : KeyLookup) (registry : Registry) (issues : List Issue)
    (c : Compilation) (batch : List Diagnostic) :
    ((givenSuppressor lookup registry issues).report c batch ()).1.outcome
        = .ok ((givenSuppressor lookup registry issues).report c batch ()).1.suppressions.length ∨
      ∃ d ∈ batch, d.Astray registry ∧
        ((givenSuppressor lookup registry issues).report c batch ()).1.outcome
          = .error (.lineOutOfRange d.endLine d.source.lineCount) := by
  cases hkey : (givenSuppressor lookup registry issues).locate c with
  | none =>
    rw [Suppressor.report_none _ hkey]
    exact Or.inl rfl
  | some key =>
    by_cases hne : issues = []
    · subst hne
      rw [Suppressor.report_nil _ hkey rfl]
      exact Or.inl rfl
    · rw [Suppressor.report_some _ hkey rfl hne]
      refine (outcome_ofVerdicts ..).imp_right ?_
      rintro ⟨v, hv, e, hanswer, houtcome⟩
      obtain ⟨hmem, hregistered, hsettled⟩ :=
        Suppressor.verdict_of_mem (f := isSettled issues) (fun _ _ => rfl) hv
      rw [hsettled] at hanswer
      obtain ⟨hspan, hline, rfl⟩ := error_isSettled hanswer
      exact ⟨v.diagnostic, hmem, ⟨hregistered, hspan, hline⟩, houtcome⟩

/-! ### Sessions -/

theorem IssueStore.listOn_of_read_error {st : IssueStore} {d : Disk} {key : ProjectKey} {e : Fault}
    (h : st.read d key = .error e) : st.listOn d key = [] := by
  rw [← IssueCache.load_fst]
  unfold IssueCache.load
  rw [h]

namespace Session

theorem handsOut_of_read_error {s : Session} {st : IssueStore} (hs : s.cache.store = some st)
    {key : ProjectKey} (hk : s.known? key = none) {e : Fault} (h : st.read s.disk key = .error e) :
    s.HandsOut key [] := by
  have hout := handsOut_of_known?_none hk
  rw [hs] at hout
  rwa [Option.map_some, Option.getD_some, IssueStore.listOn_of_read_error h] at hout

/-- **How a report ends, after any actions.**  There is a list for every key, for those who ask and
for a report, and it is empty if the file could not be read.  A report ends with the number of its
suppressions, or with the fault of a diagnostic of the batch that ends behind its source.  Neither
question nor report changes the disk. -/
theorem outcome_after (s : Session) (past : List Action) :
    (∀ key,
      (∃ l, (s.after past).HandsOut key l) ∧
      (∀ st e, (s.after past).cache.store = some st → (s.after past).known? key = none →
        st.read (s.after past).disk key = .error e → (s.after past).HandsOut key []) ∧
      ((s.after past).step (.issues key)).session.disk = (s.after past).disk) ∧
    ∀ c batch, ∃ r, ((s.after past).step (.report c batch)).answer = .report r ∧
      (r.outcome = .ok r.suppressions.length ∨
        ∃ d ∈ batch, d.Astray s.registry ∧
          r.outcome = .error (.lineOutOfRange d.endLine d.source.lineCount)) ∧
      ((s.after past).step (.report c batch)).session.disk = (s.after past).disk := by
  refine ⟨fun key => ⟨⟨_, handsOut_issues _ key⟩, ?_, rfl⟩, fun c batch => ?_⟩
  · intro st e hst hk h
    exact handsOut_of_read_error hst hk h
  · cases hc : (s.after past).lookup.resolve? c with
    | none =>
      refine ⟨_, answer_step_report_none _ hc batch, Or.inl rfl, rfl⟩
    | some key =>
      have houtcome := outcome_report_given (s.after past).lookup (s.after past).registry
        ((s.after past).cache.issues (s.after past).disk key).issues c batch
      rw [registry_after] at houtcome
      exact ⟨_, answer_step_report _ hc batch, by rwa [registry_after], rfl⟩

/-- A file stands where the directory of the store should be, so nothing can be read; and the issues
of another project were handed over, one of which meets a diagnostic behind the end of its source. -/
theorem outcome_after_blocked :
    let j : ProjectKey := ⟨"j", by decide, by decide⟩
    let k : ProjectKey := ⟨"k", by decide, by decide⟩
    let d (line : UInt64) : Diagnostic := ⟨"S1", ⟨⟨line, 0⟩, ⟨line, 1⟩⟩, ⟨"a\nb"⟩⟩
    let store : IssueStore := ⟨.ofString "known"⟩
    let registry : Registry := ⟨[.ofRule "why" "S1"]⟩
    let c : Compilation := ⟨.ofList [("key", "k")], []⟩
    let s := start ⟨"key", "m", "r"⟩ registry (some store)
    let past : List Action :=
      [.edit (.put (.ofString "known") [0x7b]), .update k [⟨"s1", some ⟨1, 1⟩, ""⟩]]
    (s.after past).HandsOut j [] ∧
      ∃ r, ((s.after past).step (.report c [d 1, d 7, d 1])).answer = .report r ∧
        r.suppressions.map (·.diagnostic) = [d 1, d 1] ∧ r.outcome = .error (.lineOutOfRange 7 2) ∧
        (d 7).Astray registry := by
  intro j k d store registry c s past
  obtain ⟨hlists, hreports⟩ := outcome_after s past
  have hread : store.read (s.after past).disk j = .error (.disk .notADirectory) := by decide +kernel
  obtain ⟨r, hr, houtcome, -⟩ := hreports c [d 1, d 7, d 1]
  have hknown : (s.after past).known? k = some [⟨"s1", some ⟨1, 1⟩, ""⟩] := rfl
  have hreport := (handsOut_of_known? hknown).report c [d 1, d 7, d 1] (by decide +kernel)
  rw [hr, Answer.report.injEq] at hreport
  have herror : r.outcome = .error (.lineOutOfRange 7 2) := by rw [hreport]; decide +kernel
  refine ⟨(hlists j).2.1 store _ rfl rfl hread, r, hr, by rw [hreport]; decide +kernel, herror, ?_⟩
  rcases houtcome with hok | ⟨x, hx, hastray, he⟩
  · rw [herror] at hok; cases hok
  · rw [herror, Except.error.injEq, Fault.lineOutOfRange.injEq] at he
    obtain rfl : x = d 7 := by
      simp only [List.mem_cons, List.not_mem_nil, or_false] at hx
      rcases hx with rfl | rfl | rfl
      · exact absurd he.1 (by decide)
      · rfl
      · exact absurd he.1 (by decide)
    exact hastray

end Session

end KnownIssues
