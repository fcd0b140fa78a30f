import KnownIssues.Proofs.Batch
import KnownIssues.Proofs.Matching
import Mathlib.Data.List.Basic

/-! # A list of issues counts as a set

Of an issue only its `Mark` matters: the rule up to letter case, the line it starts on, and the hash.
A diagnostic that can be checked is settled just if one of the marks covers it (`isSettled_eq_covered`),
whatever the order of the issues and however often each of them is there.

* `report_given`: a report suppresses the covered diagnostics of registered rules and counts them.
  This is also so for no issues at all, although then nothing is checked.
* `covered_of_subset`, `report_of_marks_subset`: the more marks, the more is suppressed. -/

namespace KnownIssues

/-- What matching looks at in an issue: the rule up to letter case, the line that the issue starts on
unless it is about its file as a whole, and the hash. -/
structure Mark where
  rule : List Char
  start : Option UInt64
  hash : String
  deriving DecidableEq

/-- The mark of an issue. -/
def Issue.mark (i : Issue) : Mark :=
  ⟨Text.foldCase i.rule, i.range.map (·.first), i.hash⟩

/-- An issue with this mark settles the diagnostic. -/
def Mark.covers (m : Mark) (d : Diagnostic) : Bool :=
  Text.foldCase d.id == m.rule &&
    if d.isFileLevel then m.start.isNone
    else m.start == some d.startLine || d.endLineText?.any (fingerprint · == m.hash)

/-- One of the issues settles the diagnostic. -/
def covered (issues : List Issue) (d : Diagnostic) : Bool :=
  (issues.map Issue.mark).any (·.covers d)

/-- The diagnostic is about the file as a whole, or ends on a line of its source. -/
def Diagnostic.Checkable (d : Diagnostic) : Prop :=
  d.span = ⟨⟨0, 0⟩, ⟨0, 0⟩⟩ ∨ d.endLine < d.source.lineCount

/-! ### One diagnostic -/

theorem startsAt_eq (i : Issue) (n : UInt64) : i.startsAt n = (i.mark.start == some n) := by
  unfold Issue.startsAt Issue.mark
  cases i.range <;> simp

theorem covered_eq_any_relevant (issues : List Issue) (d : Diagnostic) :
    covered issues d
      = (relevant issues d).any fun i =>
          if d.isFileLevel then i.isFileLevel
          else i.startsAt d.startLine || d.endLineText?.any (fingerprint · == i.hash) := by
  rw [covered, List.any_map, relevant, List.any_filter]
  congr 1
  funext i
  simp only [Function.comp_apply, Mark.covers, startsAt_eq, Issue.concerns, Text.sameIgnoringCase]
  congr 1
  simp [Issue.mark, Issue.isFileLevel]

/-- **A diagnostic that can be checked** is settled just if a mark covers it. -/
theorem isSettled_eq_covered (issues : List Issue) {d : Diagnostic} (hd : d.Checkable) :
    isSettled issues d = .ok (covered issues d) := by
  rw [covered_eq_any_relevant, isSettled]
  cases hfile : d.isFileLevel with
  | true =>
    have hany : (relevant issues d).any Issue.isFileLevel
        = decide (∃ i ∈ relevant issues d, i.range = none) := by
      rw [Bool.eq_iff_iff]
      simp [Issue.isFileLevel]
    rw [judge_file fingerprint issues hfile, ← hany]
    rfl
  | false =>
    have hlt : d.endLine < d.source.lineCount := hd.resolve_left fun h => by
      rw [isFileLevel_iff.2 h] at hfile
      cases hfile
    obtain ⟨line, hline⟩ := Option.ne_none_iff_exists'.1 fun h =>
      absurd (Source.line?_eq_none_iff.1 h) (Nat.not_le.2 hlt)
    have htext : d.endLineText? = some line := hline
    rw [verdict_judge_of_line fingerprint issues hfile htext, htext]
    rfl

theorem covered_of_subset {A B : List Issue} (h : A.map Issue.mark ⊆ B.map Issue.mark)
    {d : Diagnostic} (hd : covered A d = true) : covered B d = true := by
  obtain ⟨m, hm, hcovers⟩ := List.any_eq_true.1 hd
  exact List.any_eq_true.2 ⟨m, h hm, hcovers⟩

/-! ### A batch -/

/-- The suppressions of the diagnostics whose rules are registered. -/
def Registry.suppressions (r : Registry) (ds : List Diagnostic) : List Suppression :=
  ds.filterMap fun d => (r.get? d.id).map (⟨·, d⟩)

namespace Suppressor

variable {σ : Type}

/-- Diagnostics are checked by fingerprints, and nothing is kept of it. -/
def ByFingerprint (p : Suppressor σ) : Prop :=
  ∀ issues d s, p.check issues d s = (isSettled issues d, s)

/-- The suppressor that has these issues for every key. -/
def given (p : Suppressor σ) (issues : List Issue) : Suppressor σ :=
  { p with candidates := fun _ s => (issues, s) }

variable {p : Suppressor σ} {batch : List Diagnostic}

theorem suppressions_cons {r : Registry} {d : Diagnostic} {descriptor : Descriptor}
    (h : r.get? d.id = some descriptor) (ds : List Diagnostic) :
    r.suppressions (d :: ds) = ⟨descriptor, d⟩ :: r.suppressions ds := by
  rw [Registry.suppressions, List.filterMap_cons, h]
  rfl

theorem suppressions_cons_none {r : Registry} {d : Diagnostic} (h : r.get? d.id = none)
    (ds : List Diagnostic) : r.suppressions (d :: ds) = r.suppressions ds := by
  rw [Registry.suppressions, List.filterMap_cons, h]
  rfl

theorem verdicts_byFingerprint (hp : p.ByFingerprint) (issues : List Issue)
    (hbatch : ∀ d ∈ batch, d.Checkable) (s : σ) :
    (p.verdicts issues batch s).1.findSome? Verdict.fault? = none ∧
      (p.verdicts issues batch s).1.filterMap Verdict.suppression?
        = p.registry.suppressions (batch.filter (covered issues)) := by
  induction batch generalizing s with
  | nil => exact ⟨rfl, rfl⟩
  | cons d batch ih =>
    rw [List.forall_mem_cons] at hbatch
    obtain ⟨hfault, hsuppressed⟩ := ih hbatch.2 s
    cases hget : p.registry.get? d.id with
    | none =>
      rw [verdicts_cons_none p issues hget]
      refine ⟨hfault, hsuppressed.trans ?_⟩
      rw [List.filter_cons]
      split
      · rw [suppressions_cons_none hget]
      · rfl
    | some descriptor =>
      have hcheck : p.check issues d s = (.ok (covered issues d), s) := by
        rw [hp, isSettled_eq_covered issues hbatch.1]
      rw [verdicts_cons_some p issues hget, hcheck]
      refine ⟨hfault, ?_⟩
      cases hc : covered issues d with
      | false =>
        rw [List.filter_cons_of_neg (by simp [hc]), ← hsuppressed]
        rfl
      | true =>
        rw [List.filter_cons_of_pos hc, suppressions_cons hget, ← hsuppressed]
        rfl

theorem ofVerdicts_byFingerprint (hp : p.ByFingerprint) (issues : List Issue)
    (hbatch : ∀ d ∈ batch, d.Checkable) (key : ProjectKey) (s : σ) :
    (Report.ofVerdicts key batch.length (p.verdicts issues batch s).1).suppressions
        = p.registry.suppressions (batch.filter (covered issues)) ∧
      (Report.ofVerdicts key batch.length (p.verdicts issues batch s).1).outcome
        = .ok (p.registry.suppressions (batch.filter (covered issues))).length := by
  obtain ⟨hfault, hsuppressed⟩ := verdicts_byFingerprint hp issues hbatch s
  exact ⟨hsuppressed, by simp only [Report.ofVerdicts, hfault, hsuppressed]⟩

/-! ### The report -/

/-- **A report on these issues** suppresses the covered diagnostics of registered rules. -/
theorem report_given (hp : p.ByFingerprint) (issues : List Issue)
    (hbatch : ∀ d ∈ batch, d.Checkable) {c : Compilation} {key : ProjectKey}
    (hkey : p.locate c = some key) (s : σ) :
    ((p.given issues).report c batch s).1.suppressions
        = p.registry.suppressions (batch.filter (covered issues)) ∧
      ((p.given issues).report c batch s).1.outcome
        = .ok (p.registry.suppressions (batch.filter (covered issues))).length := by
  have hgiven : (p.given issues).locate c = some key := hkey
  by_cases hne : issues = []
  · subst hne
    rw [report_nil (p.given []) hgiven rfl]
    have hnone : batch.filter (covered []) = [] := by
      rw [List.filter_eq_nil_iff]
      intro d _
      simp [covered]
    rw [hnone]
    exact ⟨rfl, rfl⟩
  · rw [report_some (p.given issues) hgiven rfl hne]
    exact ofVerdicts_byFingerprint (p := p.given issues) hp issues hbatch key s

/-- **Only the marks of the issues count.**  If each mark of `A` is one of `B`, what is suppressed
with `A` is a part of what is suppressed with `B`, in order, and if the marks are the same, so are the
two reports.  Both are what checking every diagnostic comes to, also where the list is empty and the
report does not check at all. -/
theorem report_of_marks_subset (hp : p.ByFingerprint) (hbatch : ∀ d ∈ batch, d.Checkable)
    {A B : List Issue} (hAB : A.map Issue.mark ⊆ B.map Issue.mark) (c : Compilation) (s : σ) :
    ∃ a b, ((p.given A).report c batch s).1 = a ∧ ((p.given B).report c batch s).1 = b ∧
      a.outcome = .ok a.suppressions.length ∧ b.outcome = .ok b.suppressions.length ∧
      a.suppressions.Sublist b.suppressions ∧
      (B.map Issue.mark ⊆ A.map Issue.mark →
        a.suppressions = b.suppressions ∧ a.outcome = b.outcome) ∧
      ∀ key, p.locate c = some key →
        a.suppressions
            = (Report.ofVerdicts key batch.length (p.verdicts A batch s).1).suppressions ∧
          a.outcome = (Report.ofVerdicts key batch.length (p.verdicts A batch s).1).outcome := by
  refine ⟨_, _, rfl, rfl, ?_⟩
  cases hkey : p.locate c with
  | none =>
    rw [report_none (p.given A) hkey, report_none (p.given B) hkey]
    exact ⟨rfl, rfl, List.Sublist.refl _, fun _ => ⟨rfl, rfl⟩, fun _ h => by cases h⟩
  | some key =>
    obtain ⟨hsA, hoA⟩ := report_given hp A hbatch hkey s
    obtain ⟨hsB, hoB⟩ := report_given hp B hbatch hkey s
    rw [hsA, hsB, hoA, hoB]
    refine ⟨rfl, rfl, ?_, fun hBA => ?_, fun key' hkey' => ?_⟩
    · exact (List.monotone_filter_right batch fun _ => covered_of_subset hAB).filterMap _
    · have hsame : covered A = covered B := by
        funext d
        rw [Bool.eq_iff_iff]
        exact ⟨covered_of_subset hAB, covered_of_subset hBA⟩
      rw [hsame]
      exact ⟨rfl, rfl⟩
    · obtain ⟨hs, ho⟩ := ofVerdicts_byFingerprint hp A hbatch key' s
      exact ⟨hs.symm, ho.symm⟩

/-- One issue, and a longer list in which it is spelled otherwise and ends elsewhere. -/
theorem report_of_marks_subset_spelled :
    let key : ProjectKey := ⟨"p", by decide, by decide⟩
    let p : Suppressor Unit := ⟨fun _ => some key, fun _ s => ([], s),
      fun issues d s => (isSettled issues d, s), ⟨[.ofRule "why" "S1", .ofRule "why" "S2"]⟩⟩
    let batch : List Diagnostic := [⟨"S2", .file, ⟨""⟩⟩, ⟨"S1", ⟨⟨1, 0⟩, ⟨2, 1⟩⟩, ⟨"a\nb\nc"⟩⟩]
    let A : List Issue := [⟨"s1", some ⟨1, 4⟩, "x"⟩]
    let B : List Issue := [⟨"s2", none, ""⟩, ⟨"S1", some ⟨1, 2⟩, "x"⟩, ⟨"s2", none, ""⟩]
    p.ByFingerprint ∧ (∀ d ∈ batch, d.Checkable) ∧ A.map Issue.mark ⊆ B.map Issue.mark ∧
      ∃ a b, ((p.given A).report ⟨.empty, []⟩ batch ()).1 = a ∧
        ((p.given B).report ⟨.empty, []⟩ batch ()).1 = b ∧
        a.outcome = .ok 1 ∧ b.outcome = .ok 2 ∧ a.suppressions.Sublist b.suppressions := by
  intro key p batch A B
  have hp : p.ByFingerprint := fun _ _ _ => rfl
  have hbatch : ∀ d ∈ batch, d.Checkable := by
    intro d hd
    rcases List.mem_cons.1 hd with rfl | hd
    · exact Or.inl rfl
    · rw [List.mem_singleton.1 hd]
      exact Or.inr (by decide)
  have hAB : A.map Issue.mark ⊆ B.map Issue.mark := by decide
  obtain ⟨a, b, rfl, rfl, ha, hb, hsub, -⟩ :=
    report_of_marks_subset hp hbatch hAB ⟨.empty, []⟩ ()
  exact ⟨hp, hbatch, hAB, _, _, rfl, rfl, ha.trans (congrArg Except.ok (by decide)),
    hb.trans (congrArg Except.ok (by decide)), hsub⟩

end Suppressor

end KnownIssues
