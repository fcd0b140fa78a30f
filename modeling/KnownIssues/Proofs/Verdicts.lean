import KnownIssues.Suppressor

/-! # What a batch comes to, read off its verdicts

The `verdicts` of a batch are the answers, one for each diagnostic of a registered rule.  Whatever is
counted on the way can be read off them at the end: the suppressed diagnostics and their number, the
first fault, and what was told (`Report.ofVerdicts`).

* `Tally.addAll_eq`: what the verdicts add to a tally, each of its parts by itself.
* `Suppressor.tally_eq`: the loop over a batch adds its verdicts.
* `Suppressor.report_some`: so a report is the one that is read off the verdicts. -/

namespace KnownIssues

/-- The answer for a diagnostic of a registered rule. -/
structure Verdict where
  descriptor : Descriptor
  diagnostic : Diagnostic
  answer : Except Fault Bool

namespace Verdict

/-- The suppression, if the diagnostic is settled. -/
def suppression? (v : Verdict) : Option Suppression :=
  match v.answer with
  | .ok true => some ⟨v.descriptor, v.diagnostic⟩
  | _ => none

/-- The fault, if the diagnostic could not be checked. -/
def fault? (v : Verdict) : Option Fault :=
  match v.answer with
  | .error e => some e
  | .ok _ => none

/-- What is told of the answer. -/
def event? (v : Verdict) : Option Event :=
  match v.answer with
  | .ok true => some (.suppressing v.diagnostic.id v.diagnostic.startLine)
  | .ok false => none
  | .error e => some (.cannotMatch v.diagnostic.id e)

end Verdict

/-- The report of a batch of `total` diagnostics, by its verdicts. -/
def Report.ofVerdicts (key : ProjectKey) (total : Nat) (vs : List Verdict) : Report :=
  let suppressions := vs.filterMap Verdict.suppression?
  { outcome :=
      match vs.findSome? Verdict.fault? with
      | some e => .error e
      | none => .ok suppressions.length
    suppressions := suppressions
    events := vs.filterMap Verdict.event? ++ [.suppressed suppressions.length total key] }

namespace Tally

/-! ### Verdicts in a tally -/

/-- The tally with some more verdicts. -/
def addAll (t : Tally) (vs : List Verdict) : Tally :=
  vs.foldl (fun t v => t.add v.descriptor v.diagnostic v.answer) t

theorem addAll_cons (t : Tally) (v : Verdict) (vs : List Verdict) :
    t.addAll (v :: vs) = (t.add v.descriptor v.diagnostic v.answer).addAll vs :=
  rfl

theorem filterMap_cons_eq {α β : Type} (f : α → Option β) (a : α) (l : List α) :
    (a :: l).filterMap f = (f a).toList ++ l.filterMap f := by
  rw [List.filterMap_cons]
  cases f a <;> rfl

theorem appendList_append {α : Type} (as : Array α) (l m : List α) :
    as ++ l ++ m = as ++ (l ++ m) :=
  Array.ext' (by simp)

/-- **One verdict** adds to each part of the tally what can be read off it. -/
theorem add_eq (t : Tally) (v : Verdict) :
    t.add v.descriptor v.diagnostic v.answer
      = ⟨t.suppressions ++ v.suppression?.toList, t.count + v.suppression?.toList.length,
        t.firstFault.or v.fault?, t.events ++ v.event?.toList⟩ := by
  obtain ⟨descriptor, d, answer⟩ := v
  rcases answer with e | _ | _
  · simp [add, Verdict.suppression?, Verdict.fault?, Verdict.event?]
  · simp [add, Verdict.suppression?, Verdict.fault?, Verdict.event?]
  · simp [add, Verdict.suppression?, Verdict.fault?, Verdict.event?]

/-- **All verdicts** do so in order. -/
theorem addAll_eq (t : Tally) (vs : List Verdict) :
    t.addAll vs
      = ⟨t.suppressions ++ vs.filterMap Verdict.suppression?,
        t.count + (vs.filterMap Verdict.suppression?).length,
        t.firstFault.or (vs.findSome? Verdict.fault?),
        t.events ++ vs.filterMap Verdict.event?⟩ := by
  induction vs generalizing t with
  | nil => simp [addAll]
  | cons v vs ih =>
    have hfault : (v :: vs).findSome? Verdict.fault?
        = v.fault?.or (vs.findSome? Verdict.fault?) := by
      rw [List.findSome?_cons]
      cases v.fault? <;> rfl
    rw [addAll_cons, ih, add_eq, filterMap_cons_eq, filterMap_cons_eq, hfault, List.length_append,
      appendList_append, appendList_append, Nat.add_assoc, Option.or_assoc]

theorem report_addAll (key : ProjectKey) (total : Nat) (vs : List Verdict) :
    (start.addAll vs).report key total = .ofVerdicts key total vs := by
  rw [addAll_eq, report, Report.ofVerdicts]
  cases h : vs.findSome? Verdict.fault? with
  | none => simp [start]
  | some e => simp [start]

end Tally

namespace Suppressor

/-! ### The loop -/

variable {σ : Type}

/-- The answers for the diagnostics of registered rules. -/
def verdicts (p : Suppressor σ) (issues : List Issue) : List Diagnostic → σ → List Verdict × σ
  | [], s => ([], s)
  | d :: ds, s =>
    match p.registry.get? d.id with
    | none => verdicts p issues ds s
    | some descriptor =>
      let (answer, s) := p.check issues d s
      let (vs, s) := verdicts p issues ds s
      (⟨descriptor, d, answer⟩ :: vs, s)

theorem verdicts_cons_none (p : Suppressor σ) (issues : List Issue) {d : Diagnostic}
    (h : p.registry.get? d.id = none) (ds : List Diagnostic) (s : σ) :
    p.verdicts issues (d :: ds) s = p.verdicts issues ds s := by
  rw [verdicts, h]

theorem verdicts_cons_some (p : Suppressor σ) (issues : List Issue) {d : Diagnostic}
    {descriptor : Descriptor} (h : p.registry.get? d.id = some descriptor)
    (ds : List Diagnostic) (s : σ) :
    p.verdicts issues (d :: ds) s
      = (⟨descriptor, d, (p.check issues d s).1⟩
          :: (p.verdicts issues ds (p.check issues d s).2).1,
        (p.verdicts issues ds (p.check issues d s).2).2) := by
  rw [verdicts, h]

/-- **The loop over a batch** adds its verdicts to the tally, and leaves the same state. -/
theorem tally_eq (p : Suppressor σ) (issues : List Issue) (ds : List Diagnostic) (t : Tally)
    (s : σ) :
    p.tally issues ds t s
      = (t.addAll (p.verdicts issues ds s).1, (p.verdicts issues ds s).2) := by
  induction ds generalizing t s with
  | nil => rfl
  | cons d ds ih =>
    rw [tally]
    cases h : p.registry.get? d.id with
    | none =>
      rw [verdicts_cons_none p issues h]
      exact ih t s
    | some descriptor =>
      rw [verdicts_cons_some p issues h]
      exact ih ..

/-! ### The report -/

theorem report_none (p : Suppressor σ) {c : Compilation} (h : p.locate c = none)
    (batch : List Diagnostic) (s : σ) : p.report c batch s = (.nothing .noKey, s) := by
  rw [report, h]

theorem report_nil (p : Suppressor σ) {c : Compilation} {key : ProjectKey} {s t : σ}
    (h : p.locate c = some key) (hk : p.candidates key s = ([], t)) (batch : List Diagnostic) :
    p.report c batch s = (.nothing (.noIssues key), t) := by
  simp only [report, h, hk]

theorem report_some (p : Suppressor σ) {c : Compilation} {key : ProjectKey} {issues : List Issue}
    {s t : σ} (h : p.locate c = some key) (hk : p.candidates key s = (issues, t))
    (hne : issues ≠ []) (batch : List Diagnostic) :
    p.report c batch s
      = (.ofVerdicts key batch.length (p.verdicts issues batch t).1,
        (p.verdicts issues batch t).2) := by
  obtain ⟨i, issues, rfl⟩ := List.exists_cons_of_ne_nil hne
  simp only [report, h, hk, tally_eq, Tally.report_addAll]

end Suppressor

end KnownIssues
