import KnownIssues.Proofs.Registry
import KnownIssues.Proofs.Verdicts

/-! # What a batch asks for, and what it reports

A suppressor asks for the issues of a project and has diagnostics checked.  To speak of these calls,
`recorded` keeps a list of them in the state, next to whatever state the parts of the suppressor
have themselves.

* `recorded_verdicts`: a run over a batch checks the diagnostics of registered rules, in order, and
  nothing else; recording does not change the answers.
* `verdicts_eq`: the verdicts are those diagnostics, each with its own answer.  The answers are the
  ones that the checker gives to one diagnostic after another (`answers`), each in the state that
  the one before has left.
* `recorded_report`: all of this for a whole report, with what it makes of the answers. -/

namespace KnownIssues

/-- A call of a suppressor to one of its parts. -/
inductive Call where
  | candidates (key : ProjectKey)
  | check (issues : List Issue) (d : Diagnostic)
  deriving DecidableEq

/-- The suppressions of the diagnostics that were answered with yes. -/
def granted (justification : String) (answered : List (Diagnostic × Except Fault Bool)) :
    List Suppression :=
  answered.filterMap fun
    | (d, .ok true) => some ⟨⟨"SLS_" ++ d.id, d.id, justification⟩, d⟩
    | _ => none

/-- The first fault among answers. -/
def firstFault? (answers : List (Except Fault Bool)) : Option Fault :=
  answers.findSome? fun
    | .error e => some e
    | .ok _ => none

namespace Suppressor

variable {σ : Type}

/-- The suppressor that keeps a list of its calls, the last one at its end. -/
def recorded (p : Suppressor σ) : Suppressor (σ × List Call) where
  locate := p.locate
  candidates key s :=
    ((p.candidates key s.1).1, (p.candidates key s.1).2, s.2 ++ [.candidates key])
  check issues d s :=
    ((p.check issues d s.1).1, (p.check issues d s.1).2, s.2 ++ [.check issues d])
  registry := p.registry

/-- What the checker answers to one diagnostic after another. -/
def answers (p : Suppressor σ) (issues : List Issue) (ds : List Diagnostic) (s : σ) :
    List (Except Fault Bool) × σ :=
  ds.mapM (m := StateM σ) (p.check issues) s

theorem answers_cons (p : Suppressor σ) (issues : List Issue) (d : Diagnostic)
    (ds : List Diagnostic) (s : σ) :
    p.answers issues (d :: ds) s
      = ((p.check issues d s).1 :: (p.answers issues ds (p.check issues d s).2).1,
        (p.answers issues ds (p.check issues d s).2).2) := by
  unfold answers
  rw [List.mapM_cons]
  rfl

theorem length_answers (p : Suppressor σ) (issues : List Issue) (ds : List Diagnostic) (s : σ) :
    (p.answers issues ds s).1.length = ds.length := by
  induction ds generalizing s with
  | nil => rfl
  | cons d ds ih => rw [answers_cons, List.length_cons, ih, List.length_cons]

/-! ### The batch -/

/-- **The calls of a batch**: a check of each diagnostic of a registered rule. -/
theorem recorded_verdicts (p : Suppressor σ) (issues : List Issue) (ds : List Diagnostic) (s : σ)
    (calls : List Call) :
    p.recorded.verdicts issues ds (s, calls)
      = ((p.verdicts issues ds s).1, (p.verdicts issues ds s).2,
        calls ++ (ds.filter fun d => (p.registry.get? d.id).isSome).map (.check issues)) := by
  induction ds generalizing s calls with
  | nil => simp [verdicts]
  | cons d ds ih =>
    cases h : p.registry.get? d.id with
    | none =>
      rw [verdicts_cons_none p issues h, verdicts_cons_none p.recorded issues h, ih]
      simp [h]
    | some descriptor =>
      rw [verdicts_cons_some p issues h, verdicts_cons_some p.recorded issues h]
      have hcheck : (p.recorded.check issues d (s, calls)).2
          = ((p.check issues d s).2, calls ++ [.check issues d]) := rfl
      rw [hcheck, ih]
      simp [h, recorded]

/-- **The verdicts of a batch**, if the registry knows just the given rules. -/
theorem verdicts_eq (p : Suppressor σ) {justification : String} {rules : List String}
    (hreg : ∀ id, p.registry.get? id
      = if id ∈ rules then some (.ofRule justification id) else none)
    (issues : List Issue) (ds : List Diagnostic) (s : σ) :
    p.verdicts issues ds s
      = (((ds.filter (·.id ∈ rules)).zip (p.answers issues (ds.filter (·.id ∈ rules)) s).1).map
          fun x => ⟨.ofRule justification x.1.id, x.1, x.2⟩,
        (p.answers issues (ds.filter (·.id ∈ rules)) s).2) := by
  induction ds generalizing s with
  | nil => rfl
  | cons d ds ih =>
    by_cases hd : d.id ∈ rules
    · rw [verdicts_cons_some p issues (by rw [hreg, if_pos hd]), ih,
        List.filter_cons_of_pos (by simpa using hd), answers_cons]
      rfl
    · rw [verdicts_cons_none p issues (by rw [hreg, if_neg hd]), ih,
        List.filter_cons_of_neg (by simpa using hd)]

/-! ### What is read off the verdicts -/

theorem suppressions_eq_granted (justification : String)
    (answered : List (Diagnostic × Except Fault Bool)) :
    (answered.map fun x => Verdict.mk (.ofRule justification x.1.id) x.1 x.2).filterMap
        Verdict.suppression?
      = granted justification answered := by
  rw [List.filterMap_map, granted]
  congr 1
  funext ⟨d, answer⟩
  rcases answer with e | _ | _ <;> rfl

theorem fault?_eq_firstFault? (justification : String) {ds : List Diagnostic}
    {as : List (Except Fault Bool)} (h : as.length = ds.length) :
    ((ds.zip as).map fun x => Verdict.mk (.ofRule justification x.1.id) x.1 x.2).findSome?
        Verdict.fault?
      = firstFault? as := by
  have hsnd : as = (ds.zip as).map Prod.snd := by rw [List.map_snd_zip (by omega)]
  rw [firstFault?]
  conv => rhs; rw [hsnd]
  rw [List.findSome?_map, List.findSome?_map]
  congr 1

/-! ### The report -/

/-- **A report, its calls and its state.**  Without a key nothing is called; without issues the
checker is not called; else the diagnostics of registered rules are checked, each once and in order,
and the answers say what is reported. -/
theorem recorded_report (p : Suppressor σ) {justification : String} {rules : List String}
    (hp : Registry.ofRules justification rules = .ok p.registry) (c : Compilation)
    (batch : List Diagnostic) (s : σ) :
    ∃ r t calls, p.report c batch s = (r, t) ∧ p.recorded.report c batch (s, []) = (r, t, calls) ∧
      (p.locate c = none →
        calls = [] ∧ r.suppressions = [] ∧ r.outcome = .ok 0 ∧ t = s) ∧
      (∀ key u, p.locate c = some key → p.candidates key s = ([], u) →
        calls = [.candidates key] ∧ r.suppressions = [] ∧ r.outcome = .ok 0 ∧ t = u) ∧
      ∀ key issues u as v, p.locate c = some key → p.candidates key s = (issues, u) →
        issues ≠ [] → p.answers issues (batch.filter (·.id ∈ rules)) u = (as, v) →
          calls = .candidates key :: (batch.filter (·.id ∈ rules)).map (.check issues) ∧
          as.length = (batch.filter (·.id ∈ rules)).length ∧
          r.suppressions = granted justification ((batch.filter (·.id ∈ rules)).zip as) ∧
          (r.outcome = match firstFault? as with
            | some e => .error e
            | none => .ok r.suppressions.length) ∧
          t = v := by
  have hget := Registry.get?_ofRules hp
  cases hl : p.locate c with
  | none =>
    refine ⟨_, _, _, report_none p hl batch s, report_none p.recorded hl batch (s, []), ?_, ?_, ?_⟩
    · exact fun _ => ⟨rfl, rfl, rfl, rfl⟩
    · intro _ _ h; cases h
    · intro _ _ _ _ _ h; cases h
  | some key =>
    rcases hc : p.candidates key s with ⟨issues, t⟩
    have hrec : p.recorded.candidates key (s, []) = (issues, t, [.candidates key]) := by
      simp only [recorded, hc, List.nil_append]
    by_cases hne : issues = []
    · subst hne
      refine ⟨_, _, _, report_nil p hl hc batch, report_nil p.recorded hl hrec batch, ?_, ?_, ?_⟩
      · intro h; cases h
      · intro _ _ hk hu
        cases hk
        rw [hc] at hu
        cases hu
        exact ⟨rfl, rfl, rfl, rfl⟩
      · intro _ _ _ _ _ hk hu hne
        cases hk
        rw [hc] at hu
        cases hu
        exact absurd rfl hne
    · refine ⟨_, _, [.candidates key] ++ (batch.filter (·.id ∈ rules)).map (.check issues),
        report_some p hl hc hne batch, ?_, ?_, ?_, ?_⟩
      · rw [report_some p.recorded hl hrec hne, recorded_verdicts]
        have hfilter : (batch.filter fun d => (p.registry.get? d.id).isSome)
            = batch.filter (·.id ∈ rules) := by
          refine List.filter_congr fun d _ => ?_
          rw [hget]
          by_cases hd : d.id ∈ rules <;> simp [hd]
        rw [hfilter]
      · intro h; cases h
      · intro _ _ hk hu
        cases hk
        rw [hc] at hu
        cases hu
        exact absurd rfl hne
      · intro _ _ _ as v hk hu _ has
        cases hk
        rw [hc] at hu
        cases hu
        have hlen := length_answers p issues (batch.filter (·.id ∈ rules)) t
        rw [has] at hlen
        rw [verdicts_eq p hget, has]
        refine ⟨rfl, hlen, suppressions_eq_granted justification _, ?_, rfl⟩
        have hfault := fault?_eq_firstFault? justification hlen
        rcases hfirst : firstFault? as with _ | e
        · simp only [Report.ofVerdicts, hfault, hfirst]
        · simp only [Report.ofVerdicts, hfault, hfirst]

/-- A suppressor whose checker says yes, fails and says no in turn. -/
def inTurn (key : Option ProjectKey) (issues : List Issue) (registry : Registry) :
    Suppressor Nat where
  locate _ := key
  candidates _ n := (issues, n)
  check _ _ n :=
    (match n % 3 with
      | 0 => .ok true
      | 1 => .error (.lineOutOfRange n 0)
      | _ => .ok false, n + 1)
  registry := registry

theorem recorded_report_inTurn :
    let key : ProjectKey := ⟨"p", by decide, by decide⟩
    let issues : List Issue := [⟨"S1", none, ""⟩]
    let d (id : String) : Diagnostic := ⟨id, .file, ⟨""⟩⟩
    let p := inTurn (some key) issues ⟨[.ofRule "why" "S1", .ofRule "why" "S2"]⟩
    Registry.ofRules "why" ["S1", "S2", "S1"] = .ok p.registry ∧
      ∃ r t calls, p.report ⟨.empty, []⟩ [d "S2", d "s1", d "S1", d "S2", d "S2", d "S1"] 0 = (r, t) ∧
        p.recorded.report ⟨.empty, []⟩ [d "S2", d "s1", d "S1", d "S2", d "S2", d "S1"] (0, [])
          = (r, t, calls) ∧
        calls = [.candidates key, .check issues (d "S2"), .check issues (d "S1"),
          .check issues (d "S2"), .check issues (d "S2"), .check issues (d "S1")] ∧
        r.suppressions = [⟨⟨"SLS_S2", "S2", "why"⟩, d "S2"⟩, ⟨⟨"SLS_S2", "S2", "why"⟩, d "S2"⟩] ∧
        r.outcome = .error (.lineOutOfRange 1 0) ∧ t = 5 := by
  intro key issues d p
  have hp : Registry.ofRules "why" ["S1", "S2", "S1"] = .ok p.registry := rfl
  obtain ⟨r, t, calls, hr, hc, -, -, h⟩ := recorded_report p hp ⟨.empty, []⟩
    [d "S2", d "s1", d "S1", d "S2", d "S2", d "S1"] 0
  obtain ⟨h1, -, h2, h3, h4⟩ := h key issues 0 _ _ rfl rfl (by decide) rfl
  exact ⟨hp, r, t, calls, hr, hc, h1, by rw [h2]; simp [granted, p, inTurn, d], h3, h4⟩

end Suppressor

end KnownIssues
