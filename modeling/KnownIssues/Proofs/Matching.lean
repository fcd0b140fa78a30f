import KnownIssues.Matching

/-! # What it takes for a diagnostic to be settled

The search of `judge` stops at the first match, remembers the hash of the last line, and may end in
a fault.  Here it is said without a search.  Only the relevant issues count (`judgeFrom_relevant`).
A diagnostic about the file as a whole asks whether one of them has no range (`judgeFrom_file`).
For any other one the first relevant issue tells whether the last line is looked at
(`judgeFrom_none_cons`); once its hash is known, the order of the issues does not matter any more
(`judgeFrom_some`). -/

namespace KnownIssues

/-- The issues about the diagnostic's rule, in order. -/
def relevant (issues : List Issue) (d : Diagnostic) : List Issue :=
  issues.filter (·.concerns d)

theorem isFileLevel_iff {d : Diagnostic} : d.isFileLevel = true ↔ d.span = .file := by
  simp [Diagnostic.isFileLevel, Span.isFileLevel]

theorem startsAt_iff {i : Issue} {n : UInt64} :
    i.startsAt n = true ↔ ∃ r, i.range = some r ∧ r.first = n := by
  unfold Issue.startsAt
  cases i.range <;> simp

/-! ### The search -/

theorem judgeFrom_relevant (hash : String → String) (d : Diagnostic) (known : Option String)
    (issues : List Issue) :
    judgeFrom hash d known issues = judgeFrom hash d known (relevant issues d) := by
  unfold relevant
  induction issues generalizing known with
  | nil => rfl
  | cons i issues ih =>
    by_cases hi : i.concerns d = true
    · rw [List.filter_cons_of_pos (by exact hi)]
      unfold judgeFrom
      simp only [← ih]
    · rw [List.filter_cons_of_neg (by exact hi), ← ih]
      unfold judgeFrom
      rw [if_pos (by simpa using hi)]
      cases issues <;> rfl

theorem judgeFrom_file (hash : String → String) {d : Diagnostic} (hd : d.isFileLevel = true)
    (known : Option String) {issues : List Issue} (h : ∀ i ∈ issues, i.concerns d = true) :
    judgeFrom hash d known issues = .settled (.ok (issues.any Issue.isFileLevel)) := by
  induction issues with
  | nil => rfl
  | cons i issues ih =>
    rw [List.forall_mem_cons] at h
    unfold judgeFrom
    rw [if_neg (by simp [h.1]), if_pos hd, ih h.2, List.any_cons]
    cases i.isFileLevel <;> rfl

/-- With the hash of the last line at hand nothing can fail, and any issue may match. -/
theorem judgeFrom_some (hash : String → String) {d : Diagnostic} (hd : d.isFileLevel = false)
    (x : String) {issues : List Issue} (h : ∀ i ∈ issues, i.concerns d = true) :
    judgeFrom hash d (some x) issues
      = .settled (.ok (issues.any fun i => i.startsAt d.startLine || x == i.hash)) := by
  induction issues with
  | nil => rfl
  | cons i issues ih =>
    rw [List.forall_mem_cons] at h
    rw [judgeFrom, if_neg (by simp [h.1]), if_neg (by simp [hd]), ih h.2, List.any_cons]
    cases i.startsAt d.startLine with
    | true => rfl
    | false =>
      by_cases hx : x = i.hash
      · simp [hx]
      · have hb : (x == i.hash) = false := by simpa using hx
        simp [hx, hb]

theorem judgeFrom_none_cons (hash : String → String) {d : Diagnostic} (hd : d.isFileLevel = false)
    {i : Issue} {issues : List Issue} (h : ∀ j ∈ i :: issues, j.concerns d = true) :
    judgeFrom hash d none (i :: issues)
      = if i.startsAt d.startLine then .settled (.ok true)
        else
          match d.endLineText? with
          | none => .settled (.error d.outOfRange)
          | some line =>
            ⟨.ok ((i :: issues).any fun j => j.startsAt d.startLine || hash line == j.hash),
              [line]⟩ := by
  rw [List.forall_mem_cons] at h
  rw [judgeFrom, if_neg (by simp [h.1]), if_neg (by simp [hd])]
  cases hi : i.startsAt d.startLine with
  | true => rfl
  | false =>
    cases d.endLineText? with
    | none => rfl
    | some line =>
      simp only [judgeFrom_some hash hd _ h.2, List.any_cons, hi]
      by_cases hx : hash line = i.hash <;> simp [hx, Judgement.afterHashing, Judgement.settled]

theorem concerns_of_mem_relevant {issues : List Issue} {d : Diagnostic} {i : Issue}
    (h : i ∈ relevant issues d) : i.concerns d = true :=
  (List.mem_filter.1 h).2

theorem judge_file (hash : String → String) (issues : List Issue) {d : Diagnostic}
    (hd : d.isFileLevel = true) :
    judge hash issues d = ⟨.ok (decide (∃ i ∈ relevant issues d, i.range = none)), []⟩ := by
  rw [judge, judgeFrom_relevant, judgeFrom_file hash hd none fun _ => concerns_of_mem_relevant]
  have hany : (relevant issues d).any Issue.isFileLevel
      = decide (∃ i ∈ relevant issues d, i.range = none) := by
    rw [Bool.eq_iff_iff]
    simp [Issue.isFileLevel]
  rw [hany]
  rfl

theorem judge_of_relevant_nil (hash : String → String) {issues : List Issue} {d : Diagnostic}
    (h : relevant issues d = []) : judge hash issues d = .settled (.ok false) := by
  rw [judge, judgeFrom_relevant, h]
  rfl

theorem judge_of_relevant_cons (hash : String → String) {issues : List Issue} {d : Diagnostic}
    (hd : d.isFileLevel = false) {i : Issue} {rest : List Issue}
    (h : relevant issues d = i :: rest) :
    judge hash issues d
      = if i.startsAt d.startLine then .settled (.ok true)
        else
          match d.endLineText? with
          | none => .settled (.error d.outOfRange)
          | some line =>
            ⟨.ok ((relevant issues d).any fun j => j.startsAt d.startLine || hash line == j.hash),
              [line]⟩ := by
  rw [judge, judgeFrom_relevant, h]
  exact judgeFrom_none_cons hash hd fun j hj => concerns_of_mem_relevant (h ▸ hj)

/-- **The verdict for a last line that exists** does not depend on the order of the issues. -/
theorem verdict_judge_of_line (hash : String → String) (issues : List Issue) {d : Diagnostic}
    (hd : d.isFileLevel = false) {line : String} (hline : d.endLineText? = some line) :
    (judge hash issues d).verdict
      = .ok ((relevant issues d).any fun j => j.startsAt d.startLine || hash line == j.hash) := by
  cases hr : relevant issues d with
  | nil => rw [judge_of_relevant_nil hash hr]; rfl
  | cons i rest =>
    rw [judge_of_relevant_cons hash hd hr, hr, hline]
    cases hi : i.startsAt d.startLine with
    | true => simp [hi, Judgement.settled]
    | false => rfl

theorem judge_congr {hash hash' : String → String} {issues : List Issue} {d : Diagnostic}
    (h : ∀ l ∈ (judge hash issues d).hashed, hash' l = hash l) :
    judge hash' issues d = judge hash issues d := by
  cases hd : d.isFileLevel with
  | true => rw [judge_file hash issues hd, judge_file hash' issues hd]
  | false =>
    cases hr : relevant issues d with
    | nil => rw [judge_of_relevant_nil hash hr, judge_of_relevant_nil hash' hr]
    | cons i rest =>
      rw [judge_of_relevant_cons hash hd hr] at h ⊢
      rw [judge_of_relevant_cons hash' hd hr]
      by_cases hi : i.startsAt d.startLine = true
      · rw [if_pos hi, if_pos hi]
      · rw [if_neg hi] at h ⊢
        rw [if_neg hi]
        cases hl : d.endLineText? with
        | none => rfl
        | some line =>
          rw [hl] at h
          simp only [h line (List.mem_singleton_self line)]

/-! ### The policy -/

/-- **When a diagnostic is settled, and what is hashed to tell.**  A diagnostic about the file as a
whole does not even depend on its source.  Otherwise, as long as the last line exists, the verdict
does not depend on the order of the issues; only whether that line is hashed does. -/
theorem judge_policy (hash : String → String) (issues : List Issue) (d : Diagnostic) :
    (d.span = ⟨⟨0, 0⟩, ⟨0, 0⟩⟩ →
      judge hash issues d = ⟨.ok (decide (∃ i ∈ relevant issues d, i.range = none)), []⟩ ∧
        ∀ source, judge hash issues { d with source := source } = judge hash issues d) ∧
    (d.span ≠ ⟨⟨0, 0⟩, ⟨0, 0⟩⟩ → d.endLine < d.source.lineCount →
      ∃ line, d.source.line? d.endLine = some line ∧
        (judge hash issues d).verdict
          = .ok (decide (∃ i ∈ relevant issues d,
              (∃ r, i.range = some r ∧ r.first = d.span.start.line) ∨ hash line = i.hash)) ∧
        (((judge hash issues d).hashed = [line] ∧
            ∃ i, (relevant issues d).head? = some i ∧
              ¬ ∃ r, i.range = some r ∧ r.first = d.span.start.line) ∨
          ((judge hash issues d).hashed = [] ∧
            ∀ i, (relevant issues d).head? = some i →
              ∃ r, i.range = some r ∧ r.first = d.span.start.line))) ∧
    (d.span ≠ ⟨⟨0, 0⟩, ⟨0, 0⟩⟩ → d.source.lineCount ≤ d.endLine →
      (judge hash issues d).hashed = [] ∧
        (relevant issues d = [] → (judge hash issues d).verdict = .ok false) ∧
        ∀ i, (relevant issues d).head? = some i →
          (judge hash issues d).verdict
            = if ∃ r, i.range = some r ∧ r.first = d.span.start.line then .ok true
              else .error (.lineOutOfRange d.span.stop.line.toNat d.source.lineCount)) ∧
    ∀ hash', (∀ l ∈ (judge hash issues d).hashed, hash' l = hash l) →
      judge hash' issues d = judge hash issues d := by
  refine ⟨fun hd => ?_, fun hd hlt => ?_, fun hd hle => ?_, fun _ => judge_congr⟩
  · have hfile := isFileLevel_iff.2 hd
    refine ⟨judge_file hash issues hfile, fun source => ?_⟩
    rw [judge_file hash issues hfile]
    exact judge_file hash issues (d := { d with source := source }) hfile
  · have hrange : d.isFileLevel = false := Bool.eq_false_iff.2 fun h => hd (isFileLevel_iff.1 h)
    obtain ⟨line, hline⟩ := Option.ne_none_iff_exists'.1 fun h =>
      absurd (Source.line?_eq_none_iff.1 h) (Nat.not_le.2 hlt)
    refine ⟨line, hline, ?_, ?_⟩
    · rw [verdict_judge_of_line hash issues hrange hline]
      congr 1
      rw [Bool.eq_iff_iff]
      simp [startsAt_iff, Diagnostic.startLine]
    · simp only [← startsAt_iff]
      cases hr : relevant issues d with
      | nil =>
        refine Or.inr ⟨?_, fun i h => by cases h⟩
        rw [judge_of_relevant_nil hash hr]; rfl
      | cons i rest =>
        rw [judge_of_relevant_cons hash hrange hr,
          show d.endLineText? = some line from hline]
        by_cases hi : i.startsAt d.startLine = true
        · refine Or.inr ⟨?_, ?_⟩
          · rw [if_pos hi]; rfl
          · rintro _ ⟨⟩; exact hi
        · refine Or.inl ⟨?_, i, rfl, hi⟩
          rw [if_neg hi]
  · have hrange : d.isFileLevel = false := Bool.eq_false_iff.2 fun h => hd (isFileLevel_iff.1 h)
    have hnone : d.endLineText? = none := Source.line?_eq_none_iff.2 hle
    simp only [← startsAt_iff]
    cases hr : relevant issues d with
    | nil =>
      rw [judge_of_relevant_nil hash hr]
      exact ⟨rfl, fun _ => rfl, fun i h => by cases h⟩
    | cons i rest =>
      rw [judge_of_relevant_cons hash hrange hr, hnone]
      refine ⟨?_, (fun h => by cases h), ?_⟩
      · by_cases hi : i.startsAt d.startLine = true
        · rw [if_pos hi]; rfl
        · rw [if_neg hi]; rfl
      · rintro _ ⟨⟩
        by_cases hi : i.startsAt d.startLine = true
        · rw [if_pos hi, if_pos (show i.startsAt d.span.start.line = true from hi)]; rfl
        · rw [if_neg hi, if_neg (show ¬ i.startsAt d.span.start.line = true from hi)]; rfl

/-- A file as a whole, a line that is hashed, and a line that is not there behind one that would
have matched. -/
theorem judge_policy_three :
    let d (n m : UInt64) : Diagnostic := ⟨"S1", ⟨⟨n, 0⟩, ⟨m, 0⟩⟩, ⟨"a\nb"⟩⟩
    let issues : List Issue := [⟨"S2", none, "b"⟩, ⟨"s1", some ⟨4, 4⟩, "a"⟩, ⟨"s1", none, "b"⟩]
    (judge id issues (d 0 0)).verdict = .ok true ∧
      (judge id issues (d 1 1)).verdict = .ok true ∧ (judge id issues (d 1 1)).hashed = ["b"] ∧
      (judge id issues (d 3 2)).verdict = .error (.lineOutOfRange 2 2) ∧
      (judge id issues (d 4 2)).verdict = .ok true ∧ (judge id issues (d 4 2)).hashed = [] := by
  intro d issues
  obtain ⟨h0, -⟩ := (judge_policy id issues (d 0 0)).1 rfl
  obtain ⟨line, hl, h1, h1'⟩ := (judge_policy id issues (d 1 1)).2.1 (by decide) (by decide)
  obtain ⟨-, -, h2⟩ := (judge_policy id issues (d 3 2)).2.2.1 (by decide) (by decide)
  obtain ⟨h3, -, h3'⟩ := (judge_policy id issues (d 4 2)).2.2.1 (by decide) (by decide)
  have hline : (Source.mk "a\nb").line? 1 = some "b" := by decide
  obtain rfl : line = "b" := Option.some.inj (hl.symm.trans hline)
  have hfirst : (relevant issues (d 1 1)).head? = some ⟨"s1", some ⟨4, 4⟩, "a"⟩ := by decide
  replace h1' : (judge id issues (d 1 1)).hashed = ["b"] := by
    rcases h1' with ⟨h, -⟩ | ⟨-, h⟩
    · exact h
    · obtain ⟨r, hr, hn⟩ := h _ hfirst
      cases hr
      cases hn
  have hcount : (Source.mk "a\nb").lineCount = 2 := by decide
  refine ⟨?_, ?_, h1', ?_, ?_, h3⟩
  · exact (congrArg Judgement.verdict h0).trans (congrArg Except.ok (by decide))
  · exact h1.trans (congrArg Except.ok (by decide))
  · exact ((h2 _ hfirst).trans (if_neg (by decide))).trans (by rw [hcount]; rfl)
  · exact (h3' _ hfirst).trans (if_pos (by decide))

end KnownIssues
