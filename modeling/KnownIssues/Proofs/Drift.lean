import KnownIssues.Proofs.Lines
import KnownIssues.Proofs.Matching

/-! # Issues are found again when their line has moved

Whatever is put in or taken out before and behind a line, the line is still there, at another number
(`Source.line?_between`), and its fingerprint does not depend on its blanks.  So a diagnostic that
ends on the line is settled by an issue with the fingerprint of the line, wherever the issue was found
(`isSettled_of_line`). -/

namespace KnownIssues

theorem isSettled_of_hash {issues : List Issue} {d : Diagnostic} (hd : d.span ≠ ⟨⟨0, 0⟩, ⟨0, 0⟩⟩)
    {line : String} (hline : d.source.line? d.endLine = some line) {i : Issue} (hi : i ∈ issues)
    (hrule : i.concerns d = true) (hhash : i.hash = fingerprint line) :
    isSettled issues d = .ok true := by
  have hrange : d.isFileLevel = false := Bool.eq_false_iff.2 fun h => hd (isFileLevel_iff.1 h)
  have hmem : i ∈ relevant issues d := List.mem_filter.2 ⟨hi, hrule⟩
  rw [isSettled, verdict_judge_of_line fingerprint issues hrange hline]
  congr 1
  exact List.any_eq_true.2 ⟨i, hmem, by simp [hhash]⟩

/-- **A line that has moved.**  Let `l` be a line of any text, between `p` that ends with a line end and
`q` that begins with one.  Then `l` is the line of that text behind those of `p`, and a diagnostic that
ends there is settled as soon as one of the issues is of its rule and has the fingerprint of `l`, be it
with other blanks. -/
theorem isSettled_of_line {p l q : String} (hl : ∀ c ∈ l.toList, c ≠ '\r' ∧ c ≠ '\n')
    (hp : ∀ c, p.toList.getLast? = some c → c = '\r' ∨ c = '\n')
    (hq : ∀ c, q.toList.head? = some c → c = '\r' ∨ c = '\n')
    (hseam : ¬ (p.toList.getLast? = some '\r' ∧ l = "" ∧ q.toList.head? = some '\n')) :
    (Source.mk (p ++ l ++ q)).line? ((Source.mk p).lineCount - 1) = some l ∧
      ∀ (d : Diagnostic) (issues : List Issue),
        d.source = ⟨p ++ l ++ q⟩ → d.endLine = (Source.mk p).lineCount - 1 →
        d.span ≠ ⟨⟨0, 0⟩, ⟨0, 0⟩⟩ →
        (∃ i ∈ issues, i.concerns d = true ∧
          ∃ m, Text.withoutBlanks m = Text.withoutBlanks l ∧ i.hash = fingerprint m) →
        isSettled issues d = .ok true := by
  have hline := Source.line?_between hl hp hq hseam
  refine ⟨hline, ?_⟩
  rintro d issues hsource hend hspan ⟨i, hi, hrule, m, hm, hhash⟩
  rw [← hsource, ← hend] at hline
  exact isSettled_of_hash hspan hline hi hrule
    (hhash.trans (fingerprint_eq_of_withoutBlanks hm))

/-- A line behind two others, indented anew and ended by a carriage return. -/
theorem isSettled_of_line_indented :
    let p := "a\n\r\n"
    let l := "\t x = 1;"
    let q := "\r"
    let d : Diagnostic := ⟨"S1", ⟨⟨2, 3⟩, ⟨2, 7⟩⟩, ⟨p ++ l ++ q⟩⟩
    let issues : List Issue := [⟨"s1", some ⟨7, 9⟩, ""⟩, ⟨"s1", none, fingerprint "x=1;"⟩]
    (∀ c ∈ l.toList, c ≠ '\r' ∧ c ≠ '\n') ∧
      (∀ c, p.toList.getLast? = some c → c = '\r' ∨ c = '\n') ∧
      (∀ c, q.toList.head? = some c → c = '\r' ∨ c = '\n') ∧
      ¬ (p.toList.getLast? = some '\r' ∧ l = "" ∧ q.toList.head? = some '\n') ∧
      (Source.mk (p ++ l ++ q)).line? 2 = some l ∧ isSettled issues d = .ok true := by
  intro p l q d issues
  have hl : ∀ c ∈ l.toList, c ≠ '\r' ∧ c ≠ '\n' := by simp [l]
  have hp : ∀ c, p.toList.getLast? = some c → c = '\r' ∨ c = '\n' := by
    intro c hc
    have hlast : p.toList.getLast? = some '\n' := by decide
    rw [hlast] at hc
    cases hc
    exact Or.inr rfl
  have hq : ∀ c, q.toList.head? = some c → c = '\r' ∨ c = '\n' := by
    intro c hc
    have hhead : q.toList.head? = some '\r' := by decide
    rw [hhead] at hc
    cases hc
    exact Or.inl rfl
  have hseam : ¬ (p.toList.getLast? = some '\r' ∧ l = "" ∧ q.toList.head? = some '\n') := by
    decide
  have hcount : (Source.mk p).lineCount - 1 = 2 := by decide
  obtain ⟨hline, hsettled⟩ := isSettled_of_line hl hp hq hseam
  rw [hcount] at hline
  refine ⟨hl, hp, hq, hseam, hline, ?_⟩
  exact hsettled d issues rfl (by rw [hcount]; rfl) (by decide)
    ⟨_, List.mem_cons_of_mem _ (List.mem_singleton_self _), by decide, "x=1;", by decide, rfl⟩

end KnownIssues
