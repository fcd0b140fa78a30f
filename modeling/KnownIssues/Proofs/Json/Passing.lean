import KnownIssues.Proofs.Json.Extension
import KnownIssues.Proofs.Json.Grammar

/-! # Every value is passed over

Of a value that does not matter only the form is checked, so every JSON text of a value is passed
over up to its last character, and nothing behind it is touched (`passValue_spelled`).  The
induction is on the grammar: from a value, from what stands behind an element and from what stands
behind a member the walk comes out of the enclosure it is in (`run_value`, `run_listRest`,
`run_objectRest`). -/

namespace KnownIssues.Json

theorem passName_spelled {g g₁ : List Char} (hg : Gap g) (hg₁ : Gap g₁) (ps : List Piece)
    (s : Input) : passName (g ++ (spelled ps ++ (g₁ ++ ':' :: s))) = .ok s := by
  have hname := skipGap_gap hg (c := '"') (by decide)
    (ps.flatMap Piece.chars ++ '"' :: (g₁ ++ ':' :: s))
  have hcolon := skipGap_gap hg₁ (c := ':') (by decide) s
  simp only [passName, spelled, List.cons_append, List.append_assoc, List.nil_append, hname,
    passText_spelled, readColon, hcolon]

namespace Walk

variable {outer : List Enclosure} {g g₁ g₂ r : List Char}

/-! ### One step -/

theorem stepValue_gap (hg : Gap g) (s : Input) : stepValue outer (g ++ s) = stepValue outer s := by
  simp only [stepValue, skipGap_append hg]

theorem stepValue_number {n : Numeral} {w : List Char} (h : SpellsNumeral n w) (hr : Stops r) :
    stepValue outer (w ++ r) = .ok (after outer, r) := by
  have hread := readNumeral_spelled .badNumber h hr
  obtain ⟨c, t, rfl, hc⟩ := h.opens
  have hskip := skipGap_cons (isGap_of_startsNumeral hc) (t ++ r)
  rw [List.cons_append] at hread ⊢
  unfold stepValue
  rw [hskip]
  split
  case h_8 he => cases he; simp only [hc, hread, if_true]
  case h_1 he => cases he
  all_goals
    next he =>
      obtain ⟨rfl, -⟩ := List.cons.inj he
      cases hc

theorem stepValue_text (ps : List Piece) :
    stepValue outer (spelled ps ++ r) = .ok (after outer, r) := by
  have hskip := skipGap_cons (c := '"') (by decide) (ps.flatMap Piece.chars ++ '"' :: r)
  simp only [stepValue, spelled, List.cons_append, List.append_assoc, List.nil_append, hskip,
    passText_spelled]

theorem stepValue_list {v : Value} {w : List Char} (h : Spells v w) (hg : Gap g) (s : Input) :
    stepValue outer ('[' :: (g ++ (w ++ s))) = .ok (value (.list :: outer), w ++ s) := by
  change enterList outer (g ++ (w ++ s)) = _
  have hskip := h.skipGap hg s
  obtain ⟨c, t, rfl, hc⟩ := h.opens
  unfold enterList
  rw [hskip]
  split
  · next he => cases he
  · next he => exact absurd (List.cons.inj he).1 hc.ne_bracket
  · rfl

theorem stepValue_object (hg : Gap g) (hg₁ : Gap g₁) (ps : List Piece) (s : Input) :
    stepValue outer ('\x7b' :: (g ++ (spelled ps ++ (g₁ ++ ':' :: s))))
      = .ok (value (.object :: outer), s) := by
  change enterObject outer (g ++ (spelled ps ++ (g₁ ++ ':' :: s))) = _
  have hname := passName_spelled gap_nil hg₁ ps s
  rw [List.nil_append, spelled, List.cons_append] at hname
  have hskip := skipGap_gap hg (c := '"') (by decide)
    (ps.flatMap Piece.chars ++ ['"'] ++ (g₁ ++ ':' :: s))
  rw [spelled, List.cons_append]
  unfold enterObject
  rw [hskip]
  split
  · next he => cases he
  · next he => exact absurd (List.cons.inj he).1 (by decide)
  · rw [hname]

theorem stepValue_emptyList (hg : Gap g) (s : Input) :
    stepValue outer ('[' :: (g ++ ']' :: s)) = .ok (after outer, s) := by
  change enterList outer (g ++ ']' :: s) = _
  have hskip := skipGap_gap hg (c := ']') (by decide) s
  simp only [enterList, hskip]

theorem stepValue_emptyObject (hg : Gap g) (s : Input) :
    stepValue outer ('\x7b' :: (g ++ '\x7d' :: s)) = .ok (after outer, s) := by
  change enterObject outer (g ++ '\x7d' :: s) = _
  have hskip := skipGap_gap hg (c := '\x7d') (by decide) s
  simp only [enterObject, hskip]

theorem stepRest_bracket (hg : Gap g) (s : Input) :
    (rest .list outer).step (g ++ ']' :: s) = .ok (after outer, s) := by
  have hskip := skipGap_gap hg (c := ']') (by decide) s
  simp only [step, stepRest, hskip]

theorem stepRest_comma (hg : Gap g) (s : Input) :
    (rest .list outer).step (g ++ ',' :: s) = .ok (value (.list :: outer), s) := by
  have hskip := skipGap_gap hg (c := ',') (by decide) s
  simp only [step, stepRest, hskip]

theorem stepRest_brace (hg : Gap g) (s : Input) :
    (rest .object outer).step (g ++ '\x7d' :: s) = .ok (after outer, s) := by
  have hskip := skipGap_gap hg (c := '\x7d') (by decide) s
  simp only [step, stepRest, hskip]

theorem stepRest_member (hg : Gap g) (hg₁ : Gap g₁) (hg₂ : Gap g₂) (ps : List Piece) (s : Input) :
    (rest .object outer).step (g ++ ',' :: (g₁ ++ (spelled ps ++ (g₂ ++ ':' :: s))))
      = .ok (value (.object :: outer), s) := by
  have hskip := skipGap_gap hg (c := ',') (by decide)
    (g₁ ++ (spelled ps ++ (g₂ ++ ':' :: s)))
  simp only [step, stepRest, hskip, passName_spelled hg₁ hg₂]

/-! ### The whole walk -/

mutual

/-- **A value is passed over**, whatever encloses it. -/
theorem run_value {v : Value} {w : List Char} (h : Spells v w) (outer : List Enclosure)
    {g r : List Char} (hg : Gap g) (hr : Stops r) :
    (value outer).run (g ++ (w ++ r)) = (after outer).run r := by
  have hstep {w' : Walk} {s u : Input} (hs : stepValue outer s = .ok (w', u)) :
      (value outer).run (g ++ s) = w'.run u := run_step ((stepValue_gap hg s).trans hs)
  match h with
  | .null => exact hstep rfl
  | .yes => exact hstep rfl
  | .no => exact hstep rfl
  | .number hn => exact hstep (stepValue_number hn hr)
  | .text ps => exact hstep (stepValue_text ps)
  | .emptyList hg₀ =>
    simp only [List.cons_append, List.append_assoc, List.nil_append]
    exact hstep (stepValue_emptyList hg₀ r)
  | .list hg₀ hv ht =>
    simp only [List.cons_append, List.append_assoc]
    refine (hstep (stepValue_list hv hg₀ _)).trans ?_
    exact (run_value hv (.list :: outer) gap_nil (ht.stops r)).trans (run_listRest ht outer hr)
  | .emptyObject hg₀ =>
    simp only [List.cons_append, List.append_assoc, List.nil_append]
    exact hstep (stepValue_emptyObject hg₀ r)
  | .object hg₀ hg₁ hg₂ hv ht =>
    simp only [List.cons_append, List.append_assoc]
    refine (hstep (stepValue_object hg₀ hg₁ _ _)).trans ?_
    exact (run_value hv (.object :: outer) hg₂ (ht.stops r)).trans (run_objectRest ht outer hr)

theorem run_listRest {vs : List Value} {t : List Char} (h : ListRest vs t) (outer : List Enclosure)
    {r : List Char} (hr : Stops r) : (rest .list outer).run (t ++ r) = (after outer).run r := by
  match h with
  | .nil hg =>
    simp only [List.append_assoc, List.singleton_append]
    exact run_step (stepRest_bracket hg r)
  | .cons hg hg' hv ht =>
    simp only [List.cons_append, List.append_assoc]
    refine (run_step (stepRest_comma hg _)).trans ?_
    exact (run_value hv (.list :: outer) hg' (ht.stops r)).trans (run_listRest ht outer hr)

theorem run_objectRest {ms : List (Option String × Value)} {t : List Char} (h : ObjectRest ms t)
    (outer : List Enclosure) {r : List Char} (hr : Stops r) :
    (rest .object outer).run (t ++ r) = (after outer).run r := by
  match h with
  | .nil hg =>
    simp only [List.append_assoc, List.singleton_append]
    exact run_step (stepRest_brace hg r)
  | .cons hg hg' hg₁ hg₂ hv ht =>
    simp only [List.cons_append, List.append_assoc]
    refine (run_step (stepRest_member hg hg' hg₁ _ _)).trans ?_
    exact (run_value hv (.object :: outer) hg₂ (ht.stops r)).trans (run_objectRest ht outer hr)

end

end Walk

/-- **Every value is passed over**, with the blanks in front of it, up to its last character. -/
theorem passValue_spelled {v : Value} {w : List Char} (h : Spells v w) {g r : List Char}
    (hg : Gap g) (hr : Stops r) : passValue (g ++ (w ++ r)) = .ok r :=
  (Walk.run_value h [] hg hr).trans (Walk.run_done r)

end KnownIssues.Json
