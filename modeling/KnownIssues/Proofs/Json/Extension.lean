import KnownIssues.Proofs.Json.TokenExtension

/-! # Text behind a value

A value that ends with a bracket is closed (`Reader.Closed`): it is taken just so whatever stands
behind it.  This holds of lists and records whose items are at least steady, since their own bracket
still comes behind each item; and of a value that does not matter each step of the walk is steady.

* `closed_list`, `closed_record`, `closed_orNull`: the readers, given those of what they hold.
* `Closed.decode_of_prefix`: what is cut off before the end of a value is no value.
* `Closed.decode_append`: behind a value only blanks may stand. -/

namespace KnownIssues.Json

variable {α β δ : Type} {s t r : Input}

/-! ### Lists -/

/-- The element with more text behind it. -/
def Element.extend (t : Input) : Element → Element
  | more r => more (r ++ t)
  | closed r => closed (r ++ t)

theorem nextElement_extend {first : Bool} {e : Element} (h : nextElement first s = .ok e)
    (t : Input) : nextElement first (s ++ t) = .ok (e.extend t) := by
  unfold nextElement at h
  split at h
  · cases h
  · next hs => cases h; simp only [nextElement, skipGap_append_cons hs, Element.extend]
  · next c u hend hs =>
    have hmore := skipGap_append_cons hs t
    split at h
    · next hfirst =>
      cases h
      subst hfirst
      exact nextElement_first hmore hend
    · next hfirst =>
      rw [Bool.not_eq_true] at hfirst
      subst hfirst
      split at h
      · next hcomma =>
        subst hcomma
        split at h
        · cases h
        · cases h
        · next hnil hclose =>
          cases h
          obtain ⟨d, v, hu⟩ := List.exists_cons_of_ne_nil hnil
          rw [hu]
          exact nextElement_comma hmore (skipGap_append_cons hu t)
            fun hd => hclose v (by rw [hu, hd])
      · cases h

theorem readElements_extend {p : Reader α} (hp : p.Steady) {done as : List α}
    (h : readElements p done s = .ok (as, r)) (t : Input) :
    readElements p done (s ++ t) = .ok (as, r ++ t) := by
  fun_induction readElements p done s with
  | case1 => cases h
  | case2 done s r' hnext =>
    cases h
    exact readElements_closed (nextElement_extend hnext t)
  | case3 => cases h
  | case4 done s u hnext a r' hitem ih =>
    -- the closing bracket is still to come
    have hleft : r' ≠ [] := by
      rintro rfl
      have := length_readElements h
      simp at this
    rw [readElements_more (nextElement_extend hnext t) (hp hitem t fun h0 => absurd h0 hleft)]
    exact ih h

/-- **Lists are closed**, whatever their elements are. -/
theorem closed_list {p : Reader α} (hp : p.Steady) : (Reader.list p).Closed := by
  intro s r as h t
  unfold Reader.list at h
  dsimp only at h
  split at h
  · next hs =>
    have hmore := readElements_extend hp h t
    simp only [Reader.list, skipGap_append_cons hs, hmore]
  · cases h

/-! ### Values that do not matter -/

theorem readColon_extend (h : readColon s = .ok r) (t : Input) :
    readColon (s ++ t) = .ok (r ++ t) := by
  unfold readColon at h
  split at h
  · cases h
  · next hs => cases h; simp only [readColon, skipGap_append_cons hs]
  · cases h

theorem passName_extend (h : passName s = .ok r) (t : Input) :
    passName (s ++ t) = .ok (r ++ t) := by
  unfold passName at h
  split at h
  · cases h
  · next hs =>
    split at h
    · next ht =>
      simp only [passName, skipGap_append_cons hs, passText_extend ht t]
      exact readColon_extend h t
    · cases h
  · cases h

namespace Walk

variable {w w' : Walk}

theorem enterList_extend {outer : List Enclosure} (h : enterList outer s = .ok (w, r)) (t : Input) :
    enterList outer (s ++ t) = .ok (w, r ++ t) := by
  unfold enterList at h
  split at h
  · cases h
  · next hs => cases h; simp only [enterList, skipGap_append_cons hs]
  · next hnil hclose =>
    cases h
    rcases hs : skipGap s with _ | ⟨c, u⟩
    · exact absurd hs hnil
    · unfold enterList
      rw [skipGap_append_cons hs]
      split
      · next he => cases he
      · next he => cases he; exact (hclose _ hs).elim
      · rfl

theorem enterObject_extend {outer : List Enclosure} (h : enterObject outer s = .ok (w, r))
    (t : Input) : enterObject outer (s ++ t) = .ok (w, r ++ t) := by
  unfold enterObject at h
  split at h
  · cases h
  · next hs => cases h; simp only [enterObject, skipGap_append_cons hs]
  · next hnil hclose =>
    split at h
    · next hname =>
      cases h
      have hmore := passName_extend hname t
      rcases hs : skipGap s with _ | ⟨c, u⟩
      · exact absurd hs hnil
      · unfold enterObject
        rw [skipGap_append_cons hs]
        rw [hs] at hmore
        split
        · next he => cases he
        · next he => cases he; exact (hclose _ hs).elim
        · rw [← List.cons_append, hmore]
    · cases h

theorem passWord_extend {outer : List Enclosure} {word : List Char}
    (h : passWord outer word s = .ok (w, r)) (t : Input) :
    passWord outer word (s ++ t) = .ok (w, r ++ t) := by
  unfold passWord at h
  split at h
  · next hword => cases h; simp only [passWord, readWord_extend hword t]
  · cases h

theorem stepValue_extend {outer : List Enclosure} (h : stepValue outer s = .ok (w, r))
    (ht : r = [] → Stops t) : stepValue outer (s ++ t) = .ok (w, r ++ t) := by
  unfold stepValue at h
  split at h
  · cases h
  · next hs => simpa only [stepValue, skipGap_append_cons hs] using enterList_extend h t
  · next hs => simpa only [stepValue, skipGap_append_cons hs] using enterObject_extend h t
  · next hs => simpa only [stepValue, skipGap_append_cons hs] using passWord_extend h t
  · next hs => simpa only [stepValue, skipGap_append_cons hs] using passWord_extend h t
  · next hs => simpa only [stepValue, skipGap_append_cons hs] using passWord_extend h t
  · next hs =>
    split at h
    · next htext =>
      cases h
      simp only [stepValue, skipGap_append_cons hs, passText_extend htext t]
    · cases h
  · next c u hs =>
    split at h
    · next hstart =>
      split at h
      · next hn =>
        cases h
        have hmore := readNumeral_extend hn ht
        rw [List.cons_append] at hmore
        simp only [stepValue, skipGap_append_cons hs, hstart, hmore, if_true]
      · cases h
    · cases h

theorem stepRest_extend {inner : Enclosure} {outer : List Enclosure}
    (h : stepRest inner outer s = .ok (w, r)) (t : Input) :
    stepRest inner outer (s ++ t) = .ok (w, r ++ t) := by
  unfold stepRest at h
  split at h
  · split at h
    · cases h
    · next hs => cases h; simp only [stepRest, skipGap_append_cons hs]
    · next hs => cases h; simp only [stepRest, skipGap_append_cons hs]
    · cases h
  · split at h
    · cases h
    · next hs => cases h; simp only [stepRest, skipGap_append_cons hs]
    · next hs =>
      split at h
      · next hname =>
        cases h
        simp only [stepRest, skipGap_append_cons hs, passName_extend hname t]
      · cases h
    · cases h

theorem step_extend (h : w.step s = .ok (w', r)) (ht : r = [] → Stops t) :
    w.step (s ++ t) = .ok (w', r ++ t) := by
  cases w with
  | value outer => exact stepValue_extend h ht
  | rest inner outer => exact stepRest_extend h t
  | done => cases h

theorem run_done (s : Input) : run done s = .ok s := by
  rw [run, if_pos rfl]

theorem run_step (h : w.step s = .ok (w', r)) : w.run s = w'.run r := by
  have hne : w ≠ done := by
    rintro rfl
    cases h
  rw [run, if_neg hne]
  split
  · next he => rw [h] at he; cases he; rfl
  · next he => rw [h] at he; cases he

theorem run_extend (h : w.run s = .ok r) (ht : r = [] → Stops t) :
    w.run (s ++ t) = .ok (r ++ t) := by
  fun_induction run w s with
  | case1 s => cases h; exact run_done _
  | case2 w s hw w' u hstep ih =>
    -- a step that leaves nothing is the last one
    have hlast (h0 : u = []) : Stops t := ht (eq_nil_of_length_le (length_run_le h) h0)
    rw [run_step (step_extend hstep hlast)]
    exact ih h
  | case3 => cases h

end Walk

theorem passValue_extend (h : passValue s = .ok r) (ht : r = [] → Stops t) :
    passValue (s ++ t) = .ok (r ++ t) :=
  Walk.run_extend h ht

/-! ### Records -/

theorem steady_map {p : Reader α} (hp : p.Steady) (f : α → β) : (p.map f).Steady := by
  intro s r b h t ht
  unfold Reader.map at h
  dsimp only at h
  split at h
  · next hrun => cases h; simp only [Reader.map, hp hrun t ht]
  · cases h

theorem closed_orNull {p : Reader α} (hp : p.Closed)
    (hne : ∀ ⦃s r : Input⦄ ⦃a : α⦄, p.run s = .ok (a, r) → skipGap s ≠ []) : p.orNull.Closed := by
  intro s r b h t
  unfold Reader.orNull at h
  dsimp only at h
  split at h
  · next hs =>
    split at h
    · next hword =>
      cases h
      simp only [Reader.orNull, skipGap_append_cons hs, readWord_extend hword t]
    · cases h
  · next hnull =>
    split at h
    · next hrun =>
      cases h
      rcases hs : skipGap s with _ | ⟨c, u⟩
      · exact absurd hs (hne hrun)
      · simp only [Reader.orNull, skipGap_append_cons hs]
        split
        · next he => cases he; exact (hnull _ hs).elim
        · rw [hp hrun t]
    · cases h

theorem readName_extend {m : Member} (h : readName s = .ok m) (t : Input) :
    ∃ name r, m = .named name r ∧ readName (s ++ t) = .ok (.named name (r ++ t)) := by
  unfold readName at h
  split at h
  · split at h
    · next hname =>
      cases h
      exact ⟨_, _, rfl, by simp only [List.cons_append, readName, readText_extend hname t]⟩
    · cases h
  · cases h

/-- The member with more text behind it. -/
def Member.extend (t : Input) : Member → Member
  | named name r => named name (r ++ t)
  | closed r => closed (r ++ t)

theorem nextMember_extend {first : Bool} {m : Member} (h : nextMember first s = .ok m) (t : Input) :
    nextMember first (s ++ t) = .ok (m.extend t) := by
  unfold nextMember at h
  split at h
  · cases h
  · next hs => cases h; simp only [nextMember, skipGap_append_cons hs, Member.extend]
  · next c u hend hs =>
    have hmore := skipGap_append_cons hs t
    split at h
    · next hfirst =>
      subst hfirst
      obtain ⟨name, r, rfl, hname⟩ := readName_extend h t
      exact (nextMember_first hmore hend).trans hname
    · next hfirst =>
      rw [Bool.not_eq_true] at hfirst
      subst hfirst
      split at h
      · next hcomma =>
        subst hcomma
        split at h
        · cases h
        · cases h
        · next hnil hclose =>
          obtain ⟨name, r, rfl, hname⟩ := readName_extend h t
          obtain ⟨d, v, hu⟩ := List.exists_cons_of_ne_nil hnil
          rw [hu] at hname
          exact (nextMember_comma hmore (skipGap_append_cons hu t)
            fun hd => hclose v (by rw [hu, hd])).trans hname
      · cases h

namespace Shape

variable {shape : Shape δ α}

theorem readMember_extend (hfields : ∀ f ∈ shape.fields, f.reader.Steady) {draft draft' : δ}
    {name : String} (h : shape.readMember draft name s = .ok (draft', r)) (hr : r ≠ [])
    (t : Input) :
    shape.readMember draft name (s ++ t) = .ok (draft', r ++ t) := by
  unfold readMember at h
  split at h
  · next hfind =>
    split at h
    · cases h
    · next hcolon =>
      split at h
      · cases h
      · next hvalue =>
        cases h
        have hmore := passValue_extend hvalue (t := t) fun h0 => absurd h0 hr
        simp only [readMember, hfind, readColon_extend hcolon t, hmore]
  · next f hfind =>
    split at h
    · cases h
    · next hgiven =>
      split at h
      · cases h
      · next hcolon =>
        split at h
        · cases h
        · next hvalue =>
          cases h
          have hmore := hfields f (List.mem_of_find?_eq_some hfind) hvalue t fun h0 => absurd h0 hr
          simp only [readMember, hfind, hgiven, readColon_extend hcolon t, hmore]
          rfl

theorem readMembers_extend (hfields : ∀ f ∈ shape.fields, f.reader.Steady) {first : Bool}
    {draft : δ} {a : α} (h : shape.readMembers first draft s = .ok (a, r)) (t : Input) :
    shape.readMembers first draft (s ++ t) = .ok (a, r ++ t) := by
  fun_induction readMembers shape first draft s with
  | case1 => cases h
  | case2 first draft s r' hnext a' hbuild =>
    cases h
    exact readMembers_closed (nextMember_extend hnext t) hbuild
  | case3 => cases h
  | case4 => cases h
  | case5 first draft s name u hnext draft' r' hmember ih =>
    -- the closing brace is still to come
    have hleft : r' ≠ [] := by
      rintro rfl
      have := length_readMembers h
      simp at this
    rw [readMembers_named (nextMember_extend hnext t) (readMember_extend hfields hmember hleft t)]
    exact ih h

theorem readEnd_extend (h : readEnd s = .ok r) (t : Input) : readEnd (s ++ t) = .ok (r ++ t) := by
  unfold readEnd at h
  split at h
  · cases h
  · next hs => cases h; simp only [readEnd, skipGap_append_cons hs]
  · split at h <;> cases h
  · cases h

theorem readFields_extend {fs : List (Field δ)} (hfields : ∀ f ∈ fs, f.reader.Steady) {first : Bool}
    {draft : δ} {a : α} (h : shape.readFields fs first draft s = .ok (a, r)) (t : Input) :
    shape.readFields fs first draft (s ++ t) = .ok (a, r ++ t) := by
  induction fs generalizing first draft s with
  | nil =>
    unfold readFields at h
    split at h
    · cases h
    · next hend =>
      split at h
      · next hbuild => cases h; simp only [readFields, readEnd_extend hend t, hbuild]
      · cases h
  | cons f fs ih =>
    unfold readFields at h
    split at h
    · cases h
    · next hnext =>
      split at h
      · next hbuild =>
        cases h
        simp only [readFields, nextElement_extend hnext t, Element.extend, hbuild]
      · cases h
    · next u hnext =>
      split at h
      · cases h
      · next put r' hf =>
        have hleft : r' ≠ [] := by
          rintro rfl
          have := length_readFields h
          simp at this
        have hfield := hfields f (List.mem_cons_self ..) hf t fun h0 => absurd h0 hleft
        simp only [readFields, nextElement_extend hnext t, Element.extend, hfield]
        exact ih (fun f hf => hfields f (List.mem_cons_of_mem _ hf)) h

/-- **Records are closed**, whatever their fields are. -/
theorem closed_record (hfields : ∀ f ∈ shape.fields, f.reader.Steady) :
    (Reader.record shape).Closed := by
  intro s r a h t
  unfold Reader.record at h
  dsimp only at h
  split at h
  · next hs =>
    simpa only [Reader.record, skipGap_append_cons hs] using readMembers_extend hfields h t
  · next hs =>
    simpa only [Reader.record, skipGap_append_cons hs] using readFields_extend hfields h t
  · cases h

theorem skipGap_ne_nil_of_record {a : α} (h : (Reader.record shape).run s = .ok (a, r)) :
    skipGap s ≠ [] := by
  intro hs
  unfold Reader.record at h
  dsimp only at h
  rw [hs] at h
  cases h

end Shape

/-! ### Whole texts -/

namespace Reader

variable {p : Reader α} {w : List Char} {a : α}

/-- **What is cut off is no value**: if a closed value is all of a text, no shorter piece of the
text from its start on is read. -/
theorem Closed.decode_of_prefix (hp : p.Closed) (hw : p.run w = .ok (a, [])) {u : List Char}
    (hu : u ≠ []) (huw : s ++ u = w) : ∃ fault, p.decode (.ofList s) = .error fault := by
  unfold Reader.decode
  rw [String.toList_ofList]
  cases hrun : p.run s with
  | error e => exact ⟨_, rfl⟩
  | ok value =>
    obtain ⟨b, r⟩ := value
    have hmore := hp hrun u
    rw [huw, hw, Except.ok.injEq, Prod.mk.injEq] at hmore
    exact absurd (List.append_eq_nil_iff.1 hmore.2.symm).2 hu

/-- **Behind a closed value only blanks may stand.** -/
theorem Closed.decode_append (hp : p.Closed) (hw : p.run w = .ok (a, [])) (t : List Char) :
    (Gap t → p.decode (.ofList (w ++ t)) = .ok a) ∧
      (¬ Gap t → ∃ fault, p.decode (.ofList (w ++ t)) = .error fault ∧
        fault.cause = .trailingCharacters) := by
  have hrun : p.run (w ++ t) = .ok (a, t) := hp hw t
  unfold Reader.decode
  rw [String.toList_ofList, hrun]
  refine ⟨fun ht => ?_, fun ht => ?_⟩
  · simp only [skipGap_eq_nil.2 ht]
  · rcases hskip : skipGap t with _ | ⟨c, u⟩
    · exact absurd (skipGap_eq_nil.1 hskip) ht
    · simp only [hskip]
      exact ⟨_, rfl, rfl⟩

end Reader

theorem Format.ReadsBack.run_pretty {f : Format α} (hf : f.ReadsBack) (a : α) :
    f.reader.run (f.pretty a).toList = .ok (a, []) := by
  have hrun := hf.takes Style.blank_indented 0 a [] [] gap_nil stops_nil
  rw [List.nil_append, List.append_nil] at hrun
  rw [Format.pretty, String.toList_ofList, hrun]

end KnownIssues.Json
