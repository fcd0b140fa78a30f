import KnownIssues.Proofs.Json.RoundTrip
import Mathlib.Data.List.TakeWhile

/-! # Text behind a token

What was taken off the front of a text is taken just so if the text goes on.  Only a number that
ends with the text might go on itself, hence two laws: `Reader.Steady` asks that no number goes on
behind the end of the text, and `Reader.Closed` asks for nothing.

* `closed_text`: a text ends with its quote, whatever its escapes are (`body_extend`).
* `steady_word`: each part of a number ends where its digits do (`digits_extend`). -/

namespace KnownIssues.Json

variable {α : Type} {s t r : Input}

namespace Reader

/-- What was taken is taken just so with more text behind it, if no number goes on there. -/
def Steady (p : Reader α) : Prop :=
  ∀ ⦃s r : Input⦄ ⦃a : α⦄, p.run s = .ok (a, r) → ∀ t, (r = [] → Stops t) →
    p.run (s ++ t) = .ok (a, r ++ t)

/-- What was taken is taken just so with any text behind it. -/
def Closed (p : Reader α) : Prop :=
  ∀ ⦃s r : Input⦄ ⦃a : α⦄, p.run s = .ok (a, r) → ∀ t, p.run (s ++ t) = .ok (a, r ++ t)

theorem Closed.steady {p : Reader α} (h : p.Closed) : p.Steady :=
  fun _ _ _ hrun t _ => h hrun t

end Reader

/-! ### Blanks and words -/

theorem gap_iff {g : List Char} : Gap g ↔ ∀ c ∈ g, c ∈ [' ', '\n', '\t', '\r'] := by
  simp only [Gap, isGap, Bool.or_eq_true, beq_iff_eq, List.mem_cons, List.not_mem_nil, or_false,
    or_assoc]

theorem skipGap_eq_nil : skipGap s = [] ↔ Gap s :=
  List.dropWhile_eq_nil_iff

theorem skipGap_append_cons {c : Char} (h : skipGap s = c :: r) (t : Input) :
    skipGap (s ++ t) = c :: (r ++ t) := by
  rw [skipGap] at h ⊢
  rw [List.dropWhile_append, h]
  rfl

theorem readWord_extend {w : List Char} (h : readWord w s = .ok r) (t : Input) :
    readWord w (s ++ t) = .ok (r ++ t) := by
  rw [eq_append_of_readWord h, List.append_assoc, readWord_append]

/-! ### Texts -/

theorem readHex4_extend {n : Nat} (h : readHex4 s = .ok (n, r)) (t : Input) :
    readHex4 (s ++ t) = .ok (n, r ++ t) := by
  unfold readHex4 at h
  split at h
  · split at h
    · next hv => cases h; simp only [List.cons_append, readHex4, hv]
    · cases h
  · cases h

theorem readLowHalf_extend {high : Nat} {c : Char} (h : readLowHalf high s = .ok (c, r))
    (t : Input) : readLowHalf high (s ++ t) = .ok (c, r ++ t) := by
  unfold readLowHalf at h
  split at h
  · cases h
  · cases h
  · split at h
    · cases h
    · next hx =>
      split at h
      · next hlow =>
        rw [Except.ok.injEq, Prod.mk.injEq] at h
        obtain ⟨rfl, rfl⟩ := h
        simp only [List.cons_append, readLowHalf, readHex4_extend hx, hlow, if_true]
      · cases h
  · cases h
  · cases h

theorem readEscape_extend {c : Char} (h : readEscape s = .ok (c, r)) (t : Input) :
    readEscape (s ++ t) = .ok (c, r ++ t) := by
  unfold readEscape at h
  split at h
  · cases h
  · split at h
    · cases h
    · next hx =>
      rw [List.cons_append]
      split at h
      · cases h
      · next hlow =>
        split at h
        · next hhigh =>
          simp only [readEscape, readHex4_extend hx, hlow, hhigh, if_true]
          exact readLowHalf_extend h t
        · next hhigh =>
          cases h
          simp only [readEscape, readHex4_extend hx, hlow, hhigh]
          rfl
  · next hu =>
    split at h
    · next hc =>
      cases h
      rw [List.cons_append]
      unfold readEscape
      split
      · next he => cases he
      · next he => cases he; exact (hu rfl).elim
      · next he => cases he; simp only [hc]
    · cases h

theorem passEscape_extend {u : Unit} (h : passEscape s = .ok (u, r)) (t : Input) :
    passEscape (s ++ t) = .ok (u, r ++ t) := by
  unfold passEscape at h
  split at h
  · cases h
  · split at h
    · cases h
    · next hx =>
      cases h
      simp only [List.cons_append, passEscape, readHex4_extend hx]
  · next hu =>
    split at h
    · next hc =>
      cases h
      rw [List.cons_append]
      unfold passEscape
      split
      · next he => cases he
      · next he => cases he; exact (hu rfl).elim
      · next he => cases he; rw [if_pos hc]
    · cases h

theorem body_extend {m : TextMode α} (hm : m.escape.Closed) {done xs : List α}
    (h : body m done s = .ok (xs, r)) (t : Input) : body m done (s ++ t) = .ok (xs, r ++ t) := by
  fun_induction body m done s with
  | case1 => cases h
  | case2 done r' => cases h; rw [List.cons_append, body, if_pos rfl]
  | case3 => cases h
  | case4 done r' x r'' hx _ ih =>
    rw [List.cons_append, body_backslash (hm hx t)]
    exact ih h
  | case5 => cases h
  | case6 done c r' hquote hslash hplain ih =>
    rw [List.cons_append, body, if_neg hquote, if_neg hslash, if_neg hplain]
    exact ih h

theorem readText_extend {x : String} (h : readText s = .ok (x, r)) (t : Input) :
    readText (s ++ t) = .ok (x, r ++ t) := by
  unfold readText at h
  split at h
  · next hb =>
    cases h
    have hmore := body_extend (m := readMode) (fun _ _ _ => readEscape_extend) hb t
    simp only [readText, hmore]
  · cases h

theorem passText_extend (h : passText s = .ok r) (t : Input) :
    passText (s ++ t) = .ok (r ++ t) := by
  unfold passText at h
  split at h
  · next hb =>
    cases h
    have hmore := body_extend (m := passMode) (fun _ _ _ => passEscape_extend) hb t
    simp only [passText, hmore]
  · cases h

theorem closed_text : Reader.text.Closed := by
  intro s r x h t
  unfold Reader.text at h
  dsimp only at h
  split at h
  · next hs =>
    have hmore := readText_extend h t
    simp only [Reader.text, skipGap_append_cons hs, hmore]
  · cases h

/-! ### Numbers -/

theorem eq_nil_of_length_le (h : r.length ≤ s.length) (hs : s = []) : r = [] := by
  rw [hs] at h
  exact List.length_eq_zero_iff.1 (Nat.le_zero.1 h)

theorem digits_extend (ht : afterDigits s = [] → Stops t) :
    digits (s ++ t) = digits s ∧ afterDigits (s ++ t) = afterDigits s ++ t := by
  induction s with
  | nil =>
    have hnil := digits_eq_nil (ht rfl)
    exact ⟨hnil, afterDigits_of_digits_eq_nil hnil⟩
  | cons c s ih =>
    by_cases hc : c.isDigit = true
    · simp only [digits, afterDigits, List.cons_append, List.takeWhile_cons_of_pos hc,
        List.dropWhile_cons_of_pos hc] at ih ht ⊢
      obtain ⟨htake, hdrop⟩ := ih ht
      exact ⟨by rw [htake], hdrop⟩
    · simp only [digits, afterDigits, List.cons_append, List.takeWhile_cons_of_neg hc,
        List.dropWhile_cons_of_neg hc, and_self]

theorem readWhole_extend {atEnd : Cause} {ds : List Char} (h : readWhole atEnd s = .ok (ds, r))
    (ht : r = [] → Stops t) : readWhole atEnd (s ++ t) = .ok (ds, r ++ t) := by
  unfold readWhole at h
  split at h
  · cases h
  · next c s =>
    rw [List.cons_append, readWhole]
    split at h
    · next hzero =>
      split at h
      · next hnil =>
        cases h
        rw [if_pos hzero]
        have hmore := (digits_extend (s := r) (by rwa [afterDigits_of_digits_eq_nil hnil])).1
        rw [hnil] at hmore
        rw [if_pos hmore]
      · cases h
    · next hzero =>
      split at h
      · next hdigit =>
        cases h
        obtain ⟨htake, hdrop⟩ := digits_extend ht
        rw [if_neg hzero, if_pos hdigit, htake, hdrop]
      · cases h

theorem readFraction_extend {atEnd : Cause} {ds : List Char}
    (h : readFraction atEnd s = .ok (ds, r)) (ht : r = [] → Stops t) :
    readFraction atEnd (s ++ t) = .ok (ds, r ++ t) := by
  unfold readFraction at h
  split at h
  · cases h
  · next s hne =>
    split at h
    · cases h
    · next hdigits =>
      cases h
      obtain ⟨htake, hdrop⟩ := digits_extend ht
      rcases s with _ | ⟨c, s⟩
      · exact absurd rfl hdigits
      · rw [List.cons_append] at htake hdrop
        simp only [List.cons_append, readFraction, htake, hdrop, if_neg hdigits]
  · next hdot =>
    cases h
    rcases s with _ | ⟨c, s⟩
    · exact readFraction_stops atEnd (ht rfl)
    · rw [List.cons_append]
      unfold readFraction
      split
      · next he => obtain ⟨rfl, -⟩ := List.cons.inj he; exact (hdot _ rfl).elim
      · next he => obtain ⟨rfl, -⟩ := List.cons.inj he; exact (hdot _ rfl).elim
      · rfl

theorem readPower_extend {atEnd : Cause} {b : Bool} {p : Option Power}
    (h : readPower atEnd b s = .ok (p, r)) (ht : r = [] → Stops t) :
    readPower atEnd b (s ++ t) = .ok (p, r ++ t) := by
  unfold readPower at h
  split at h
  · cases h
  · split at h
    · next hdigit =>
      cases h
      obtain ⟨htake, hdrop⟩ := digits_extend ht
      simp only [List.cons_append, readPower, hdigit, htake, hdrop, if_true]
    · cases h

theorem readExponent_extend {atEnd : Cause} {p : Option Power}
    (h : readExponent atEnd s = .ok (p, r)) (ht : r = [] → Stops t) :
    readExponent atEnd (s ++ t) = .ok (p, r ++ t) := by
  rcases s with _ | ⟨c, s⟩
  · cases h
    exact readExponent_stops atEnd (ht rfl)
  · simp only [List.cons_append, readExponent] at h ⊢
    split at h
    · next he =>
      rw [if_pos he]
      split at h
      · exact readPower_extend h ht
      · exact readPower_extend h ht
      · next hplus hminus =>
        have hmore := readPower_extend h ht
        split
        · next hd =>
          rcases s with _ | ⟨d, s⟩
          · cases h
          · cases hd; exact (hplus _ rfl).elim
        · next hd =>
          rcases s with _ | ⟨d, s⟩
          · cases h
          · cases hd; exact (hminus _ rfl).elim
        · exact hmore
    · next he =>
      cases h
      rw [if_neg he]
      rfl

theorem readUnsigned_extend {atEnd : Cause} {b : Bool} {n : Numeral}
    (h : readUnsigned atEnd b s = .ok (n, r)) (ht : r = [] → Stops t) :
    readUnsigned atEnd b (s ++ t) = .ok (n, r ++ t) := by
  unfold readUnsigned at h
  split at h
  · cases h
  · next hw =>
    split at h
    · cases h
    · next hf =>
      split at h
      · cases h
      · next he =>
        cases h
        -- a part that leaves nothing has nothing left behind it
        have hexponent := length_readExponent_le he
        have hfraction := length_readFraction_le hf
        have hwhole' := readWhole_extend hw fun h0 =>
          ht (eq_nil_of_length_le (Nat.le_trans hexponent hfraction) h0)
        have hfraction' := readFraction_extend hf fun h0 => ht (eq_nil_of_length_le hexponent h0)
        have hexponent' := readExponent_extend he ht
        simp only [readUnsigned, hwhole', hfraction', hexponent']

theorem readNumeral_extend {atEnd : Cause} {n : Numeral}
    (h : readNumeral atEnd s = .ok (n, r)) (ht : r = [] → Stops t) :
    readNumeral atEnd (s ++ t) = .ok (n, r ++ t) := by
  unfold readNumeral at h
  split at h
  · have hmore := readUnsigned_extend h ht
    simpa only [List.cons_append, readNumeral] using hmore
  · next hminus =>
    have hmore := readUnsigned_extend h ht
    rcases s with _ | ⟨c, s⟩
    · cases h
    · unfold readNumeral
      split
      · next hc => cases hc; exact absurd rfl (hminus _)
      · exact hmore

theorem readNumber_extend {x : Number} (h : readNumber s = .ok (x, r)) (ht : r = [] → Stops t) :
    readNumber (s ++ t) = .ok (x, r ++ t) := by
  unfold readNumber at h
  split at h
  · cases h
  · next hn =>
    have hmore := readNumeral_extend hn (t := t)
    split at h
    · cases h
    · next hunread =>
      split at h
      · next hvalue =>
        cases h
        simp only [readNumber, hmore ht, hunread, hvalue]
      · cases h

theorem steady_word : Reader.word.Steady := by
  intro s r n h t ht
  unfold Reader.word at h
  dsimp only at h
  split at h
  · next hs =>
    split at h
    · next hstart =>
      split at h
      · cases h
      · next hx =>
        split at h
        · next hword =>
          cases h
          have hmore := readNumber_extend hx ht
          rw [List.cons_append] at hmore
          simp only [Reader.word, skipGap_append_cons hs, hstart, hmore, hword, if_true]
        · cases h
    · cases h
  · cases h

end KnownIssues.Json
