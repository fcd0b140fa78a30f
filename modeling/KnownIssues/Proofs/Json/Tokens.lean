import KnownIssues.Json.Format

/-! # Written tokens are read back

The two tokens that carry data are texts and words.  A text is read back whatever stands behind it
(`readText_quote`): each written character gives that character (`body_escape`).  A word is read back
if the text does not go on as a number behind it (`Stops`, `readNumber_toDigits`).  Blanks in front
of a token are skipped (`skipGap_gap`). -/

namespace KnownIssues.Json

/-! ### Blanks -/

/-- Nothing but blanks. -/
def Gap (g : List Char) : Prop :=
  ∀ c ∈ g, isGap c = true

theorem gap_nil : Gap [] := by
  intro c hc; cases hc

theorem skipGap_append {g : List Char} (hg : Gap g) (s : Input) :
    skipGap (g ++ s) = skipGap s :=
  List.dropWhile_append_of_pos hg

theorem skipGap_cons {c : Char} (hc : isGap c = false) (s : Input) :
    skipGap (c :: s) = c :: s :=
  List.dropWhile_cons_of_neg (by simp [hc])

theorem skipGap_gap {g : List Char} (hg : Gap g) {c : Char} (hc : isGap c = false) (s : Input) :
    skipGap (g ++ c :: s) = c :: s := by
  rw [skipGap_append hg, skipGap_cons hc]

/-! ### Texts -/

theorem readEscape_hex {c : Char} (hc : c.toNat < 0x20) (t : Input) :
    readEscape ('u' :: '0' :: '0' :: (Text.Hex.lower (UInt8.ofNat c.toNat) ++ t)) = .ok (c, t) := by
  have hb : (UInt8.ofNat c.toNat).toNat = c.toNat := by
    rw [UInt8.toNat_ofNat']; omega
  have hhigh := Text.Hex.value?_digitChar (c.toNat / 16) (by omega)
  have hlow := Text.Hex.value?_digitChar (c.toNat % 16) (by omega)
  have hvalue : Text.Hex.value4? '0' '0' (Nat.digitChar (c.toNat / 16))
      (Nat.digitChar (c.toNat % 16)) = some c.toNat := by
    have h0 : Text.Hex.value? '0' = some 0 := by decide
    simp only [Text.Hex.value4?, h0, hhigh, hlow, Option.bind_eq_bind, Option.bind_some,
      Option.pure_def]
    congr 1; omega
  have hlowHalf : isLowSurrogate c.toNat = false := by
    simp only [isLowSurrogate, Bool.and_eq_false_iff, decide_eq_false_iff_not]; omega
  have hhighHalf : isHighSurrogate c.toNat = false := by
    simp only [isHighSurrogate, Bool.and_eq_false_iff, decide_eq_false_iff_not]; omega
  simp only [Text.Hex.lower, hb, List.cons_append, List.nil_append, readEscape, readHex4, hvalue,
    hlowHalf, hhighHalf, Bool.false_eq_true, if_false, Char.ofNat_toNat]

theorem body_backslash {α : Type} {m : TextMode α} {done : List α} {x : α} {s t : Input}
    (h : m.escape.run s = .ok (x, t)) : body m done ('\\' :: s) = body m (x :: done) t := by
  rw [body, if_neg (by decide), if_pos rfl]
  split
  · next he => rw [h] at he; cases he
  · next he => rw [h] at he; cases he; rfl

/-- What is written for a character is taken as that character. -/
theorem body_escape (done : List Char) (c : Char) (t : Input) :
    body readMode done (escape c ++ t) = body readMode (c :: done) t := by
  unfold escape
  split
  case h_8 hquote hslash _ _ _ _ _ =>
    split
    · next hc => exact body_backslash (readEscape_hex hc t)
    · next hc =>
      rw [List.cons_append, List.nil_append, body, if_neg hquote, if_neg hslash, if_neg hc]
      rfl
  all_goals exact body_backslash rfl

theorem body_flatMap_escape (done cs : List Char) (r : Input) :
    body readMode done (cs.flatMap escape ++ '"' :: r) = .ok (done.reverse ++ cs, r) := by
  induction cs generalizing done with
  | nil =>
    rw [List.flatMap_nil, List.nil_append, body, if_pos rfl, List.append_nil]
  | cons c cs ih =>
    rw [List.flatMap_cons, List.append_assoc, body_escape, ih, List.reverse_cons,
      List.append_assoc, List.singleton_append]

/-- **A written text is read back**, whatever stands behind it. -/
theorem readText_quote (s : String) (r : Input) :
    ∃ t, quote s ++ r = '"' :: t ∧ readText t = .ok (s, r) := by
  refine ⟨s.toList.flatMap escape ++ '"' :: r, by simp [quote], ?_⟩
  rw [readText, body_flatMap_escape]
  simp

/-! ### Words -/

/-- No number goes on with these characters. -/
def Stops (r : Input) : Prop :=
  ∀ c t, r = c :: t → c.isDigit = false ∧ c ≠ '.' ∧ c ≠ 'e' ∧ c ≠ 'E'

theorem stops_nil : Stops [] := by
  rintro c t h; cases h

theorem stops_cons {c : Char} (hc : c.isDigit = false ∧ c ≠ '.' ∧ c ≠ 'e' ∧ c ≠ 'E')
    (t : Input) : Stops (c :: t) := by
  rintro _ _ ⟨rfl, rfl⟩; exact hc

theorem stops_gap_append {g : List Char} (hg : Gap g) {r : Input} (hr : Stops r) :
    Stops (g ++ r) := by
  rcases g with _ | ⟨c, g⟩
  · exact hr
  · have hc := hg c (List.mem_cons_self ..)
    simp only [isGap, Bool.or_eq_true, beq_iff_eq] at hc
    refine stops_cons ?_ _
    rcases hc with ((rfl | rfl) | rfl) | rfl <;> decide

/-- One digit or more. -/
def Digits (ds : List Char) : Prop :=
  ds ≠ [] ∧ ∀ c ∈ ds, c.isDigit = true

theorem Digits.exists_cons {ds : List Char} (h : Digits ds) :
    ∃ c cs, ds = c :: cs ∧ c.isDigit = true ∧ ∀ d ∈ cs, d.isDigit = true := by
  obtain ⟨hne, hall⟩ := h
  obtain ⟨c, cs, rfl⟩ := List.exists_cons_of_ne_nil hne
  exact ⟨c, cs, rfl, hall c (List.mem_cons_self ..), fun d hd => hall d (List.mem_cons_of_mem _ hd)⟩

theorem digits_cons {c : Char} (hc : c.isDigit = false) (r : Input) : digits (c :: r) = [] :=
  List.takeWhile_cons_of_neg (by simp [hc])

theorem digits_eq_nil {r : Input} (hr : Stops r) : digits r = [] := by
  rcases r with _ | ⟨c, t⟩
  · rfl
  · exact digits_cons (hr c t rfl).1 t

theorem afterDigits_of_digits_eq_nil {r : Input} (h : digits r = []) : afterDigits r = r := by
  have hsplit := List.takeWhile_append_dropWhile (p := Char.isDigit) (l := r)
  rwa [← digits, h, List.nil_append] at hsplit

theorem digits_append {ds r : List Char} (hds : ∀ c ∈ ds, c.isDigit = true) (hr : digits r = []) :
    digits (ds ++ r) = ds ∧ afterDigits (ds ++ r) = r := by
  constructor
  · rw [digits, List.takeWhile_append_of_pos hds, ← digits, hr, List.append_nil]
  · rw [afterDigits, List.dropWhile_append_of_pos hds, ← afterDigits,
      afterDigits_of_digits_eq_nil hr]

theorem readWhole_digits (atEnd : Cause) {ds : List Char} (hds : Digits ds)
    (hzero : ds.head? = some '0' → ds = ['0']) {r : Input} (hr : digits r = []) :
    readWhole atEnd (ds ++ r) = .ok (ds, r) := by
  obtain ⟨c, cs, rfl, hc, hcs⟩ := hds.exists_cons
  obtain ⟨htake, hdrop⟩ := digits_append hcs hr
  rw [List.cons_append, readWhole]
  by_cases h0 : c = '0'
  · subst h0
    obtain rfl : cs = [] := (List.cons.inj (hzero rfl)).2
    rw [if_pos rfl, List.nil_append, if_pos hr]
  · rw [if_neg h0, if_pos hc, htake, hdrop]

theorem readFraction_stops (atEnd : Cause) {r : Input} (hr : Stops r) :
    readFraction atEnd r = .ok ([], r) := by
  unfold readFraction
  split
  · exact absurd rfl (hr _ _ rfl).2.1
  · exact absurd rfl (hr _ _ rfl).2.1
  · rfl

theorem readExponent_stops (atEnd : Cause) {r : Input} (hr : Stops r) :
    readExponent atEnd r = .ok (none, r) := by
  rcases r with _ | ⟨c, t⟩
  · rfl
  · obtain ⟨-, -, he, hE⟩ := hr c t rfl
    simp only [readExponent, he, hE, or_self, if_false]

theorem toDigits_ten_cons_zero {n : Nat} {ds : List Char} (h : Nat.toDigits 10 n = '0' :: ds) :
    ds = [] := by
  induction n using Nat.strongRecOn generalizing ds with
  | ind n ih =>
    rcases Nat.lt_or_ge n 10 with hn | hn
    · rw [Nat.toDigits_of_lt_base hn] at h
      exact (List.cons.inj h).2.symm
    · rw [Nat.toDigits_of_base_le (by decide) hn] at h
      rcases hfront : Nat.toDigits 10 (n / 10) with _ | ⟨c, cs⟩
      · exact absurd hfront Nat.toDigits_ne_nil
      · rw [hfront, List.cons_append] at h
        obtain ⟨rfl, -⟩ := List.cons.inj h
        have hcs := ih (n / 10) (by omega) hfront
        subst hcs
        -- then `n / 10` is zero, against `10 ≤ n`
        have hzero : n / 10 = 0 := by
          have := Nat.ofDigitChars_ten_toDigits (n := n / 10)
          rw [hfront] at this
          exact this.symm
        omega

theorem isDigit_of_mem_toDigits {n : Nat} {c : Char} (hc : c ∈ Nat.toDigits 10 n) :
    c.isDigit = true :=
  Nat.isDigit_of_mem_toDigits (by decide) (by decide) hc

theorem digits_toDigits (n : Nat) : Digits (Nat.toDigits 10 n) :=
  ⟨Nat.toDigits_ne_nil, fun _ => isDigit_of_mem_toDigits⟩

theorem exists_toDigits_cons (n : Nat) :
    ∃ c ds, Nat.toDigits 10 n = c :: ds ∧ c.isDigit = true := by
  obtain ⟨c, ds, h, hc, -⟩ := (digits_toDigits n).exists_cons
  exact ⟨c, ds, h, hc⟩

theorem readWhole_toDigits (atEnd : Cause) (n : Nat) {r : Input} (hr : Stops r) :
    readWhole atEnd (Nat.toDigits 10 n ++ r) = .ok (Nat.toDigits 10 n, r) := by
  refine readWhole_digits atEnd (digits_toDigits n) (fun hzero => ?_) (digits_eq_nil hr)
  obtain ⟨ds, hds⟩ := List.head?_eq_some_iff.1 hzero
  rw [hds, toDigits_ten_cons_zero hds]

/-- **A written word is read back** in front of what no number goes on with. -/
theorem readNumber_toDigits {n : Nat} (hn : n < UInt64.size) {r : Input} (hr : Stops r) :
    readNumber (Nat.toDigits 10 n ++ r) = .ok (.integer n, r) := by
  have hunsigned : readUnsigned .endInValue false (Nat.toDigits 10 n ++ r)
      = .ok (⟨false, Nat.toDigits 10 n, [], none⟩, r) := by
    simp only [readUnsigned, readWhole_toDigits _ n hr, readFraction_stops _ hr,
      readExponent_stops _ hr]
  have hnumeral : readNumeral .endInValue (Nat.toDigits 10 n ++ r)
      = .ok (⟨false, Nat.toDigits 10 n, [], none⟩, r) := by
    rw [← hunsigned, readNumeral]
    intro t ht
    -- a digit in front, so no sign
    obtain ⟨c, ds, h, hc⟩ := exists_toDigits_cons n
    rw [h, List.cons_append] at ht
    obtain ⟨rfl, -⟩ := List.cons.inj ht
    exact absurd hc (by decide)
  have hvalue : Numeral.value? ⟨false, Nat.toDigits 10 n, [], none⟩ = some (.integer n) := by
    have hfits : decide (n < UInt64.size) = true := decide_eq_true hn
    simp only [Numeral.value?, Numeral.isWhole, Numeral.magnitude, Nat.ofDigitChars_ten_toDigits,
      List.isEmpty_nil, Option.isNone_none, Bool.not_false, Bool.and_self, Bool.true_and, hfits,
      if_true]
  simp only [readNumber, hnumeral, Numeral.unread?, hvalue]

end KnownIssues.Json
