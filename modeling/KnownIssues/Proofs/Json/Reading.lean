import KnownIssues.Proofs.Json.Passing

/-! # What a reader makes of a value

`Reader.Reads p f` says that the reader `p` takes every JSON text of a value `v` for `f v`, and
refuses it if there is none.  How the text is spelled, its blanks and its escapes, then makes no
difference.

* `reads_text`, `reads_word`, `reads_list`, `reads_orNull`: the readers of values of one kind.
* `Reads.decode_eq_ok`: a whole text, with blanks around the value. -/

namespace KnownIssues.Json

variable {α β δ : Type}

theorem eq_ok_of_toOption {ε : Type} {x : Except ε α} {a : α} (h : x.toOption = some a) :
    x = .ok a := by
  cases x with
  | error e => cases h
  | ok b => cases h; rfl

theorem eq_error_of_toOption {ε : Type} {x : Except ε α} (h : x.toOption = none) :
    ∃ e, x = .error e := by
  cases x with
  | error e => exact ⟨e, rfl⟩
  | ok b => cases h

theorem cases_of_toOption {ε : Type} {x : Except ε β} {o : Option α} {k : α → β}
    (h : x.toOption = o.map k) :
    (∃ a, o = some a ∧ x = .ok (k a)) ∨ (o = none ∧ ∃ e, x = .error e) := by
  cases o with
  | none => exact .inr ⟨rfl, eq_error_of_toOption h⟩
  | some a => exact .inl ⟨a, rfl, eq_ok_of_toOption h⟩

/-- The reader takes a JSON text of a value for what the value means, if it means anything. -/
def Reader.Reads (p : Reader α) (f : Value → Option α) : Prop :=
  ∀ ⦃v : Value⦄ ⦃w : List Char⦄, Spells v w → ∀ ⦃g r : List Char⦄, Gap g → Stops r →
    (p.run (g ++ (w ++ r))).toOption = (f v).map (·, r)

/-- **A whole text**, with blanks around the value. -/
theorem Reader.Reads.decode {p : Reader α} {f : Value → Option α} (hp : p.Reads f) {v : Value}
    {w : List Char} (h : Spells v w) {g g' : List Char} (hg : Gap g) (hg' : Gap g') :
    (p.decode (.ofList (g ++ (w ++ g')))).toOption = f v := by
  have hstops : Stops g' := by simpa using stops_gap_append hg' stops_nil
  unfold Reader.decode
  rw [String.toList_ofList]
  obtain ⟨a, hv, hrun⟩ | ⟨hv, e, hrun⟩ := cases_of_toOption (hp h hg hstops)
  · rw [hrun, hv]
    simp only [skipGap_eq_nil.2 hg']
    rfl
  · rw [hrun, hv]
    rfl

theorem Reader.Reads.decode_eq_ok {p : Reader α} {f : Value → Option α} (hp : p.Reads f) {v : Value}
    {w : List Char} (h : Spells v w) {g g' : List Char} (hg : Gap g) (hg' : Gap g') {a : α} :
    p.decode (.ofList (g ++ (w ++ g'))) = .ok a ↔ f v = some a := by
  rw [← hp.decode h hg hg']
  refine ⟨fun hdecode => ?_, eq_ok_of_toOption⟩
  rw [hdecode]
  rfl

/-! ### Texts and words -/

/-- The text that a value is. -/
def Value.text? : Value → Option String
  | text s => s
  | _ => none

/-- The number is a word of 64 bits, written without sign, fraction and exponent. -/
def Numeral.IsWord (n : Numeral) : Prop :=
  n.negative = false ∧ n.fraction = [] ∧ n.power = none ∧ n.magnitude < UInt64.size

instance (n : Numeral) : Decidable n.IsWord := by
  unfold Numeral.IsWord; infer_instance

/-- The word that a value is. -/
def Value.word? : Value → Option UInt64
  | number n => if n.IsWord then some (.ofNat n.magnitude) else none
  | _ => none

theorem reads_text : Reader.text.Reads Value.text? := by
  intro v w h g r hg hr
  have hskip := h.skipGap hg r
  unfold Reader.text
  dsimp only
  cases h with
  | text ps =>
    simp only [spelled, List.cons_append, List.append_assoc, List.nil_append] at hskip ⊢
    simp only [hskip]
    exact readText_spelled ps r
  | number hn =>
    obtain ⟨c, t, rfl, hc⟩ := hn.opens
    rw [hskip]
    split
    · next he => rw [(List.cons.inj he).1] at hc; cases hc
    · rfl
  | _ => simp only [hskip]; rfl

theorem Numeral.IsWord.value? {n : Numeral} (h : n.IsWord) :
    n.unread? = none ∧ n.value? = some (.integer n.magnitude) := by
  obtain ⟨hsign, hfraction, hpower, hfits⟩ := h
  have hwhole : n.isWhole = true := by
    rw [isWhole, hfraction, hpower]
    rfl
  constructor
  · rw [unread?, hpower]
  · simp only [Numeral.value?, hwhole, hsign, hfits, Bool.not_false, Bool.and_self, decide_true,
      if_true]

/-- A number that is no word is negative, no integer or too large. -/
theorem wordOf_value {n : Numeral} (hn : ¬ n.IsWord) {x : Number} (hx : n.value? = some x) :
    ∃ cause, Reader.wordOf x = .error cause := by
  unfold Numeral.value? at hx
  split at hx
  · next hfits =>
    simp only [Numeral.isWhole, Bool.and_eq_true, List.isEmpty_iff, Option.isNone_iff_eq_none,
      Bool.not_eq_true', decide_eq_true_eq] at hfits
    exact absurd ⟨hfits.1.2, hfits.1.1.1, hfits.1.1.2, hfits.2⟩ hn
  · split at hx
    · next hfits =>
      simp only [Bool.and_eq_true, decide_eq_true_eq] at hfits
      cases hx
      obtain ⟨k, hk⟩ := Nat.exists_eq_succ_of_ne_zero (Nat.ne_of_gt hfits.1.2)
      rw [hk]
      exact ⟨_, rfl⟩
    · obtain ⟨y, -, rfl⟩ := Option.map_eq_some_iff.1 hx
      exact ⟨_, rfl⟩

theorem reads_word : Reader.word.Reads Value.word? := by
  intro v w h g r hg hr
  have hskip := h.skipGap hg r
  unfold Reader.word
  dsimp only
  cases h with
  | @number n _ hn =>
    have hread := readNumeral_spelled .endInValue hn hr
    obtain ⟨c, t, rfl, hc⟩ := hn.opens
    rw [List.cons_append] at hskip hread
    simp only [List.cons_append, hskip, hc, if_true, readNumber, hread, Value.word?]
    by_cases hword : n.IsWord
    · obtain ⟨hunread, hvalue⟩ := hword.value?
      simp only [hunread, hvalue, hword, if_true]
      rfl
    · rw [if_neg hword]
      cases hunread : n.unread? with
      | some ds => rfl
      | none =>
        cases hvalue : n.value? with
        | none => rfl
        | some x =>
          obtain ⟨cause, hcause⟩ := wordOf_value hword hvalue
          simp only [hcause]
          rfl
  | _ => simp only [hskip]; rfl

/-! ### Lists -/

/-- What the elements of a list mean, if the value is one and all of them mean something. -/
def Value.list? (f : Value → Option α) : Value → Option (List α)
  | list vs => vs.mapM f
  | _ => none

theorem nextElement_spelled {v : Value} {w : List Char} (h : Spells v w) {g : List Char}
    (hg : Gap g) (r : Input) : nextElement true (g ++ (w ++ r)) = .ok (.more (w ++ r)) := by
  have hskip := h.skipGap hg r
  obtain ⟨c, t, rfl, hc⟩ := h.opens
  exact nextElement_first hskip hc.ne_bracket

theorem nextElement_comma_spelled {v : Value} {w : List Char} (h : Spells v w) {g g' : List Char}
    (hg : Gap g) (hg' : Gap g') (r : Input) :
    nextElement false (g ++ ',' :: (g' ++ (w ++ r))) = .ok (.more (w ++ r)) := by
  have hskip := h.skipGap hg' r
  obtain ⟨c, t, rfl, hc⟩ := h.opens
  exact nextElement_comma (skipGap_gap hg (by decide) _) hskip hc.ne_bracket

theorem readElements_error {p : Reader α} {done : List α} {s t : Input} {e : Failure}
    (h : nextElement done.isEmpty s = .ok (.more t)) (he : p.run t = .error e) :
    readElements p done s = .error e := by
  rw [readElements]
  split
  · next hn => rw [h] at hn; cases hn
  · next hn => rw [h] at hn; cases hn
  · next hn =>
    rw [h] at hn
    cases hn
    split
    · next hr => rw [he] at hr; cases hr; rfl
    · next hr => rw [he] at hr; cases hr

theorem readElements_spelled {p : Reader α} {f : Value → Option α} (hp : p.Reads f) {v : Value}
    {w : List Char} (h : Spells v w) (done : List α) {s r : Input}
    (hnext : nextElement done.isEmpty s = .ok (.more (w ++ r))) (hr : Stops r) :
    (readElements p done s).toOption
      = (f v).bind fun a => (readElements p (a :: done) r).toOption := by
  obtain ⟨a, hv, hrun⟩ | ⟨hv, e, hrun⟩ := cases_of_toOption (hp h gap_nil hr)
  · rw [readElements_more hnext hrun, hv]
    rfl
  · rw [readElements_error hnext hrun, hv]
    rfl

theorem readElements_rest {p : Reader α} {f : Value → Option α} (hp : p.Reads f) {vs : List Value}
    {t : List Char} (h : ListRest vs t) (a : α) (done : List α) (r : Input) :
    (readElements p (a :: done) (t ++ r)).toOption
      = (vs.mapM f).map fun as => ((a :: done).reverse ++ as, r) := by
  induction vs generalizing a done t with
  | nil =>
    cases h with
    | nil hg =>
      rw [List.append_assoc, List.singleton_append,
        readElements_closed (nextElement_closed _ hg r)]
      simp [Except.toOption]
  | cons v vs ih =>
    cases h with
    | cons hg hg' hv ht =>
      simp only [List.append_assoc, List.cons_append]
      rw [readElements_spelled hp hv (a :: done) (nextElement_comma_spelled hv hg hg' _)
        (ht.stops r)]
      cases hf : f v with
      | none => simp [hf]
      | some b =>
        rw [List.mapM_cons, hf, Option.bind_some, ih ht b]
        cases vs.mapM f with
        | none => rfl
        | some as => simp

/-- **A list is read** element by element. -/
theorem reads_list {p : Reader α} {f : Value → Option α} (hp : p.Reads f) :
    (Reader.list p).Reads (Value.list? f) := by
  intro v w h g r hg hr
  have hskip := h.skipGap hg r
  unfold Reader.list
  dsimp only
  cases h with
  | emptyList hg₀ =>
    simp only [List.cons_append, List.append_assoc, List.nil_append] at hskip ⊢
    have hnext : nextElement ([] : List α).isEmpty _ = _ := nextElement_closed true hg₀ r
    simp only [hskip, readElements_closed hnext]
    rfl
  | @list v vs _ _ _ hg₀ hv ht =>
    simp only [List.cons_append, List.append_assoc] at hskip ⊢
    simp only [hskip]
    rw [readElements_spelled hp hv [] (nextElement_spelled hv hg₀ _) (ht.stops r)]
    simp only [readElements_rest hp ht]
    rw [Value.list?, List.mapM_cons]
    cases f v with
    | none => rfl
    | some b =>
      cases vs.mapM f with
      | none => rfl
      | some as => rfl
  | number hn =>
    obtain ⟨c, t, rfl, hc⟩ := hn.opens
    rw [hskip]
    split
    · next he => rw [(List.cons.inj he).1] at hc; cases hc
    · rfl
  | _ => simp only [hskip]; rfl

/-! ### Values that may be null -/

/-- `null` means that there is none. -/
def Value.orNull? (f : Value → Option α) : Value → Option (Option α)
  | null => some none
  | v => (f v).map some

theorem Value.Opens.eq_null {v : Value} (h : v.Opens 'n') : v = .null := by
  cases v with
  | null => rfl
  | boolean b => cases b <;> cases h
  | _ => cases h

theorem reads_orNull {p : Reader α} {f : Value → Option α} (hp : p.Reads f) :
    p.orNull.Reads (Value.orNull? f) := by
  intro v w h g r hg hr
  have hskip := h.skipGap hg r
  by_cases hv : v = .null
  · subst hv
    cases h
    simp only [List.cons_append, List.nil_append] at hskip ⊢
    simp only [Reader.orNull, hskip]
    rfl
  · have hread := cases_of_toOption (hp h hg hr)
    obtain ⟨c, t, rfl, hc⟩ := h.opens
    have hsome : v.orNull? f = (f v).map some := by
      cases v with
      | null => exact absurd rfl hv
      | _ => rfl
    unfold Reader.orNull
    dsimp only
    rw [hskip, hsome]
    split
    · next he =>
      rw [(List.cons.inj he).1] at hc
      exact absurd hc.eq_null hv
    · obtain ⟨a, hf, hrun⟩ | ⟨hf, e, hrun⟩ := hread <;> (rw [hrun, hf]; rfl)

end KnownIssues.Json
