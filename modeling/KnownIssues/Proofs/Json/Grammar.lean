import KnownIssues.Json.Passing
import KnownIssues.Proofs.Json.Tokens

/-! # Strict JSON texts

`Spells v w` says that `w` is a JSON text of the value `v`, from its first character to its last.
The rules are those of the grammar: blanks between any two tokens, numbers without a leading zero,
strings of plain characters and escapes, and commas between the items of a list or an object but
none behind them.  What stands behind an item, the other items and the closing bracket, has rules of
its own (`ListRest`, `ObjectRest`).

Of a text a `Value` keeps what can matter.  Each string is what it stands for, however it is
escaped, or none if a surrogate in it has no other half (`unescape?`).  An object keeps its members
in order, doubles included.

* `readText_spelled`, `passText_spelled`: a string is read as what it stands for, and passed over
  in any case.
* `readNumeral_spelled`: a number is taken as it stands. -/

namespace KnownIssues.Json

/-! ### Strings -/

/-- What a string is made of. -/
inductive Piece where
  /-- A character that stands for itself. -/
  | plain (c : Char) (hquote : c ≠ '"') (hslash : c ≠ '\\') (hcontrol : ¬ c.toNat < 0x20)
  /-- A backslash and a mark that stands for a character. -/
  | short (mark c : Char) (h : shortEscape? mark = some c)
  /-- A backslash, a `u` and four hexadecimal digits. -/
  | code (a b c d : Char) (n : Nat) (h : Text.Hex.value4? a b c d = some n)

/-- The characters of a piece. -/
def Piece.chars : Piece → List Char
  | plain c .. => [c]
  | short mark .. => ['\\', mark]
  | code a b c d .. => ['\\', 'u', a, b, c, d]

/-- The string of these pieces. -/
def spelled (ps : List Piece) : List Char :=
  '"' :: (ps.flatMap Piece.chars ++ ['"'])

/-- What the pieces stand for, unless a surrogate has no other half. -/
def unescape? : List Piece → Option (List Char)
  | [] => some []
  | .plain c .. :: ps => (unescape? ps).map (c :: ·)
  | .short _ c _ :: ps => (unescape? ps).map (c :: ·)
  | .code _ _ _ _ n _ :: ps =>
    if isLowSurrogate n then none
    else if isHighSurrogate n then
      match ps with
      | .code _ _ _ _ m _ :: ps =>
        if isLowSurrogate m then
          (unescape? ps).map (Char.ofNat (0x10000 + (n - 0xD800) * 0x400 + (m - 0xDC00)) :: ·)
        else none
      | _ => none
    else (unescape? ps).map (Char.ofNat n :: ·)

/-- The text that the string of these pieces stands for. -/
def textOf? (ps : List Piece) : Option String :=
  (unescape? ps).map String.ofList

/-! ### Numbers -/

/-- The texts of a fraction. -/
inductive SpellsFraction : List Char → List Char → Prop where
  | absent : SpellsFraction [] []
  | present {ds : List Char} (h : Digits ds) : SpellsFraction ds ('.' :: ds)

/-- The texts of an exponent. -/
inductive SpellsExponent : Option Power → List Char → Prop where
  | absent : SpellsExponent none []
  | plain {e : Char} {ds : List Char} (he : e = 'e' ∨ e = 'E') (h : Digits ds) :
      SpellsExponent (some ⟨false, ds⟩) (e :: ds)
  | plus {e : Char} {ds : List Char} (he : e = 'e' ∨ e = 'E') (h : Digits ds) :
      SpellsExponent (some ⟨false, ds⟩) (e :: '+' :: ds)
  | minus {e : Char} {ds : List Char} (he : e = 'e' ∨ e = 'E') (h : Digits ds) :
      SpellsExponent (some ⟨true, ds⟩) (e :: '-' :: ds)

/-- The texts of a number.  A zero in front stands alone. -/
structure SpellsUnsigned (n : Numeral) (w : List Char) : Prop where
  whole : Digits n.whole
  zero : n.whole.head? = some '0' → n.whole = ['0']
  rest : ∃ f e, SpellsFraction n.fraction f ∧ SpellsExponent n.power e ∧ w = n.whole ++ (f ++ e)

/-- The texts of a number with its sign. -/
inductive SpellsNumeral : Numeral → List Char → Prop where
  | positive {n : Numeral} {w : List Char} (hn : n.negative = false) (h : SpellsUnsigned n w) :
      SpellsNumeral n w
  | negative {n : Numeral} {w : List Char} (hn : n.negative = true) (h : SpellsUnsigned n w) :
      SpellsNumeral n ('-' :: w)

/-! ### Values -/

/-- What a JSON text stands for. -/
inductive Value where
  | null
  | boolean (b : Bool)
  | number (n : Numeral)
  /-- A string, if it stands for a text. -/
  | text (s : Option String)
  | list (vs : List Value)
  /-- Names and values, in order. -/
  | object (ms : List (Option String × Value))

mutual

/-- The texts of a value. -/
inductive Spells : Value → List Char → Prop where
  | null : Spells .null ['n', 'u', 'l', 'l']
  | yes : Spells (.boolean true) ['t', 'r', 'u', 'e']
  | no : Spells (.boolean false) ['f', 'a', 'l', 's', 'e']
  | number {n : Numeral} {w : List Char} (h : SpellsNumeral n w) : Spells (.number n) w
  | text (ps : List Piece) : Spells (.text (textOf? ps)) (spelled ps)
  | emptyList {g : List Char} (hg : Gap g) : Spells (.list []) ('[' :: (g ++ [']']))
  | list {v : Value} {vs : List Value} {g w t : List Char} (hg : Gap g) (h : Spells v w)
      (ht : ListRest vs t) : Spells (.list (v :: vs)) ('[' :: (g ++ (w ++ t)))
  | emptyObject {g : List Char} (hg : Gap g) : Spells (.object []) ('\x7b' :: (g ++ ['\x7d']))
  | object {v : Value} {ms : List (Option String × Value)} {ps : List Piece}
      {g g₁ g₂ w t : List Char} (hg : Gap g) (hg₁ : Gap g₁) (hg₂ : Gap g₂) (h : Spells v w)
      (ht : ObjectRest ms t) :
      Spells (.object ((textOf? ps, v) :: ms))
        ('\x7b' :: (g ++ (spelled ps ++ (g₁ ++ ':' :: (g₂ ++ (w ++ t))))))

/-- What stands behind an element of a list: the other elements and the closing bracket. -/
inductive ListRest : List Value → List Char → Prop where
  | nil {g : List Char} (hg : Gap g) : ListRest [] (g ++ [']'])
  | cons {v : Value} {vs : List Value} {g g' w t : List Char} (hg : Gap g) (hg' : Gap g')
      (h : Spells v w) (ht : ListRest vs t) :
      ListRest (v :: vs) (g ++ ',' :: (g' ++ (w ++ t)))

/-- What stands behind a member of an object: the other members and the closing brace. -/
inductive ObjectRest : List (Option String × Value) → List Char → Prop where
  | nil {g : List Char} (hg : Gap g) : ObjectRest [] (g ++ ['\x7d'])
  | cons {v : Value} {ms : List (Option String × Value)} {ps : List Piece}
      {g g' g₁ g₂ w t : List Char} (hg : Gap g) (hg' : Gap g') (hg₁ : Gap g₁) (hg₂ : Gap g₂)
      (h : Spells v w) (ht : ObjectRest ms t) :
      ObjectRest ((textOf? ps, v) :: ms)
        (g ++ ',' :: (g' ++ (spelled ps ++ (g₁ ++ ':' :: (g₂ ++ (w ++ t))))))

end

/-! ### Reading a string -/

theorem readEscape_short {mark c : Char} (h : shortEscape? mark = some c) (t : Input) :
    readEscape (mark :: t) = .ok (c, t) := by
  unfold readEscape
  split
  · next he => cases he
  · next he => cases he; cases h
  · next he => cases he; simp only [h]

theorem readHex4_code {a b c d : Char} {n : Nat} (h : Text.Hex.value4? a b c d = some n)
    (t : Input) : readHex4 (a :: b :: c :: d :: t) = .ok (n, t) := by
  simp only [readHex4, h]

theorem body_backslash_error {done : List Char} {s : Input} {e : Failure}
    (h : readEscape s = .error e) : body readMode done ('\\' :: s) = .error e := by
  have hrun : readMode.escape.run s = .error e := h
  rw [body, if_neg (by decide), if_pos rfl]
  split
  · next he => rw [hrun] at he; cases he; rfl
  · next he => rw [hrun] at he; cases he

theorem readLowHalf_error {high : Nat} {ps : List Piece}
    (hps : ∀ a b c d m h qs, ps = .code a b c d m h :: qs → False) (r : Input) :
    ∃ e, readLowHalf high (ps.flatMap Piece.chars ++ '"' :: r) = .error e := by
  rcases ps with _ | ⟨p, ps⟩
  · exact ⟨_, rfl⟩
  · cases p with
    | plain c hquote hslash hcontrol =>
      rw [List.flatMap_cons, Piece.chars, List.append_assoc, List.singleton_append]
      unfold readLowHalf
      split
      · next he => cases he
      · next he => exact absurd (List.cons.inj he).1 hslash
      · next he => exact absurd (List.cons.inj he).1 hslash
      · exact ⟨_, rfl⟩
      · exact ⟨_, rfl⟩
    | short mark c h =>
      rw [List.flatMap_cons, Piece.chars, List.append_assoc, List.cons_append,
        List.singleton_append]
      unfold readLowHalf
      split
      · next he => cases he
      · next he => cases he
      · next he =>
        obtain ⟨rfl, -⟩ := List.cons.inj (List.cons.inj he).2
        cases h
      · exact ⟨_, rfl⟩
      · exact ⟨_, rfl⟩
    | code a b c d m h => exact (hps a b c d m h ps rfl).elim

theorem readEscape_code {a b c d : Char} {n : Nat} (h : Text.Hex.value4? a b c d = some n)
    (t : Input) :
    readEscape ('u' :: a :: b :: c :: d :: t)
      = if isLowSurrogate n then .error (.here .loneSurrogate t)
        else if isHighSurrogate n then readLowHalf n t else .ok (Char.ofNat n, t) := by
  simp only [readEscape, readHex4_code h]

theorem readLowHalf_code {a b c d : Char} {m : Nat} (h : Text.Hex.value4? a b c d = some m)
    (n : Nat) (t : Input) :
    readLowHalf n ('\\' :: 'u' :: a :: b :: c :: d :: t)
      = if isLowSurrogate m then
          .ok (Char.ofNat (0x10000 + (n - 0xD800) * 0x400 + (m - 0xDC00)), t)
        else .error (.here .loneSurrogate t) := by
  simp only [readLowHalf, readHex4_code h]

theorem passEscape_short {mark c : Char} (h : shortEscape? mark = some c) (t : Input) :
    passEscape (mark :: t) = .ok ((), t) := by
  unfold passEscape
  split
  · next he => cases he
  · next he => cases he; cases h
  · next he => cases he; rw [if_pos (by rw [h]; rfl)]

theorem passEscape_code {a b c d : Char} {n : Nat} (h : Text.Hex.value4? a b c d = some n)
    (t : Input) : passEscape ('u' :: a :: b :: c :: d :: t) = .ok ((), t) := by
  simp only [passEscape, readHex4_code h]

/-- The inside of a string is taken as what its pieces stand for, if they do. -/
theorem body_spelled (ps : List Piece) (done : List Char) (r : Input) :
    (body readMode done (ps.flatMap Piece.chars ++ '"' :: r)).toOption
      = (unescape? ps).map fun cs => (done.reverse ++ cs, r) := by
  fun_induction unescape? ps generalizing done with
  | case1 => rw [List.flatMap_nil, List.nil_append, body, if_pos rfl]; simp [Except.toOption]
  | case2 c hquote hslash hcontrol ps ih =>
    simp only [List.flatMap_cons, Piece.chars, List.cons_append, List.nil_append]
    rw [body, if_neg hquote, if_neg hslash, if_neg hcontrol, ih]
    simp [readMode, Function.comp_def]
  | case3 mark c h ps ih =>
    simp only [List.flatMap_cons, Piece.chars, List.cons_append, List.nil_append]
    rw [body_backslash (readEscape_short h _), ih]
    simp [Function.comp_def]
  | case4 a b c d n h ps hlow =>
    simp only [List.flatMap_cons, Piece.chars, List.cons_append, List.nil_append]
    rw [body_backslash_error (by rw [readEscape_code h, if_pos hlow])]
    rfl
  | case5 a b c d n h hlow hhigh a' b' c' d' m h' ps hlow' ih =>
    simp only [List.flatMap_cons, Piece.chars, List.cons_append, List.nil_append]
    have hpair := (readEscape_code h _).trans <| (if_neg hlow).trans <| (if_pos hhigh).trans <|
      (readLowHalf_code h' n (ps.flatMap Piece.chars ++ '"' :: r)).trans (if_pos hlow')
    rw [body_backslash hpair, ih]
    simp [Function.comp_def]
  | case6 a b c d n h hlow hhigh a' b' c' d' m h' ps hlow' =>
    simp only [List.flatMap_cons, Piece.chars, List.cons_append, List.nil_append]
    rw [body_backslash_error (by rw [readEscape_code h, if_neg hlow, if_pos hhigh,
      readLowHalf_code h', if_neg hlow'])]
    rfl
  | case7 a b c d n h ps hlow hhigh hother =>
    obtain ⟨e, he⟩ : ∃ e, readLowHalf n (ps.flatMap Piece.chars ++ '"' :: r) = .error e :=
      readLowHalf_error hother r
    simp only [List.flatMap_cons, Piece.chars, List.cons_append, List.nil_append]
    rw [body_backslash_error (by rw [readEscape_code h, if_neg hlow, if_pos hhigh, he])]
    rfl
  | case8 a b c d n h ps hlow hhigh ih =>
    simp only [List.flatMap_cons, Piece.chars, List.cons_append, List.nil_append]
    have hcode := (readEscape_code h (ps.flatMap Piece.chars ++ '"' :: r)).trans <|
      (if_neg hlow).trans (if_neg hhigh)
    rw [body_backslash hcode, ih]
    simp [Function.comp_def]

/-- **A string is read as what it stands for**, if it stands for a text. -/
theorem readText_spelled (ps : List Piece) (r : Input) :
    (readText (ps.flatMap Piece.chars ++ '"' :: r)).toOption = (textOf? ps).map (·, r) := by
  have hbody := body_spelled ps [] r
  unfold readText
  cases hrun : body readMode [] (ps.flatMap Piece.chars ++ '"' :: r) with
  | error e =>
    rw [hrun] at hbody
    rw [textOf?, Option.map_map]
    exact (Option.map_eq_none_iff.2 (Option.map_eq_none_iff.1 hbody.symm)).symm
  | ok taken =>
    rw [hrun] at hbody
    obtain ⟨cs, hcs, htaken⟩ := Option.map_eq_some_iff.1 hbody.symm
    rw [textOf?, hcs, ← htaken]
    rfl

/-- **A string is passed over**, whatever it stands for. -/
theorem passText_spelled (ps : List Piece) (r : Input) :
    passText (ps.flatMap Piece.chars ++ '"' :: r) = .ok r := by
  have hbody (done : List Unit) :
      ∃ xs, body passMode done (ps.flatMap Piece.chars ++ '"' :: r) = .ok (xs, r) := by
    induction ps generalizing done with
    | nil => exact ⟨done.reverse, by rw [List.flatMap_nil, List.nil_append, body, if_pos rfl]⟩
    | cons p ps ih =>
      obtain ⟨xs, hxs⟩ := ih (() :: done)
      refine ⟨xs, ?_⟩
      cases p with
      | plain c hquote hslash hcontrol =>
        simp only [List.flatMap_cons, Piece.chars, List.cons_append, List.nil_append]
        rw [body, if_neg hquote, if_neg hslash, if_neg hcontrol]
        exact hxs
      | short mark c h =>
        simp only [List.flatMap_cons, Piece.chars, List.cons_append, List.nil_append]
        rw [body_backslash (passEscape_short h _), hxs]
      | code a b c d n h =>
        simp only [List.flatMap_cons, Piece.chars, List.cons_append, List.nil_append]
        rw [body_backslash (passEscape_code h _), hxs]
  obtain ⟨xs, hxs⟩ := hbody []
  unfold passText
  rw [hxs]

/-! ### Reading a number -/

theorem SpellsExponent.digits_append {p : Option Power} {e : List Char} (h : SpellsExponent p e)
    {r : Input} (hr : Stops r) : digits (e ++ r) = [] := by
  cases h with
  | absent => exact digits_eq_nil hr
  | plain he hds => exact digits_cons (by rcases he with rfl | rfl <;> decide) _
  | plus he hds => exact digits_cons (by rcases he with rfl | rfl <;> decide) _
  | minus he hds => exact digits_cons (by rcases he with rfl | rfl <;> decide) _

theorem SpellsFraction.digits_append {ds f : List Char} (h : SpellsFraction ds f) {r : Input}
    (hr : digits r = []) : digits (f ++ r) = [] := by
  cases h with
  | absent => exact hr
  | present hds => exact digits_cons (by decide) _

theorem readFraction_spelled (atEnd : Cause) {ds f : List Char} (h : SpellsFraction ds f)
    {p : Option Power} {e : List Char} (he : SpellsExponent p e) {r : Input} (hr : Stops r) :
    readFraction atEnd (f ++ (e ++ r)) = .ok (ds, e ++ r) := by
  cases h with
  | absent =>
    rw [List.nil_append]
    cases he with
    | absent => exact readFraction_stops atEnd hr
    | plain he hds => rcases he with rfl | rfl <;> rfl
    | plus he hds => rcases he with rfl | rfl <;> rfl
    | minus he hds => rcases he with rfl | rfl <;> rfl
  | present hds =>
    obtain ⟨htake, hdrop⟩ := digits_append hds.2 (he.digits_append hr)
    obtain ⟨c, cs, rfl, -, -⟩ := hds.exists_cons
    rw [List.cons_append] at htake hdrop
    simp only [List.cons_append, readFraction, htake, hdrop, List.cons_ne_nil, if_false]

theorem readPower_spelled (atEnd : Cause) (b : Bool) {ds : List Char} (hds : Digits ds) {r : Input}
    (hr : Stops r) : readPower atEnd b (ds ++ r) = .ok (some ⟨b, ds⟩, r) := by
  obtain ⟨c, cs, rfl, hc, hcs⟩ := hds.exists_cons
  obtain ⟨htake, hdrop⟩ := digits_append hcs (digits_eq_nil hr)
  simp only [List.cons_append, readPower, hc, htake, hdrop, if_true]

theorem readExponent_spelled (atEnd : Cause) {p : Option Power} {e : List Char}
    (h : SpellsExponent p e) {r : Input} (hr : Stops r) :
    readExponent atEnd (e ++ r) = .ok (p, r) := by
  cases h with
  | absent => exact readExponent_stops atEnd hr
  | plain he hds =>
    have hpower := readPower_spelled atEnd false hds hr
    obtain ⟨c, cs, rfl, hc, -⟩ := hds.exists_cons
    simp only [List.cons_append, readExponent, if_pos he]
    split
    · next hsign => obtain ⟨rfl, -⟩ := List.cons.inj hsign; cases hc
    · next hsign => obtain ⟨rfl, -⟩ := List.cons.inj hsign; cases hc
    · exact hpower
  | plus he hds =>
    simp only [List.cons_append, readExponent, if_pos he]
    exact readPower_spelled atEnd false hds hr
  | minus he hds =>
    simp only [List.cons_append, readExponent, if_pos he]
    exact readPower_spelled atEnd true hds hr

theorem readUnsigned_spelled (atEnd : Cause) {n : Numeral} {w : List Char} (h : SpellsUnsigned n w)
    {r : Input} (hr : Stops r) : readUnsigned atEnd n.negative (w ++ r) = .ok (n, r) := by
  obtain ⟨hwhole, hzero, f, e, hf, he, rfl⟩ := h
  have hbehind : digits (f ++ (e ++ r)) = [] := hf.digits_append (he.digits_append hr)
  rw [List.append_assoc, List.append_assoc, readUnsigned,
    readWhole_digits atEnd hwhole hzero hbehind]
  simp only [readFraction_spelled atEnd hf he hr, readExponent_spelled atEnd he hr]

theorem readNumeral_spelled (atEnd : Cause) {n : Numeral} {w : List Char} (h : SpellsNumeral n w)
    {r : Input} (hr : Stops r) : readNumeral atEnd (w ++ r) = .ok (n, r) := by
  cases h with
  | positive hn h =>
    have hunsigned := readUnsigned_spelled atEnd h hr
    rw [hn] at hunsigned
    obtain ⟨hwhole, -, f, e, -, -, rfl⟩ := h
    obtain ⟨c, cs, hc, hdigit, -⟩ := hwhole.exists_cons
    unfold readNumeral
    split
    · next hsign =>
      rw [hc] at hsign
      obtain ⟨rfl, -⟩ := List.cons.inj hsign
      cases hdigit
    · exact hunsigned
  | negative hn h =>
    have hunsigned := readUnsigned_spelled atEnd h hr
    rwa [hn] at hunsigned

/-! ### What a value begins with -/

/-- The characters that a value of this kind begins with. -/
def Value.Opens : Value → Char → Prop
  | null, c => c = 'n'
  | boolean true, c => c = 't'
  | boolean false, c => c = 'f'
  | number _, c => startsNumeral c = true
  | text _, c => c = '"'
  | list _, c => c = '['
  | object _, c => c = '\x7b'

theorem SpellsNumeral.opens {n : Numeral} {w : List Char} (h : SpellsNumeral n w) :
    ∃ c t, w = c :: t ∧ startsNumeral c = true := by
  cases h with
  | positive hn h =>
    obtain ⟨hwhole, -, f, e, -, -, rfl⟩ := h
    obtain ⟨c, cs, hc, hdigit, -⟩ := hwhole.exists_cons
    exact ⟨c, cs ++ (f ++ e), by rw [hc]; rfl, by simp [startsNumeral, hdigit]⟩
  | negative hn h => exact ⟨'-', _, rfl, rfl⟩

theorem Spells.opens {v : Value} {w : List Char} (h : Spells v w) :
    ∃ c t, w = c :: t ∧ v.Opens c := by
  cases h with
  | number h => exact h.opens
  | _ => exact ⟨_, _, rfl, rfl⟩

theorem isGap_of_startsNumeral {c : Char} (h : startsNumeral c = true) : isGap c = false := by
  simp only [isGap, Bool.or_eq_false_iff, beq_eq_false_iff_ne]
  refine ⟨⟨⟨?_, ?_⟩, ?_⟩, ?_⟩ <;> (rintro rfl; cases h)

theorem Value.Opens.isGap {v : Value} {c : Char} (h : v.Opens c) : isGap c = false := by
  cases v with
  | number n => exact isGap_of_startsNumeral h
  | boolean b => cases b <;> (cases h; rfl)
  | _ => cases h; rfl

theorem Value.Opens.ne_bracket {v : Value} {c : Char} (h : v.Opens c) : c ≠ ']' := by
  rintro rfl
  cases v with
  | boolean b => cases b <;> cases h
  | _ => cases h

theorem Spells.skipGap {v : Value} {w : List Char} (h : Spells v w) {g : List Char} (hg : Gap g)
    (r : Input) : skipGap (g ++ (w ++ r)) = w ++ r := by
  obtain ⟨c, t, rfl, hc⟩ := h.opens
  exact skipGap_gap hg hc.isGap (t ++ r)

theorem ListRest.stops {vs : List Value} {t : List Char} (h : ListRest vs t) (r : Input) :
    Stops (t ++ r) := by
  cases h with
  | nil hg => rw [List.append_assoc]; exact stops_gap_append hg (stops_cons (by decide) _)
  | cons hg _ _ _ => rw [List.append_assoc]; exact stops_gap_append hg (stops_cons (by decide) _)

theorem ObjectRest.stops {ms : List (Option String × Value)} {t : List Char} (h : ObjectRest ms t)
    (r : Input) : Stops (t ++ r) := by
  cases h with
  | nil hg => rw [List.append_assoc]; exact stops_gap_append hg (stops_cons (by decide) _)
  | cons hg _ _ _ _ _ =>
    rw [List.append_assoc]
    exact stops_gap_append hg (stops_cons (by decide) _)

end KnownIssues.Json
