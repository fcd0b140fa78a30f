import KnownIssues.Proofs.Json.Tokens

/-! # Written values are read back

A format reads back what it writes (`Format.ReadsBack`) if its reader takes the written value, blanks
in front of it included, up to what stands behind (`Reader.Takes`).  The styles only add blanks
(`Style.Blank`), so a law that holds for all of these holds for both.

* `readsBack_text`, `readsBack_word`, `readsBack_list`: texts, words, and lists of what is read back.
* `readsBack_record`: records whose members fill a draft one after the other (`Shape.Fills`).
* `decode_pretty`, `decode_compact`: the whole text of a value is that value, so that nothing is lost in
  writing (`Format.Lossless`). -/

namespace KnownIssues.Json

variable {α δ : Type}

/-! ### Styles -/

/-- The style puts only blanks between the tokens. -/
structure Style.Blank (style : Style) : Prop where
  newline : ∀ level, Gap (style.newline level)
  afterColon : Gap style.afterColon

namespace Style

theorem blank_compact : Style.compact.Blank :=
  ⟨fun _ => gap_nil, gap_nil⟩

theorem blank_indented : Style.indented.Blank := by
  refine ⟨fun level c hc => ?_, fun c hc => ?_⟩
  · rcases List.mem_cons.1 hc with rfl | hc
    · rfl
    · rw [List.eq_of_mem_replicate hc]; rfl
  · rw [List.mem_singleton.1 hc]; rfl

/-- What stands behind the first of the items between brackets: the other items and the closing
bracket, and then `r`. -/
def behind (style : Style) (closing : Char) (level : Nat) (items : List (List Char)) (r : Input) :
    Input :=
  items.flatMap (fun x => ',' :: (style.newline (level + 1) ++ x))
    ++ (style.newline level ++ closing :: r)

theorem behind_nil (style : Style) (closing : Char) (level : Nat) (r : Input) :
    style.behind closing level [] r = style.newline level ++ closing :: r := rfl

theorem behind_cons (style : Style) (closing : Char) (level : Nat) (x : List Char)
    (items : List (List Char)) (r : Input) :
    style.behind closing level (x :: items) r
      = ',' :: (style.newline (level + 1) ++ (x ++ style.behind closing level items r)) := by
  simp [behind]

theorem separate_cons (x : List Char) (items : List (List Char)) :
    separate (x :: items) = x ++ items.flatMap (',' :: ·) := by
  induction items generalizing x with
  | nil => simp [separate]
  | cons y items ih => rw [separate, ih, List.flatMap_cons, List.cons_append]

theorem enclose_cons_append (style : Style) (opening closing : Char) (level : Nat) (x : List Char)
    (items : List (List Char)) (r : Input) :
    style.enclose opening closing level (x :: items) ++ r
      = opening :: (style.newline (level + 1) ++ (x ++ style.behind closing level items r)) := by
  simp [enclose, separate_cons, behind, List.flatMap_map]

theorem Blank.stops_behind {style : Style} (hs : style.Blank) {closing : Char}
    (hc : closing = ']' ∨ closing = '\x7d') (level : Nat) (items : List (List Char)) (r : Input) :
    Stops (style.behind closing level items r) := by
  rcases items with _ | ⟨x, items⟩
  · rw [behind_nil]
    refine stops_gap_append (hs.newline level) (stops_cons ?_ r)
    rcases hc with rfl | rfl <;> decide
  · rw [behind_cons]
    exact stops_cons (by decide) _

end Style

/-! ### Values -/

/-- What a value begins with: no blank, nor the end of a list, nor the first letter of `null`. -/
def Starts (w : List Char) : Prop :=
  ∃ c t, w = c :: t ∧ isGap c = false ∧ c ≠ ']' ∧ c ≠ 'n'

/-- The reader takes exactly these characters for the value, and blanks in front of them. -/
def Reader.Takes (p : Reader α) (w : List Char) (a : α) : Prop :=
  ∀ g r, Gap g → Stops r → p.run (g ++ (w ++ r)) = .ok (a, r)

/-- What the format writes, its reader takes for the value that was written. -/
structure Format.ReadsBack (f : Format α) : Prop where
  starts : ∀ style level a, Starts (f.write style level a)
  takes : ∀ {style : Style}, style.Blank → ∀ level a, f.reader.Takes (f.write style level a) a

theorem Starts.skipGap {w : List Char} (hw : Starts w) {g : List Char} (hg : Gap g) (r : Input) :
    skipGap (g ++ (w ++ r)) = w ++ r := by
  obtain ⟨c, t, rfl, hc, -, -⟩ := hw
  rw [List.cons_append]
  exact skipGap_gap hg hc _

namespace Reader

theorem Takes.map {β : Type} {p : Reader α} {w : List Char} {a : α} (h : p.Takes w a)
    (f : α → β) : (p.map f).Takes w (f a) := by
  intro g r hg hr
  have hrun := h g r hg hr
  simp only [Reader.map, hrun]

theorem Takes.orNull {p : Reader α} {w : List Char} {a : α} (h : p.Takes w a) (hw : Starts w) :
    p.orNull.Takes w (some a) := by
  intro g r hg hr
  have hskip := hw.skipGap hg r
  obtain ⟨c, t, rfl, -, -, hn⟩ := hw
  simp only [Reader.orNull, hskip]
  split
  · next heq => exact absurd (List.cons.inj heq).1 hn
  · rw [h g r hg hr]

theorem Takes.decode {p : Reader α} {w : List Char} {a : α} (h : p.Takes w a) :
    p.decode (.ofList w) = .ok a := by
  have hrun := h [] [] gap_nil stops_nil
  rw [List.nil_append, List.append_nil] at hrun
  rw [Reader.decode, String.toList_ofList, hrun]
  rfl

end Reader

/-! ### Texts and words -/

theorem starts_quote (s : String) : Starts (quote s) :=
  ⟨'"', s.toList.flatMap escape ++ ['"'], rfl, by decide, by decide, by decide⟩

theorem takes_text (s : String) : Reader.text.Takes (quote s) s := by
  intro g r hg _
  obtain ⟨t, ht, hread⟩ := readText_quote s r
  have hskip := (starts_quote s).skipGap hg r
  rw [ht] at hskip ⊢
  simp only [Reader.text, hskip, hread]

theorem readsBack_text : Format.text.ReadsBack :=
  ⟨fun _ _ s => starts_quote s, fun _ _ s => takes_text s⟩

theorem starts_digit {c : Char} (hc : c.isDigit = true) (t : List Char) : Starts (c :: t) := by
  refine ⟨c, t, rfl, ?_, ?_, ?_⟩
  · simp only [isGap, Bool.or_eq_false_iff, beq_eq_false_iff_ne]
    refine ⟨⟨⟨?_, ?_⟩, ?_⟩, ?_⟩ <;> (rintro rfl; exact absurd hc (by decide))
  all_goals (rintro rfl; exact absurd hc (by decide))

theorem takes_word (n : UInt64) : Reader.word.Takes (Nat.toDigits 10 n.toNat) n := by
  intro g r hg hr
  have hread := readNumber_toDigits n.toNat_lt hr
  obtain ⟨c, t, h, hc⟩ := exists_toDigits_cons n.toNat
  have hskip := (starts_digit hc t).skipGap hg r
  rw [h, List.cons_append] at hread
  rw [List.cons_append] at hskip
  rw [h, List.cons_append]
  have hnum : startsNumeral c = true := by simp [startsNumeral, hc]
  have hof : Reader.wordOf (.integer (n.toNat : Int)) = .ok n :=
    congrArg Except.ok (UInt64.ofNat_toNat)
  simp only [Reader.word, hskip, hnum, if_true, hread, hof]

theorem readsBack_word : Format.word.ReadsBack := by
  refine ⟨fun _ _ n => ?_, fun _ _ n => takes_word n⟩
  obtain ⟨c, t, h, hc⟩ := exists_toDigits_cons n.toNat
  show Starts (Nat.toDigits 10 n.toNat)
  rw [h]
  exact starts_digit hc t

/-! ### Lists -/

theorem nextElement_first {s t : Input} {c : Char} (hs : skipGap s = c :: t) (hend : c ≠ ']') :
    nextElement true s = .ok (.more (c :: t)) := by
  unfold nextElement
  rw [hs]
  split
  · next h => cases h
  · next h => exact absurd (List.cons.inj h).1 hend
  · next h => rw [if_pos rfl, h]

theorem nextElement_comma {s u t : Input} {c : Char} (hs : skipGap s = ',' :: u)
    (hu : skipGap u = c :: t) (hend : c ≠ ']') :
    nextElement false s = .ok (.more (c :: t)) := by
  unfold nextElement
  rw [hs]
  split
  · next h => cases h
  · next h => exact absurd (List.cons.inj h).1 (by decide)
  · next h =>
    cases h
    rw [if_neg (by decide), if_pos rfl, hu]
    split
    · next h => cases h
    · next h => exact absurd (List.cons.inj h).1 hend
    · rfl

theorem Starts.more_first {w : List Char} (hw : Starts w) {g : List Char} (hg : Gap g) (r : Input) :
    nextElement true (g ++ (w ++ r)) = .ok (.more (w ++ r)) := by
  obtain ⟨c, t, rfl, hc, hend, -⟩ := hw
  exact nextElement_first (skipGap_gap hg hc (t ++ r)) hend

theorem Starts.more_comma {w : List Char} (hw : Starts w) {g : List Char} (hg : Gap g) (r : Input) :
    nextElement false (',' :: (g ++ (w ++ r))) = .ok (.more (w ++ r)) := by
  obtain ⟨c, t, rfl, hc, hend, -⟩ := hw
  exact nextElement_comma (skipGap_cons (by decide) _) (skipGap_gap hg hc (t ++ r)) hend

theorem nextElement_closed (first : Bool) {g : List Char} (hg : Gap g) (r : Input) :
    nextElement first (g ++ ']' :: r) = .ok (.closed r) := by
  have hskip := skipGap_gap hg (c := ']') (by decide) r
  simp only [nextElement, hskip]

theorem readElements_closed {p : Reader α} {done : List α} {s r : Input}
    (h : nextElement done.isEmpty s = .ok (.closed r)) :
    readElements p done s = .ok (done.reverse, r) := by
  rw [readElements]
  split
  · next he => rw [h] at he; cases he
  · next he => rw [h] at he; cases he; rfl
  · next he => rw [h] at he; cases he

theorem readElements_more {p : Reader α} {done : List α} {a : α} {s t r : Input}
    (h : nextElement done.isEmpty s = .ok (.more t)) (ha : p.run t = .ok (a, r)) :
    readElements p done s = readElements p (a :: done) r := by
  rw [readElements]
  split
  · next he => rw [h] at he; cases he
  · next he => rw [h] at he; cases he
  · next he =>
    rw [h] at he
    cases he
    split
    · next hr => rw [ha] at hr; cases hr
    · next hr => rw [ha] at hr; cases hr; rfl

variable {f : Format α} {style : Style}

/-- The elements behind the first one; `done` are those already taken, the last of them `a`. -/
theorem readElements_behind (hf : f.ReadsBack) (hs : style.Blank) (level : Nat) (a : α)
    (done as : List α) (r : Input) :
    readElements f.reader (a :: done)
        (style.behind ']' level (as.map (f.write style (level + 1))) r)
      = .ok ((a :: done).reverse ++ as, r) := by
  induction as generalizing a done with
  | nil =>
    rw [List.map_nil, Style.behind_nil,
      readElements_closed (nextElement_closed _ (hs.newline level) r), List.append_nil]
  | cons b as ih =>
    have hnext : nextElement (a :: done).isEmpty _ = _ :=
      (hf.starts style (level + 1) b).more_comma (hs.newline (level + 1))
        (style.behind ']' level (as.map (f.write style (level + 1))) r)
    have htake := hf.takes hs (level + 1) b [] _ gap_nil
      (hs.stops_behind (Or.inl rfl) level (as.map (f.write style (level + 1))) r)
    rw [List.map_cons, Style.behind_cons, readElements_more hnext htake, ih, List.reverse_cons,
      List.append_assoc, List.singleton_append]

/-- **A list is read back** if its elements are. -/
theorem readsBack_list (hf : f.ReadsBack) : (Format.list f).ReadsBack := by
  have hopen (style : Style) (level : Nat) (as : List α) (r : Input) :
      ∃ t, (Format.list f).write style level as ++ r = '[' :: t ∧
        (style.Blank → readElements f.reader [] t = .ok (as, r)) := by
    rcases as with _ | ⟨a, as⟩
    · exact ⟨']' :: r, rfl, fun _ => readElements_closed (nextElement_closed true gap_nil r)⟩
    · refine ⟨_, Style.enclose_cons_append .., fun hs => ?_⟩
      have hnext : nextElement ([] : List α).isEmpty _ = _ :=
        (hf.starts style (level + 1) a).more_first (hs.newline (level + 1))
          (style.behind ']' level (as.map (f.write style (level + 1))) r)
      have htake := hf.takes hs (level + 1) a [] _ gap_nil
        (hs.stops_behind (Or.inl rfl) level (as.map (f.write style (level + 1))) r)
      rw [readElements_more hnext htake, readElements_behind hf hs]
      rfl
  refine ⟨fun style level as => ?_, fun {style} hs level as g r hg hr => ?_⟩
  · obtain ⟨t, ht, -⟩ := hopen style level as []
    rw [List.append_nil] at ht
    exact ⟨'[', t, ht, by decide, by decide, by decide⟩
  · obtain ⟨t, ht, hread⟩ := hopen style level as r
    have hskip := skipGap_gap hg (c := '[') (by decide) t
    rw [ht]
    simp only [Format.list, Reader.list, hskip, hread hs]

/-! ### Records -/

/-- The member of this name is the field that `get` finds and `put` leaves. -/
def Shape.HasField {β : Type} (shape : Shape δ α) (name : String) (get : δ → Option β)
    (put : β → δ → δ) (p : Reader β) : Prop :=
  shape.fields.find? (·.name == name) = some (.of name get put p)

/-- The written members fill the draft one after the other: each one is a field that the draft does
not have yet, and is taken for the value that is put there. -/
inductive Shape.Fills (shape : Shape δ α) : δ → List (String × List Char) → δ → Prop where
  | nil (draft : δ) : Fills shape draft [] draft
  | cons {β : Type} {name : String} {get : δ → Option β} {put : β → δ → δ} {p : Reader β}
      {draft filled : δ} {w : List Char} {b : β} {members : List (String × List Char)}
      (field : shape.HasField name get put p) (missing : get draft = none)
      (takes : p.Takes w b) (rest : Fills shape (put b draft) members filled) :
      Fills shape draft ((name, w) :: members) filled

theorem readName_quote (name : String) (r : Input) :
    readName (quote name ++ r) = .ok (.named name r) := by
  obtain ⟨t, ht, hread⟩ := readText_quote name r
  simp only [ht, readName, hread]

theorem nextMember_first {s t : Input} {c : Char} (hs : skipGap s = c :: t) (hend : c ≠ '\x7d') :
    nextMember true s = readName (c :: t) := by
  unfold nextMember
  rw [hs]
  split
  · next h => cases h
  · next h => exact absurd (List.cons.inj h).1 hend
  · next h => rw [if_pos rfl, h]

theorem nextMember_comma {s u t : Input} {c : Char} (hs : skipGap s = ',' :: u)
    (hu : skipGap u = c :: t) (hend : c ≠ '\x7d') : nextMember false s = readName (c :: t) := by
  unfold nextMember
  rw [hs]
  split
  · next h => cases h
  · next h => exact absurd (List.cons.inj h).1 (by decide)
  · next h =>
    cases h
    rw [if_neg (by decide), if_pos rfl, hu]
    split
    · next h => cases h
    · next h => exact absurd (List.cons.inj h).1 hend
    · rfl

theorem named_first {g : List Char} (hg : Gap g) (name : String) (r : Input) :
    nextMember true (g ++ (quote name ++ r)) = .ok (.named name r) :=
  (nextMember_first (skipGap_gap hg (by decide) _) (by decide)).trans (readName_quote name r)

theorem named_comma {g : List Char} (hg : Gap g) (name : String) (r : Input) :
    nextMember false (',' :: (g ++ (quote name ++ r))) = .ok (.named name r) :=
  (nextMember_comma (skipGap_cons (by decide) _) (skipGap_gap hg (by decide) _) (by decide)).trans
    (readName_quote name r)

theorem nextMember_closed (first : Bool) {g : List Char} (hg : Gap g) (r : Input) :
    nextMember first (g ++ '\x7d' :: r) = .ok (.closed r) := by
  have hskip := skipGap_gap hg (c := '\x7d') (by decide) r
  simp only [nextMember, hskip]

namespace Shape

variable {shape : Shape δ α}

theorem readMembers_closed {first : Bool} {draft : δ} {a : α} {s r : Input}
    (h : nextMember first s = .ok (.closed r)) (ha : shape.build draft = .ok a) :
    shape.readMembers first draft s = .ok (a, r) := by
  rw [readMembers]
  split
  · next he => rw [h] at he; cases he
  · next he => rw [h] at he; cases he; rw [ha]
  · next he => rw [h] at he; cases he

theorem readMembers_named {first : Bool} {draft draft' : δ} {name : String} {s t r : Input}
    (h : nextMember first s = .ok (.named name t))
    (hm : shape.readMember draft name t = .ok (draft', r)) :
    shape.readMembers first draft s = shape.readMembers false draft' r := by
  rw [readMembers]
  split
  · next he => rw [h] at he; cases he
  · next he => rw [h] at he; cases he
  · next he =>
    rw [h] at he
    cases he
    split
    · next hr => rw [hm] at hr; cases hr
    · next hr => rw [hm] at hr; cases hr; rfl

theorem readMember_field {β : Type} {name : String} {get : δ → Option β} {put : β → δ → δ}
    {p : Reader β} (field : shape.HasField name get put p) {draft : δ} (missing : get draft = none)
    {w : List Char} {b : β} (takes : p.Takes w b) {g r : Input} (hg : Gap g) (hr : Stops r) :
    shape.readMember draft name (':' :: (g ++ (w ++ r))) = .ok (put b draft, r) := by
  have hcolon : readColon (':' :: (g ++ (w ++ r))) = .ok (g ++ (w ++ r)) := by
    simp only [readColon, skipGap_cons (c := ':') (by decide)]
  have hput := takes.map put g r hg hr
  rw [HasField] at field
  simp only [readMember, field, Field.of, missing, Option.isSome_none, Bool.false_eq_true,
    if_false, hcolon, hput]

theorem readMembers_behind {style : Style} (hs : style.Blank) (level : Nat) {draft filled : δ}
    {members : List (String × List Char)} (hfill : shape.Fills draft members filled) {a : α}
    (ha : shape.build filled = .ok a) (r : Input) :
    shape.readMembers false draft
        (style.behind '\x7d' level
          (members.map fun m => quote m.1 ++ ':' :: (style.afterColon ++ m.2)) r)
      = .ok (a, r) := by
  induction hfill with
  | nil draft =>
    exact readMembers_closed (nextMember_closed false (hs.newline level) r) ha
  | cons field missing takes rest ih =>
    rw [List.map_cons, Style.behind_cons, List.append_assoc, List.cons_append, List.append_assoc,
      readMembers_named (named_comma (hs.newline (level + 1)) _ _)
        (readMember_field field missing takes hs.afterColon (hs.stops_behind (Or.inr rfl) _ _ _))]
    exact ih ha

/-- **A record is read back** if its members fill a draft that the value is built from. -/
theorem takes_record {style : Style} (hs : style.Blank) (level : Nat) {filled : δ}
    {members : List (String × List Char)} (hfill : shape.Fills shape.blank members filled) {a : α}
    (ha : shape.build filled = .ok a) :
    (Reader.record shape).Takes (style.object level members) a := by
  have hopen (r : Input) : ∃ t, style.object level members ++ r = '\x7b' :: t ∧
      shape.readMembers true shape.blank t = .ok (a, r) := by
    cases hfill with
    | nil => exact ⟨'\x7d' :: r, rfl, readMembers_closed (nextMember_closed true gap_nil r) ha⟩
    | cons field missing takes rest =>
      refine ⟨_, Style.enclose_cons_append .., ?_⟩
      rw [List.append_assoc, List.cons_append, List.append_assoc,
        readMembers_named (named_first (hs.newline (level + 1)) _ _)
          (readMember_field field missing takes hs.afterColon (hs.stops_behind (Or.inr rfl) _ _ _))]
      exact readMembers_behind hs level rest ha r
  intro g r hg _
  obtain ⟨t, ht, hread⟩ := hopen r
  have hskip := skipGap_gap hg (c := '\x7b') (by decide) t
  rw [ht]
  simp only [Reader.record, hskip, hread]

end Shape

theorem starts_object (style : Style) (level : Nat) (members : List (String × List Char)) :
    Starts (style.object level members) := by
  rcases members with _ | ⟨m, members⟩
  · exact ⟨'\x7b', ['\x7d'], rfl, by decide, by decide, by decide⟩
  · exact ⟨'\x7b', _, rfl, by decide, by decide, by decide⟩

theorem readsBack_record {shape : Shape δ α} {members : Style → Nat → α → List (String × List Char)}
    (hfill : ∀ {style : Style}, style.Blank → ∀ level a,
      ∃ filled, shape.Fills shape.blank (members style level a) filled ∧
        shape.build filled = .ok a) :
    Format.ReadsBack
      ⟨.record shape, fun style level a => style.object level (members style level a)⟩ := by
  refine ⟨fun style level a => starts_object style level (members style level a),
    fun {style} hs level a => ?_⟩
  obtain ⟨filled, hmembers, hbuild⟩ := hfill hs level a
  exact Shape.takes_record hs level hmembers hbuild

/-! ### Whole texts -/

namespace Format

theorem ReadsBack.decode_pretty (hf : f.ReadsBack) (a : α) : f.decode (f.pretty a) = .ok a :=
  (hf.takes Style.blank_indented 0 a).decode

theorem ReadsBack.decode_compact (hf : f.ReadsBack) (a : α) : f.decode (f.compact a) = .ok a :=
  (hf.takes Style.blank_compact 0 a).decode

/-- Every value is read back from either of its texts. -/
def Lossless (f : Format α) : Prop :=
  ∀ a, f.decode (f.compact a) = .ok a ∧ f.decode (f.pretty a) = .ok a

theorem ReadsBack.lossless (hf : f.ReadsBack) : f.Lossless :=
  fun a => ⟨hf.decode_compact a, hf.decode_pretty a⟩

end Format

end KnownIssues.Json
