import KnownIssues.Proofs.Json.Reading

/-! # What a record makes of a value

A `Slot` is a field of a record together with what its reader makes of a value.  A record reads an
object member by member: a known name fills its slot of the draft, if that is empty, and an unknown
name changes nothing (`takeMember?`).  A list fills the slots in order, as many as it has elements
(`takeElements?`).

* `reads_record`: this is what the reader of the record does, whatever the text of the value is.
* `foldlM_takeMember?`: the members fill a draft exactly if every name is a text and each slot is
  filled at most once (`Slot.Fills`), in whatever order they come. -/

namespace KnownIssues.Json

variable {α δ : Type}

/-- A field of drafts in `δ`, with what its value means. -/
structure Slot (δ : Type) where
  name : String
  {β : Type}
  get : δ → Option β
  put : β → δ → δ
  reader : Reader β
  meaning : Value → Option β
  reads : reader.Reads meaning
  get_put : ∀ b d, get (put b d) = some b

/-- The field of a slot. -/
def Slot.field (s : Slot δ) : Field δ :=
  .of s.name s.get s.put s.reader

/-- A member fills its slot, if there is one. -/
def takeMember? (slots : List (Slot δ)) (draft : δ) : Option String × Value → Option δ
  | (none, _) => none
  | (some name, v) =>
    match slots.find? (·.name == name) with
    | none => some draft
    | some s => if (s.get draft).isSome then none else (s.meaning v).map (s.put · draft)

/-- The elements of a list fill the slots in order. -/
def takeElements? : List (Slot δ) → δ → List Value → Option δ
  | _, draft, [] => some draft
  | [], _, _ :: _ => none
  | s :: slots, draft, v :: vs => (s.meaning v).bind fun b => takeElements? slots (s.put b draft) vs

/-- The draft that a value fills. -/
def draft? (slots : List (Slot δ)) (blank : δ) : Value → Option δ
  | .object ms => ms.foldlM (takeMember? slots) blank
  | .list vs => takeElements? slots blank vs
  | _ => none

/-- The record that a value is. -/
def Shape.record? (shape : Shape δ α) (slots : List (Slot δ)) (v : Value) : Option α :=
  (draft? slots shape.blank v).bind fun draft => (shape.build draft).toOption

/-! ### Objects -/

theorem readName_spelled (ps : List Piece) (r : Input) :
    (readName (spelled ps ++ r)).toOption = (textOf? ps).map (.named · r) := by
  have hread := cases_of_toOption (readText_spelled ps r)
  simp only [spelled, readName, List.cons_append, List.append_assoc, List.nil_append]
  obtain ⟨name, hps, htext⟩ | ⟨hps, e, htext⟩ := hread <;> (rw [htext, hps]; rfl)

theorem nextMember_spelled {g : List Char} (hg : Gap g) (ps : List Piece) (r : Input) :
    nextMember true (g ++ (spelled ps ++ r)) = readName (spelled ps ++ r) :=
  nextMember_first (skipGap_gap hg (by decide) _) (by decide)

theorem nextMember_comma_spelled {g g' : List Char} (hg : Gap g) (hg' : Gap g') (ps : List Piece)
    (r : Input) :
    nextMember false (g ++ ',' :: (g' ++ (spelled ps ++ r))) = readName (spelled ps ++ r) :=
  nextMember_comma (skipGap_gap hg (by decide) _) (skipGap_gap hg' (by decide) _) (by decide)

namespace Shape

variable {shape : Shape δ α} {slots : List (Slot δ)}

theorem readMembers_error {first : Bool} {draft : δ} {s : Input} {e : Failure}
    (h : nextMember first s = .error e) : shape.readMembers first draft s = .error e := by
  rw [readMembers]
  split
  · next he => rw [h] at he; cases he; rfl
  · next he => rw [h] at he; cases he
  · next he => rw [h] at he; cases he

theorem readMembers_end {first : Bool} (draft : δ) {s r : Input}
    (h : nextMember first s = .ok (.closed r)) :
    (shape.readMembers first draft s).toOption = (shape.build draft).toOption.map (·, r) := by
  rw [readMembers]
  split
  · next he => rw [h] at he; cases he
  · next he =>
    rw [h] at he
    cases he
    cases shape.build draft <;> rfl
  · next he => rw [h] at he; cases he

theorem readMembers_member_error {first : Bool} {draft : δ} {name : String} {s t : Input}
    {e : Failure} (h : nextMember first s = .ok (.named name t))
    (hm : shape.readMember draft name t = .error e) :
    shape.readMembers first draft s = .error e := by
  rw [readMembers]
  split
  · next he => rw [h] at he; cases he
  · next he => rw [h] at he; cases he
  · next he =>
    rw [h] at he
    cases he
    split
    · next hr => rw [hm] at hr; cases hr; rfl
    · next hr => rw [hm] at hr; cases hr

theorem readMember_spelled (hslots : shape.fields = slots.map Slot.field) {v : Value}
    {w : List Char} (h : Spells v w) {g₁ g₂ r : List Char} (hg₁ : Gap g₁) (hg₂ : Gap g₂) (hr : Stops r) (draft : δ)
    (name : String) :
    (shape.readMember draft name (g₁ ++ ':' :: (g₂ ++ (w ++ r)))).toOption
      = (takeMember? slots draft (some name, v)).map (·, r) := by
  have hcolon : readColon (g₁ ++ ':' :: (g₂ ++ (w ++ r))) = .ok (g₂ ++ (w ++ r)) := by
    simp only [readColon, skipGap_gap hg₁ (c := ':') (by decide)]
  have hfind : shape.fields.find? (·.name == name)
      = (slots.find? (·.name == name)).map Slot.field := by
    rw [hslots, List.find?_map]
    rfl
  simp only [readMember, takeMember?, hfind]
  cases slots.find? (·.name == name) with
  | none =>
    simp only [Option.map_none, hcolon, passValue_spelled h hg₂ hr]
    rfl
  | some s =>
    by_cases hgiven : (s.get draft).isSome = true
    · simp only [Option.map_some, Slot.field, Field.of, hgiven, if_true]
      rfl
    · rw [Bool.not_eq_true] at hgiven
      simp only [Option.map_some, Slot.field, Field.of, hgiven, hcolon, Bool.false_eq_true,
        if_false]
      obtain ⟨b, hv, hrun⟩ | ⟨hv, e, hrun⟩ := cases_of_toOption (s.reads h hg₂ hr)
      · simp only [Reader.map, hrun, hv]
        rfl
      · simp only [Reader.map, hrun, hv]
        rfl

theorem readMembers_spelled (hslots : shape.fields = slots.map Slot.field) {v : Value}
    {w : List Char} (h : Spells v w) {ps : List Piece} {g₁ g₂ s r : List Char} (hg₁ : Gap g₁)
    (hg₂ : Gap g₂) {first : Bool}
    (hnext : nextMember first s = readName (spelled ps ++ (g₁ ++ ':' :: (g₂ ++ (w ++ r)))))
    (hr : Stops r) (draft : δ) :
    (shape.readMembers first draft s).toOption
      = (takeMember? slots draft (textOf? ps, v)).bind
          fun draft' => (shape.readMembers false draft' r).toOption := by
  obtain ⟨name, hps, hname⟩ | ⟨hps, e, hname⟩ := cases_of_toOption (readName_spelled ps _)
  · obtain ⟨draft', htake, hmember⟩ | ⟨htake, e, hmember⟩ :=
      cases_of_toOption (readMember_spelled hslots h hg₁ hg₂ hr draft name)
    · rw [readMembers_named (hnext.trans hname) hmember, hps, htake]
      rfl
    · rw [readMembers_member_error (hnext.trans hname) hmember, hps, htake]
      rfl
  · rw [readMembers_error (hnext.trans hname), hps]
    rfl

/-- The members behind one that was taken. -/
theorem readMembers_rest (hslots : shape.fields = slots.map Slot.field)
    {ms : List (Option String × Value)} {t : List Char} (h : ObjectRest ms t) (draft : δ)
    (r : Input) :
    (shape.readMembers false draft (t ++ r)).toOption
      = ((ms.foldlM (takeMember? slots) draft).bind fun d => (shape.build d).toOption).map
          (·, r) := by
  induction ms generalizing draft t with
  | nil =>
    cases h with
    | nil hg =>
      rw [List.append_assoc, List.singleton_append]
      exact readMembers_end draft (nextMember_closed false hg r)
  | cons m ms ih =>
    cases h with
    | @cons v _ ps _ _ _ _ _ _ hg hg' hg₁ hg₂ hv ht =>
      simp only [List.append_assoc, List.cons_append]
      rw [readMembers_spelled hslots hv hg₁ hg₂ (nextMember_comma_spelled hg hg' _ _) (ht.stops r),
        List.foldlM_cons]
      cases takeMember? slots draft (textOf? ps, v) with
      | none => rfl
      | some draft' => exact ih ht draft'

/-! ### Lists -/

theorem toOption_buildShort (draft : δ) :
    (shape.buildShort draft).toOption = (shape.build draft).toOption := by
  unfold buildShort
  cases shape.build draft <;> rfl

theorem readFields_end (fs : List (Field δ)) {first : Bool} (draft : δ) {g : List Char} (hg : Gap g)
    (r : Input) :
    (shape.readFields fs first draft (g ++ ']' :: r)).toOption
      = (shape.build draft).toOption.map (·, r) := by
  have hend : readEnd (g ++ ']' :: r) = .ok r := by
    simp only [readEnd, skipGap_gap hg (c := ']') (by decide)]
  rw [← toOption_buildShort]
  cases fs with
  | nil =>
    simp only [readFields, hend]
    cases shape.buildShort draft <;> rfl
  | cons f fs =>
    simp only [readFields, nextElement_closed first hg r]
    cases shape.buildShort draft <;> rfl

theorem readEnd_comma {g : List Char} (hg : Gap g) (s : Input) :
    ∃ e, readEnd (g ++ ',' :: s) = .error e := by
  have hskip := skipGap_gap hg (c := ',') (by decide) s
  simp only [readEnd, hskip]
  split <;> exact ⟨_, rfl⟩

theorem takeElements?_nil (slots : List (Slot δ)) (draft : δ) :
    takeElements? slots draft [] = some draft := by
  cases slots <;> rfl

theorem readFields_spelled (s : Slot δ) (fs : List (Field δ)) {v : Value} {w : List Char}
    (h : Spells v w) {first : Bool} {u r : Input}
    (hnext : nextElement first u = .ok (.more (w ++ r))) (hr : Stops r) (draft : δ) :
    (shape.readFields (s.field :: fs) first draft u).toOption
      = (s.meaning v).bind fun b => (shape.readFields fs false (s.put b draft) r).toOption := by
  have hread := s.reads h gap_nil hr
  rw [List.nil_append] at hread
  simp only [readFields, hnext, Slot.field, Field.of, Reader.map]
  obtain ⟨b, hv, hrun⟩ | ⟨hv, e, hrun⟩ := cases_of_toOption hread
  · simp only [hrun, hv]
    rfl
  · simp only [hrun, hv]
    rfl

theorem readFields_rest {vs : List Value} {t : List Char} (h : ListRest vs t)
    (slots : List (Slot δ)) (draft : δ) (r : Input) :
    (shape.readFields (slots.map Slot.field) false draft (t ++ r)).toOption
      = ((takeElements? slots draft vs).bind fun d => (shape.build d).toOption).map (·, r) := by
  induction vs generalizing draft t slots with
  | nil =>
    cases h with
    | nil hg =>
      rw [List.append_assoc, List.singleton_append, readFields_end _ draft hg r, takeElements?_nil]
      rfl
  | cons v vs ih =>
    cases h with
    | @cons _ _ _ g' w t hg hg' hv ht =>
      simp only [List.append_assoc, List.cons_append]
      cases slots with
      | nil =>
        -- no field is left for this element
        obtain ⟨e, he⟩ := readEnd_comma hg (g' ++ (w ++ (t ++ r)))
        simp only [List.map_nil, readFields, he]
        rfl
      | cons s slots =>
        rw [List.map_cons, readFields_spelled s _ hv (nextElement_comma_spelled hv hg hg' _)
          (ht.stops r)]
        simp only [takeElements?]
        cases s.meaning v with
        | none => rfl
        | some b => exact ih ht slots (s.put b draft)

/-- **A record is read** member by member or element by element, whatever its text is. -/
theorem reads_record {slots : List (Slot δ)} (hslots : shape.fields = slots.map Slot.field)
    (hne : slots ≠ []) : (Reader.record shape).Reads (shape.record? slots) := by
  intro v w h g r hg hr
  have hskip := h.skipGap hg r
  unfold Reader.record
  dsimp only
  cases h with
  | emptyObject hg₀ =>
    simp only [List.cons_append, List.append_assoc, List.nil_append] at hskip ⊢
    simp only [hskip]
    exact readMembers_end _ (nextMember_closed true hg₀ r)
  | @object v ms ps _ _ _ _ _ hg₀ hg₁ hg₂ hv ht =>
    simp only [List.cons_append, List.append_assoc] at hskip ⊢
    simp only [hskip]
    rw [readMembers_spelled hslots hv hg₁ hg₂ (nextMember_spelled hg₀ _ _) (ht.stops r)]
    simp only [readMembers_rest hslots ht, record?, draft?, List.foldlM_cons]
    cases takeMember? slots shape.blank (textOf? ps, v) <;> rfl
  | emptyList hg₀ =>
    simp only [List.cons_append, List.append_assoc, List.nil_append] at hskip ⊢
    simp only [hskip]
    rw [readFields_end _ _ hg₀ r, record?, draft?, takeElements?_nil]
    rfl
  | @list v vs _ _ _ hg₀ hv ht =>
    simp only [List.cons_append, List.append_assoc] at hskip ⊢
    simp only [hskip]
    obtain ⟨s, slots, rfl⟩ := List.exists_cons_of_ne_nil hne
    rw [hslots, List.map_cons, readFields_spelled s _ hv (nextElement_spelled hv hg₀ _)
      (ht.stops r)]
    simp only [readFields_rest ht, record?, draft?, takeElements?]
    cases s.meaning v <;> rfl
  | number hn =>
    obtain ⟨c, t, rfl, hc⟩ := hn.opens
    rw [hskip]
    split
    · next he => rw [(List.cons.inj he).1] at hc; cases hc
    · next he => rw [(List.cons.inj he).1] at hc; cases hc
    · rfl
  | _ => simp only [hskip]; rfl

theorem record?_eq_some {v : Value} {a : α} :
    shape.record? slots v = some a
      ↔ ∃ d, draft? slots shape.blank v = some d ∧ shape.build d = .ok a := by
  rw [record?, Option.bind_eq_some_iff]
  refine exists_congr fun d => and_congr_right fun _ => ⟨eq_ok_of_toOption, fun h => ?_⟩
  rw [h]
  rfl

end Shape

/-! ### What the members of an object fill -/

/-- The values of the members of this name, in order. -/
def valuesOf (name : String) (ms : List (Option String × Value)) : List Value :=
  ms.filterMap fun m => if m.1 = some name then some m.2 else none

theorem valuesOf_cons_self (name : String) (v : Value) (ms : List (Option String × Value)) :
    valuesOf name ((some name, v) :: ms) = v :: valuesOf name ms := by
  simp [valuesOf]

theorem valuesOf_cons_of_ne {name : String} {m : Option String × Value} (h : m.1 ≠ some name)
    (ms : List (Option String × Value)) : valuesOf name (m :: ms) = valuesOf name ms := by
  simp [valuesOf, h]

namespace Slot

/-- The members turn the content `o` of the slot into `o'`: none of them has its name, or one does
and the slot was empty. -/
def Fills (s : Slot δ) (ms : List (Option String × Value)) (o o' : Option s.β) : Prop :=
  (valuesOf s.name ms = [] ∧ o' = o) ∨
    ∃ v b, valuesOf s.name ms = [v] ∧ s.meaning v = some b ∧ o = none ∧ o' = some b

variable {s : Slot δ} {m : Option String × Value} {ms : List (Option String × Value)}
  {o o' : Option s.β}

theorem fills_nil : s.Fills [] o o' ↔ o' = o := by
  simp [Fills, valuesOf]

theorem fills_cons_of_ne (h : m.1 ≠ some s.name) : s.Fills (m :: ms) o o' ↔ s.Fills ms o o' := by
  rw [Fills, valuesOf_cons_of_ne h, ← Fills]

theorem fills_cons_self {v : Value} :
    s.Fills ((some s.name, v) :: ms) o o'
      ↔ o = none ∧ ∃ b, s.meaning v = some b ∧ s.Fills ms (some b) o' := by
  rw [Fills, valuesOf_cons_self]
  constructor
  · rintro (⟨h, -⟩ | ⟨v', b, h, hb, ho, ho'⟩)
    · cases h
    · obtain ⟨rfl, hms⟩ := List.cons.inj h
      exact ⟨ho, b, hb, Or.inl ⟨hms, ho'⟩⟩
  · rintro ⟨ho, b, hb, ⟨hms, ho'⟩ | ⟨_, _, _, _, h, _⟩⟩
    · exact Or.inr ⟨v, b, by rw [hms], hb, ho, ho'⟩
    · cases h

theorem fills_some {b : s.β} :
    s.Fills ms none (some b) ↔ ∃ v, valuesOf s.name ms = [v] ∧ s.meaning v = some b := by
  constructor
  · rintro (⟨-, h⟩ | ⟨v, b', hv, hb, -, h⟩)
    · cases h
    · cases h; exact ⟨v, hv, hb⟩
  · rintro ⟨v, hv, hb⟩
    exact Or.inr ⟨v, b, hv, hb, rfl, rfl⟩

/-- What the record makes of a slot that was empty: what it makes of nothing, or of what the one
member of its name means. -/
theorem exists_fills {γ : Type} {f : Option s.β → γ} {c : γ} {P : Value → Prop}
    (hP : ∀ v, (∃ b, s.meaning v = some b ∧ f (some b) = c) ↔ P v) :
    (∃ o, s.Fills ms none o ∧ f o = c)
      ↔ valuesOf s.name ms = [] ∧ c = f none ∨ ∃ v, valuesOf s.name ms = [v] ∧ P v := by
  constructor
  · rintro ⟨o, ⟨hms, rfl⟩ | ⟨v, b, hms, hb, -, rfl⟩, hc⟩
    · exact Or.inl ⟨hms, hc.symm⟩
    · exact Or.inr ⟨v, hms, (hP v).1 ⟨b, hb, hc⟩⟩
  · rintro (⟨hms, rfl⟩ | ⟨v, hms, hv⟩)
    · exact ⟨none, Or.inl ⟨hms, rfl⟩, rfl⟩
    · obtain ⟨b, hb, hc⟩ := (hP v).2 hv
      exact ⟨some b, fills_some.2 ⟨v, hms, hb⟩, hc⟩

end Slot

/-- The slots have different names, do not touch each other, and are all there is of a draft. -/
structure Apart (slots : List (Slot δ)) : Prop where
  eq_of_name : ∀ s ∈ slots, ∀ t ∈ slots, s.name = t.name → s = t
  get_put : ∀ s ∈ slots, ∀ t ∈ slots, s.name ≠ t.name → ∀ b d, t.get (s.put b d) = t.get d
  ext : ∀ d d', (∀ s ∈ slots, s.get d = s.get d') → d = d'

/-- A member fills its slot and leaves the others to the members behind it. -/
theorem Apart.fills_cons {slots : List (Slot δ)} (hs : Apart slots) {s : Slot δ} (hmem : s ∈ slots)
    {v : Value} {ms : List (Option String × Value)} {d d' : δ} :
    (∀ t ∈ slots, t.Fills ((some s.name, v) :: ms) (t.get d) (t.get d'))
      ↔ s.get d = none ∧ ∃ b, s.meaning v = some b ∧
          ∀ t ∈ slots, t.Fills ms (t.get (s.put b d)) (t.get d') := by
  have hother {t : Slot δ} (hne : s.name ≠ t.name) :
      t.Fills ((some s.name, v) :: ms) (t.get d) (t.get d') ↔ t.Fills ms (t.get d) (t.get d') :=
    Slot.fills_cons_of_ne fun h => hne (Option.some.inj h)
  constructor
  · intro h
    obtain ⟨hempty, b, hb, hfill⟩ := Slot.fills_cons_self.1 (h s hmem)
    refine ⟨hempty, b, hb, fun t ht => ?_⟩
    by_cases hname : s.name = t.name
    · obtain rfl := hs.eq_of_name s hmem t ht hname
      rwa [s.get_put]
    · rw [hs.get_put s hmem t ht hname]
      exact (hother hname).1 (h t ht)
  · rintro ⟨hempty, b, hb, h⟩ t ht
    by_cases hname : s.name = t.name
    · obtain rfl := hs.eq_of_name s hmem t ht hname
      have hfill := h s ht
      rw [s.get_put] at hfill
      exact Slot.fills_cons_self.2 ⟨hempty, b, hb, hfill⟩
    · have hfill := h t ht
      rw [hs.get_put s hmem t ht hname] at hfill
      exact (hother hname).2 hfill

/-- **In whatever order they come**, the members make a draft exactly if all names are texts and
each slot is filled by at most one of them. -/
theorem foldlM_takeMember? {slots : List (Slot δ)} (hs : Apart slots)
    {ms : List (Option String × Value)} {d d' : δ} :
    ms.foldlM (takeMember? slots) d = some d'
      ↔ (∀ m ∈ ms, m.1.isSome) ∧ ∀ s ∈ slots, s.Fills ms (s.get d) (s.get d') := by
  induction ms generalizing d with
  | nil =>
    rw [List.foldlM_nil]
    constructor
    · rintro ⟨⟩
      exact ⟨fun m hm => (nomatch hm), fun s _ => Slot.fills_nil.2 rfl⟩
    · rintro ⟨-, h⟩
      exact congrArg some (hs.ext d d' fun s hmem => (Slot.fills_nil.1 (h s hmem)).symm)
  | cons m ms ih =>
    obtain ⟨name?, v⟩ := m
    rw [List.foldlM_cons, List.forall_mem_cons]
    cases name? with
    | none =>
      constructor
      · rintro ⟨⟩
      · rintro ⟨⟨h, -⟩, -⟩; cases h
    | some name =>
      simp only [Option.isSome_some, true_and, takeMember?]
      cases hfind : slots.find? (·.name == name) with
      | none =>
        have hother (s : Slot δ) (hmem : s ∈ slots) : some name ≠ some s.name := by
          rintro ⟨⟩
          simpa using List.find?_eq_none.1 hfind s hmem
        rw [Option.bind_eq_bind, Option.bind_some, ih]
        refine and_congr_right fun _ => forall_congr' fun s => forall_congr' fun hmem => ?_
        exact (Slot.fills_cons_of_ne (hother s hmem)).symm
      | some s =>
        have hmem := List.mem_of_find?_eq_some hfind
        obtain rfl : s.name = name := by simpa using List.find?_some hfind
        rw [hs.fills_cons hmem]
        cases hget : s.get d with
        | some b => simp [hget]
        | none =>
          cases hv : s.meaning v with
          | none => simp [hget, hv]
          | some b => simp [hget, hv, ih]

end KnownIssues.Json
