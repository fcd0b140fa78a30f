import KnownIssues.Issue.Format
import KnownIssues.Proofs.Json.Slots
import Mathlib.Data.List.Forall2

/-! # Which JSON texts are issues

A strict JSON text is read as a range, an issue or a file of issues exactly if its value has the
shape of one (`LineRange.Fits`, `Issue.Fits`, `IssueFile.Fits`), and then as what that value holds
(`decode_iff_fits`).  The order of members, blanks, escapes and unknown members make no difference.

In an object every name must be a text.  A range has both its lines, each once.  An issue has its
rule once, and its lines and its hash at most once; a file has its issues at most once.  Each of the
three may also be the list of its fields in order, and what may be left out may be missing at its
end. -/

namespace KnownIssues

open Json

/-! ### Shapes -/

/-- Every name is a text. -/
def Named (ms : List (Option String × Value)) : Prop :=
  ∀ m ∈ ms, m.1.isSome

/-- The name stands once, with a value of this kind. -/
def Once (name : String) (P : Value → Prop) (ms : List (Option String × Value)) : Prop :=
  ∃ v, valuesOf name ms = [v] ∧ P v

/-- The value is a range, as an object or as the list of its lines. -/
def LineRange.Fits (v : Value) (r : LineRange) : Prop :=
  match v with
  | .object ms =>
    Named ms ∧ Once "startLine" (·.word? = some r.first) ms ∧
      Once "endLine" (·.word? = some r.last) ms
  | .list vs => ∃ x y, vs = [x, y] ∧ x.word? = some r.first ∧ y.word? = some r.last
  | _ => False

/-- The value is a range or null. -/
def LineRange.FitsOrNull (v : Value) (range : Option LineRange) : Prop :=
  v = .null ∧ range = none ∨ ∃ r, range = some r ∧ Fits v r

/-- The value is an issue, as an object or as the list of its fields. -/
def Issue.Fits (v : Value) (i : Issue) : Prop :=
  match v with
  | .object ms =>
    Named ms ∧ Once "ruleId" (·.text? = some i.rule) ms ∧
      (valuesOf "textRange" ms = [] ∧ i.range = none ∨
        Once "textRange" (LineRange.FitsOrNull · i.range) ms) ∧
      (valuesOf "hash" ms = [] ∧ i.hash = "" ∨ Once "hash" (·.text? = some i.hash) ms)
  | .list vs =>
    (∃ x, vs = [x] ∧ x.text? = some i.rule ∧ i.range = none ∧ i.hash = "") ∨
      (∃ x y, vs = [x, y] ∧ x.text? = some i.rule ∧ LineRange.FitsOrNull y i.range ∧
        i.hash = "") ∨
      ∃ x y z, vs = [x, y, z] ∧ x.text? = some i.rule ∧ LineRange.FitsOrNull y i.range ∧
        z.text? = some i.hash
  | _ => False

/-- The value is a list of issues. -/
def Issue.FitsList (v : Value) (issues : List Issue) : Prop :=
  ∃ vs, v = .list vs ∧ List.Forall₂ Issue.Fits vs issues

/-- The value is a file of issues, as an object or as the list of its one field. -/
def IssueFile.Fits (v : Value) (file : IssueFile) : Prop :=
  match v with
  | .object ms =>
    Named ms ∧ (valuesOf "issues" ms = [] ∧ file.issues = [] ∨
      Once "issues" (Issue.FitsList · file.issues) ms)
  | .list vs => vs = [] ∧ file.issues = [] ∨ ∃ x, vs = [x] ∧ Issue.FitsList x file.issues
  | _ => False

theorem mapM_eq_some {α β : Type} {f : α → Option β} {as : List α} {bs : List β} :
    as.mapM f = some bs ↔ List.Forall₂ (fun a b => f a = some b) as bs := by
  induction as generalizing bs with
  | nil => simp [eq_comm]
  | cons a as ih =>
    rw [List.mapM_cons]
    constructor
    · intro h
      obtain ⟨b, hb, h⟩ := Option.bind_eq_some_iff.1 h
      obtain ⟨bs, hbs, h⟩ := Option.bind_eq_some_iff.1 h
      cases h
      exact .cons hb (ih.1 hbs)
    · rintro (_ | ⟨hb, hbs⟩)
      rw [hb, Option.bind_eq_bind, Option.bind_some, ih.2 hbs]
      rfl

/-! ### Ranges -/

namespace LineRange

/-- The slots of a range. -/
def slots : List (Slot Draft) :=
  [⟨"startLine", Draft.first, fun n d => { d with first := some n }, .word, Value.word?, reads_word,
      fun _ _ => rfl⟩,
    ⟨"endLine", Draft.last, fun n d => { d with last := some n }, .word, Value.word?, reads_word,
      fun _ _ => rfl⟩]

theorem reads_format : format.reader.Reads (shape.record? slots) :=
  Shape.reads_record rfl (List.cons_ne_nil _ _)

theorem apart_slots : Apart slots where
  eq_of_name := by simp [slots]
  get_put := by simp [slots]
  ext d d' h := by
    simp only [slots, List.forall_mem_cons] at h
    obtain ⟨hfirst, hlast, -⟩ := h
    obtain ⟨first, last⟩ := d
    obtain rfl : first = _ := hfirst
    obtain rfl : last = _ := hlast
    rfl

theorem build_eq_ok {d : Draft} {r : LineRange} :
    shape.build d = .ok r ↔ d = ⟨some r.first, some r.last⟩ := by
  obtain ⟨_ | first, _ | last⟩ := d <;> obtain ⟨a, b⟩ := r <;> simp [shape]

theorem record?_eq_some_iff {v : Value} {r : LineRange} :
    shape.record? slots v = some r ↔ Fits v r := by
  rw [Shape.record?_eq_some]
  simp only [build_eq_ok, exists_eq_right]
  unfold draft? Fits
  split
  · next ms =>
    rw [foldlM_takeMember? apart_slots, slots, List.forall_mem_cons, List.forall_mem_singleton]
    exact and_congr_right fun _ => and_congr Slot.fills_some Slot.fills_some
  · next vs =>
    rcases vs with _ | ⟨x, _ | ⟨y, _ | ⟨z, vs⟩⟩⟩ <;>
      simp [slots, takeElements?, shape, Option.bind_eq_some_iff]
  · simp

theorem orNull?_eq_some_iff {v : Value} {range : Option LineRange} :
    v.orNull? (shape.record? slots) = some range ↔ FitsOrNull v range := by
  unfold FitsOrNull Value.orNull?
  split
  · simp [Fits, eq_comm]
  · next hv =>
    have hnull : v ≠ .null := fun h => hv h
    simp only [Option.map_eq_some_iff, record?_eq_some_iff, hnull, false_and, false_or]
    exact exists_congr fun r => and_comm.trans (and_congr_left fun _ => eq_comm)

end LineRange

/-! ### Issues -/

namespace Issue

/-- The slot of the rule. -/
def ruleSlot : Slot Draft :=
  ⟨"ruleId", Draft.rule, fun s d => { d with rule := some s }, .text, Value.text?, reads_text,
    fun _ _ => rfl⟩

/-- The slot of the lines. -/
def rangeSlot : Slot Draft :=
  ⟨"textRange", Draft.range, fun r d => { d with range := some r }, LineRange.format.reader.orNull,
    Value.orNull? (LineRange.shape.record? LineRange.slots), reads_orNull LineRange.reads_format,
    fun _ _ => rfl⟩

/-- The slot of the hash. -/
def hashSlot : Slot Draft :=
  ⟨"hash", Draft.hash, fun s d => { d with hash := some s }, .text, Value.text?, reads_text,
    fun _ _ => rfl⟩

/-- The slots of an issue. -/
def slots : List (Slot Draft) :=
  [ruleSlot, rangeSlot, hashSlot]

theorem reads_format : format.reader.Reads (shape.record? slots) :=
  Shape.reads_record rfl (List.cons_ne_nil _ _)

theorem apart_slots : Apart slots where
  eq_of_name := by simp [slots, ruleSlot, rangeSlot, hashSlot]
  get_put := by simp [slots, ruleSlot, rangeSlot, hashSlot]
  ext d d' h := by
    simp only [slots, List.forall_mem_cons] at h
    obtain ⟨hrule, hrange, hhash, -⟩ := h
    obtain ⟨rule, range, hash⟩ := d
    obtain rfl : rule = _ := hrule
    obtain rfl : range = _ := hrange
    obtain rfl : hash = _ := hhash
    rfl

theorem build_eq_ok {d : Draft} {i : Issue} :
    shape.build d = .ok i
      ↔ d.rule = some i.rule ∧ d.range.join = i.range ∧ d.hash.getD "" = i.hash := by
  obtain ⟨_ | rule, range, hash⟩ := d <;> obtain ⟨a, b, c⟩ := i <;> simp [shape]

theorem exists_fills_range {ms : List (Option String × Value)} {range : Option LineRange} :
    (∃ o, rangeSlot.Fills ms none o ∧ o.join = range)
      ↔ valuesOf "textRange" ms = [] ∧ range = none ∨
        Once "textRange" (LineRange.FitsOrNull · range) ms :=
  Slot.exists_fills fun _ => exists_eq_right.trans LineRange.orNull?_eq_some_iff

theorem exists_fills_hash {ms : List (Option String × Value)} {hash : String} :
    (∃ o, hashSlot.Fills ms none o ∧ o.getD "" = hash)
      ↔ valuesOf "hash" ms = [] ∧ hash = "" ∨ Once "hash" (·.text? = some hash) ms :=
  Slot.exists_fills fun _ => exists_eq_right

theorem record?_eq_some_iff {v : Value} {i : Issue} :
    shape.record? slots v = some i ↔ Fits v i := by
  rw [Shape.record?_eq_some]
  simp only [build_eq_ok]
  unfold draft? Fits
  split
  · next ms =>
    simp only [foldlM_takeMember? apart_slots]
    rw [slots]
    simp only [List.forall_mem_cons]
    constructor
    · rintro ⟨⟨rule, range, hash⟩, ⟨hnamed, hrule, hrange, hhash, -⟩, rfl, hr, hh⟩
      exact ⟨hnamed, Slot.fills_some.1 hrule, exists_fills_range.1 ⟨range, hrange, hr⟩,
        exists_fills_hash.1 ⟨hash, hhash, hh⟩⟩
    · rintro ⟨hnamed, hrule, hrange, hhash⟩
      obtain ⟨range, hrange, hr⟩ := exists_fills_range.2 hrange
      obtain ⟨hash, hhash, hh⟩ := exists_fills_hash.2 hhash
      exact ⟨⟨some i.rule, range, hash⟩, ⟨hnamed, Slot.fills_some.2 hrule, hrange, hhash,
        fun _ h => nomatch h⟩,
        rfl, hr, hh⟩
  · next vs =>
    simp only [← LineRange.orNull?_eq_some_iff]
    rcases vs with _ | ⟨x, _ | ⟨y, _ | ⟨z, _ | ⟨u, vs⟩⟩⟩⟩ <;>
      simp [slots, ruleSlot, rangeSlot, hashSlot, takeElements?, shape, Option.bind_eq_some_iff]
    -- the rule alone: the lines are missing on both sides
    exact fun _ _ => eq_comm
  · simp

theorem list?_eq_some_iff {v : Value} {issues : List Issue} :
    v.list? (shape.record? slots) = some issues ↔ FitsList v issues := by
  unfold FitsList Value.list?
  split
  · next vs =>
    rw [mapM_eq_some]
    simp only [record?_eq_some_iff, Value.list.injEq, exists_eq_left']
  · next hv =>
    refine ⟨fun h => (nomatch h), ?_⟩
    rintro ⟨vs, rfl, -⟩
    exact (hv vs rfl).elim

end Issue

/-! ### Files -/

namespace IssueFile

/-- The slot of the issues. -/
def issuesSlot : Slot Draft :=
  ⟨"issues", Draft.issues, fun l _ => ⟨some l⟩, (Format.list Issue.format).reader,
    Value.list? (Issue.shape.record? Issue.slots), reads_list Issue.reads_format, fun _ _ => rfl⟩

/-- The one slot of a file. -/
def slots : List (Slot Draft) :=
  [issuesSlot]

theorem reads_format : format.reader.Reads (shape.record? slots) :=
  Shape.reads_record rfl (List.cons_ne_nil _ _)

theorem apart_slots : Apart slots where
  eq_of_name := by simp [slots]
  get_put := by simp [slots]
  ext d d' h := by
    obtain ⟨issues⟩ := d
    obtain rfl : issues = _ := h _ (List.mem_singleton_self _)
    rfl

theorem build_eq_ok {d : Draft} {file : IssueFile} :
    shape.build d = .ok file ↔ d.issues.getD [] = file.issues := by
  obtain ⟨issues⟩ := file
  simp [shape]

theorem exists_fills_issues {ms : List (Option String × Value)} {issues : List Issue} :
    (∃ o, issuesSlot.Fills ms none o ∧ o.getD [] = issues)
      ↔ valuesOf "issues" ms = [] ∧ issues = [] ∨ Once "issues" (Issue.FitsList · issues) ms :=
  Slot.exists_fills fun _ => exists_eq_right.trans Issue.list?_eq_some_iff

theorem record?_eq_some_iff {v : Value} {file : IssueFile} :
    shape.record? slots v = some file ↔ Fits v file := by
  rw [Shape.record?_eq_some]
  simp only [build_eq_ok]
  unfold draft? Fits
  split
  · next ms =>
    simp only [foldlM_takeMember? apart_slots]
    constructor
    · rintro ⟨⟨issues⟩, ⟨hnamed, hfill⟩, hbuild⟩
      exact ⟨hnamed, exists_fills_issues.1 ⟨issues, hfill _ (List.mem_singleton_self _), hbuild⟩⟩
    · rintro ⟨hnamed, hissues⟩
      obtain ⟨issues, hfill, hbuild⟩ := exists_fills_issues.2 hissues
      exact ⟨⟨issues⟩, ⟨hnamed, List.forall_mem_singleton.2 hfill⟩, hbuild⟩
  · next vs =>
    simp only [← Issue.list?_eq_some_iff]
    rcases vs with _ | ⟨x, _ | ⟨y, vs⟩⟩ <;>
      simp [slots, takeElements?, shape, Option.bind_eq_some_iff]
    -- the list of issues alone
    exact exists_eq_right
  · simp

end IssueFile

/-! ### Whole texts -/

/-- **A text is read as what its value fits**: any JSON text of the value, with any blanks around
it. -/
theorem decode_iff_fits {v : Value} {w : List Char} (h : Spells v w) {g g' : List Char} (hg : Gap g)
    (hg' : Gap g') :
    (∀ r, LineRange.format.decode (.ofList (g ++ (w ++ g'))) = .ok r ↔ LineRange.Fits v r) ∧
      (∀ i, Issue.format.decode (.ofList (g ++ (w ++ g'))) = .ok i ↔ Issue.Fits v i) ∧
      ∀ file, IssueFile.format.decode (.ofList (g ++ (w ++ g'))) = .ok file
        ↔ IssueFile.Fits v file :=
  ⟨fun _ => (LineRange.reads_format.decode_eq_ok h hg hg').trans LineRange.record?_eq_some_iff,
    fun _ => (Issue.reads_format.decode_eq_ok h hg hg').trans Issue.record?_eq_some_iff,
    fun _ => (IssueFile.reads_format.decode_eq_ok h hg hg').trans IssueFile.record?_eq_some_iff⟩

/-- An issue whose rule has an escape in its name, behind a member that does not matter, with a
number out of range and half a surrogate pair in it. -/
theorem decode_iff_fits_escaped :
    ∃ v w, Spells v w ∧
      String.ofList ([' '] ++ (w ++ []))
        = " \x7b\"x\":[null,-1.5E+400,\"\\ud800\"], \"rule\\u0049d\":\"S1\"\x7d" ∧
      Issue.Fits v ⟨"S1", none, ""⟩ ∧
      Issue.format.decode (.ofList ([' '] ++ (w ++ []))) = .ok ⟨"S1", none, ""⟩ := by
  let plain (c : Char) (h : c ≠ '"' ∧ c ≠ '\\' ∧ ¬ c.toNat < 0x20) : Piece :=
    .plain c h.1 h.2.1 h.2.2
  let rule : List Piece := [plain 'r' (by decide), plain 'u' (by decide), plain 'l' (by decide),
    plain 'e' (by decide), .code '0' '0' '4' '9' 0x49 (by decide), plain 'd' (by decide)]
  have hnumber : Spells (.number ⟨true, ['1'], ['5'], some ⟨false, ['4', '0', '0']⟩⟩)
      ['-', '1', '.', '5', 'E', '+', '4', '0', '0'] :=
    .number (.negative rfl ⟨⟨by simp, by simp⟩, by simp, _, _, .present ⟨by simp, by simp⟩,
      .plus (Or.inr rfl) ⟨by simp, by simp⟩, rfl⟩)
  have hlist := Spells.list gap_nil .null (.cons gap_nil gap_nil hnumber (.cons gap_nil gap_nil
    (.text [.code 'd' '8' '0' '0' 0xD800 (by decide)]) (.nil gap_nil)))
  have hgap : Gap [' '] := by simp [Gap, isGap]
  have hobject := @Spells.object _ _ [plain 'x' (by decide)] _ _ _ _ _ gap_nil gap_nil gap_nil hlist
    (@ObjectRest.cons _ _ rule _ _ _ _ _ _ gap_nil hgap gap_nil gap_nil
      (.text [plain 'S' (by decide), plain '1' (by decide)]) (.nil gap_nil))
  have hdecode := (decode_iff_fits hobject hgap gap_nil).2.1 ⟨"S1", none, ""⟩
  refine ⟨_, _, hobject, by decide, ?fits, hdecode.2 ?fits⟩
  exact ⟨List.forall_mem_cons.2 ⟨rfl, List.forall_mem_singleton.2 rfl⟩, ⟨_, rfl, rfl⟩,
    Or.inl ⟨rfl, rfl⟩, Or.inl ⟨rfl, rfl⟩⟩

end KnownIssues
