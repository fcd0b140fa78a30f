import KnownIssues.Proofs.Lines
import Mathlib.Data.List.Chain

/-! # A text has its lines in one way only

Lines and line ends make a text (`Lines.chars`), and two such lists may make the same text: a line that
holds a line feed could as well be two, and a carriage return, an empty line and a line feed are the
text of one line end.  If neither is so, the list is `Canonical`.

* `canonical_ofChars`: what a text is split into is canonical.
* `ofChars_chars`: a canonical list comes back from its text, so it is the only one of its text.
* `lines_join`: lines that are joined by one line end come back, so the lines of a text do not change
  with its line ends (`lines_withLineEnd`). -/

namespace KnownIssues

namespace Lines

/-- No carriage return stands right in front of a line feed, as if they were two line ends. -/
def Apart (more : List (LineEnd × List Char)) : Prop :=
  more.IsChain fun p q => p = (.cr, []) → q.1.chars.head? ≠ some '\n'

/-- Lines as a text has them: none of them could be split, and no two line ends could be one. -/
structure Canonical (ls : Lines) : Prop where
  unbroken : ∀ l ∈ ls.contents, '\r' ∉ l ∧ '\n' ∉ l
  apart : Apart ls.more

theorem endsLine_eq_false_iff {l : List Char} :
    (∀ c ∈ l, endsLine c = false) ↔ '\r' ∉ l ∧ '\n' ∉ l := by
  constructor
  · intro h
    exact ⟨fun hr => absurd (h _ hr) (by decide), fun hn => absurd (h _ hn) (by decide)⟩
  · rintro ⟨hr, hn⟩ c hc
    rw [Bool.eq_false_iff, Ne, endsLine_iff]
    rintro (rfl | rfl)
    · exact hr hc
    · exact hn hc

/-! ### What a text is split into -/

theorem apart_endBefore {e : LineEnd} {ls : Lines} (h : Apart ls.more)
    (he : e = .cr → ls.first = [] → ∀ p ∈ ls.more.head?, p.1.chars.head? ≠ some '\n') :
    Apart (endBefore e ls).more := by
  refine List.isChain_cons.2 ⟨fun q hq hcr => ?_, h⟩
  obtain ⟨rfl, hfirst⟩ := Prod.mk.inj hcr
  exact he rfl hfirst q hq

theorem apart_cons (c : Char) {ls : Lines} (h : Apart ls.more) : Apart (cons c ls).more := by
  unfold cons
  split
  · exact apart_endBefore h (by rintro ⟨⟩)
  · split
    · split
      · -- the carriage return has joined the line feed, so it is followed by nothing new
        next l more =>
          have htail := (List.isChain_cons.1 h).2
          exact List.isChain_cons.2 ⟨fun _ _ hcr => (nomatch hcr), htail⟩
      · next hne =>
          refine apart_endBefore h fun _ hfirst p hp hlf => ?_
          obtain ⟨first, more⟩ := ls
          cases more with
          | nil => cases hp
          | cons q more =>
            cases hp
            obtain ⟨e, l⟩ := p
            obtain rfl : first = [] := hfirst
            cases e with
            | lf => exact hne l more rfl
            | crlf => cases hlf
            | cr => cases hlf
    · exact h

/-- **What a text is split into is canonical.** -/
theorem canonical_ofChars (cs : List Char) : (ofChars cs).Canonical where
  unbroken _ hl := endsLine_eq_false_iff.1 (not_ends_of_mem_contents hl)
  apart := by
    induction cs with
    | nil => exact List.IsChain.nil
    | cons c cs ih => exact apart_cons c ih

/-! ### No other lines have the same text -/

theorem ofChars_of_unbroken {l : List Char} (hl : '\r' ∉ l ∧ '\n' ∉ l) : ofChars l = ⟨l, []⟩ := by
  rw [← endsLine_eq_false_iff] at hl
  induction l with
  | nil => rfl
  | cons c l ih =>
    rw [List.forall_mem_cons] at hl
    rw [ofChars_cons, ih hl.2, cons_of_not_ends hl.1]

theorem ofChars_lineEnd_append {e : LineEnd} {cs : List Char}
    (h : e = .cr → cs.head? ≠ some '\n') : ofChars (e.chars ++ cs) = endBefore e (ofChars cs) := by
  rw [ofChars_append]
  · cases e <;> rfl
  · rintro ⟨hlast, hhead⟩
    cases e with
    | cr => exact h rfl hhead
    | crlf => exact absurd hlast (by decide)
    | lf => exact absurd hlast (by decide)

theorem chars_cons_more (first : List Char) (e : LineEnd) (l : List Char)
    (more : List (LineEnd × List Char)) :
    chars ⟨first, (e, l) :: more⟩ = first ++ (e.chars ++ chars ⟨l, more⟩) := by
  simp [chars]

theorem head?_chars {l : List Char} {more : List (LineEnd × List Char)} (hl : '\n' ∉ l)
    (h : (chars ⟨l, more⟩).head? = some '\n') :
    l = [] ∧ ∃ p ∈ more.head?, p.1.chars.head? = some '\n' := by
  cases l with
  | cons c l =>
    obtain rfl : c = '\n' := Option.some.inj h
    exact absurd (List.mem_cons_self ..) hl
  | nil =>
    cases more with
    | nil => cases h
    | cons p more =>
      obtain ⟨e, l⟩ := p
      refine ⟨rfl, _, rfl, ?_⟩
      rw [chars_cons_more, List.nil_append, List.head?_append] at h
      cases e <;> exact h

theorem Canonical.behind {first l : List Char} {e : LineEnd} {more : List (LineEnd × List Char)}
    (h : Canonical ⟨first, (e, l) :: more⟩) : Canonical ⟨l, more⟩ :=
  ⟨fun m hm => h.unbroken m (List.mem_cons_of_mem _ hm), (List.isChain_cons.1 h.apart).2⟩

theorem Canonical.head?_chars_ne {first l : List Char} {e : LineEnd}
    {more : List (LineEnd × List Char)} (h : Canonical ⟨first, (e, l) :: more⟩) :
    e = .cr → (chars ⟨l, more⟩).head? ≠ some '\n' := by
  rintro rfl hlf
  obtain ⟨rfl, p, hp, hhead⟩ := head?_chars (h.behind.unbroken l (List.mem_cons_self ..)).2 hlf
  exact (List.isChain_cons.1 h.apart).1 p hp rfl hhead

/-- **Canonical lines come back from their text.** -/
theorem ofChars_chars {ls : Lines} (h : ls.Canonical) : ofChars ls.chars = ls := by
  obtain ⟨first, more⟩ := ls
  induction more generalizing first with
  | nil =>
    have hfirst := h.unbroken first (List.mem_cons_self ..)
    rw [chars, List.flatMap_nil, List.append_nil, ofChars_of_unbroken hfirst]
  | cons p more ih =>
    obtain ⟨e, l⟩ := p
    have hfirst := h.unbroken first (List.mem_cons_self ..)
    rw [chars_cons_more, ofChars_append, ofChars_of_unbroken hfirst,
      ofChars_lineEnd_append h.head?_chars_ne, ih l h.behind]
    · simp [join, joinFrom, endBefore]
    · -- a line does not end in a carriage return
      rintro ⟨hlast, -⟩
      exact hfirst.1 (List.mem_of_getLast? hlast)

/-! ### One line end for all lines -/

/-- Lines with the same line end between them. -/
def uniform (e : LineEnd) (first : List Char) (rest : List (List Char)) : Lines :=
  ⟨first, rest.map fun l => (e, l)⟩

theorem chars_uniform (e : LineEnd) (first : List Char) (rest : List (List Char)) :
    (uniform e first rest).chars = e.chars.intercalate (first :: rest) := by
  induction rest generalizing first with
  | nil => simp [uniform, chars]
  | cons l rest ih =>
    have hmore : uniform e first (l :: rest) = ⟨first, (e, l) :: (uniform e l rest).more⟩ := rfl
    rw [hmore, chars_cons_more, List.intercalate_cons_cons, List.append_assoc, ← ih l]
    rfl

theorem contents_uniform (e : LineEnd) (first : List Char) (rest : List (List Char)) :
    (uniform e first rest).contents = first :: rest := by
  simp [uniform, contents, Function.comp_def]

theorem canonical_uniform (e : LineEnd) {first : List Char} {rest : List (List Char)}
    (h : ∀ l ∈ first :: rest, '\r' ∉ l ∧ '\n' ∉ l) : (uniform e first rest).Canonical where
  unbroken := by rwa [contents_uniform]
  apart := by
    rw [Apart, uniform, List.isChain_map]
    refine (List.pairwise_of_forall fun l m hcr => ?_).isChain
    obtain ⟨rfl, -⟩ := Prod.mk.inj hcr
    show LineEnd.cr.chars.head? ≠ some '\n'
    decide

end Lines

/-! ### Sources -/

/-- The text of a line end. -/
def LineEnd.text (e : LineEnd) : String :=
  .ofList e.chars

namespace Source

/-- The source of these lines, with one line end between each two. -/
def join (e : LineEnd) (lines : List String) : Source :=
  ⟨e.text.intercalate lines⟩

/-- The source with all its line ends made the same. -/
def withLineEnd (s : Source) (e : LineEnd) : Source :=
  join e s.lines

/-- **Lines that are joined by one line end** come back. -/
theorem lines_join (e : LineEnd) {lines : List String} (hne : lines ≠ [])
    (h : ∀ l ∈ lines, '\r' ∉ l.toList ∧ '\n' ∉ l.toList) : (join e lines).lines = lines := by
  obtain ⟨first, rest, rfl⟩ := List.exists_cons_of_ne_nil hne
  have hcanonical : (Lines.uniform e first.toList (rest.map String.toList)).Canonical := by
    refine Lines.canonical_uniform e fun l hl => ?_
    rw [← List.map_cons, List.mem_map] at hl
    obtain ⟨line, hline, rfl⟩ := hl
    exact h line hline
  have hchars : (join e (first :: rest)).text.toList
      = (Lines.uniform e first.toList (rest.map String.toList)).chars := by
    rw [join, String.toList_intercalate, Lines.chars_uniform, LineEnd.text, String.toList_ofList,
      List.map_cons]
  rw [Source.lines, hchars, Lines.ofChars_chars hcanonical, Lines.contents_uniform]
  simp

/-- **The lines of a text do not change with its line ends.** -/
theorem lines_withLineEnd (s : Source) (e : LineEnd) : (s.withLineEnd e).lines = s.lines := by
  refine lines_join e ?_ ?_
  · exact List.length_pos_iff.1 s.lineCount_pos
  · intro l hl
    obtain ⟨cs, hcs, rfl⟩ := List.mem_map.1 hl
    rw [String.toList_ofList]
    exact (Lines.canonical_ofChars s.text.toList).unbroken cs hcs

end Source

end KnownIssues
