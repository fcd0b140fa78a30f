import KnownIssues.Source

/-! # The lines of two texts put together

`Lines.join` puts the first line of one text behind the last line of another and leaves all other
lines alone.  Splitting two texts put together gives their lines so joined (`ofChars_append`), unless
a carriage return at the end of the first and a line feed at the front of the second make one line
end.  So a line that stands between line ends is a line of the whole text, at the number of the
line ends before it (`line?_between`). -/

namespace KnownIssues

theorem endsLine_iff {c : Char} : endsLine c = true ↔ c = '\r' ∨ c = '\n' := by
  simp [endsLine]

namespace Lines

/-- The lines of a text in front, given as a first line and those behind it, and of a text behind. -/
def joinFrom (first : List Char) : List (LineEnd × List Char) → Lines → Lines
  | [], b => ⟨first ++ b.first, b.more⟩
  | (e, l) :: more, b => ⟨first, (e, (joinFrom l more b).first) :: (joinFrom l more b).more⟩

/-- The lines of two texts put together, if no line end comes of it. -/
def join (a b : Lines) : Lines :=
  joinFrom a.first a.more b

/-- The last line, if `first` is the first one. -/
def lastFrom (first : List Char) : List (LineEnd × List Char) → List Char
  | [] => first
  | (_, l) :: more => lastFrom l more

/-- The last line. -/
def last (ls : Lines) : List Char :=
  lastFrom ls.first ls.more

/-! ### Joining -/

theorem join_endBefore (e : LineEnd) (a b : Lines) :
    (endBefore e a).join b = endBefore e (a.join b) := rfl

/-- The line at the seam is made of the two that meet there. -/
theorem getElem?_contents_join (a b : Lines) :
    (a.join b).contents[a.more.length]? = some (a.last ++ b.first) := by
  obtain ⟨first, more⟩ := a
  show (joinFrom first more b).contents[more.length]? = some (lastFrom first more ++ b.first)
  induction more generalizing first with
  | nil => rfl
  | cons p more ih => exact ih p.2

theorem cons_of_not_ends {c : Char} (hc : endsLine c = false) (ls : Lines) :
    cons c ls = ⟨c :: ls.first, ls.more⟩ := by
  unfold cons
  split
  · next h => subst h; cases hc
  · split
    · next h => subst h; cases hc
    · rfl

/-- A carriage return is a line end of its own unless a line feed follows at once. -/
theorem cons_cr {ls : Lines} (h : ls.first = [] → ls.chars.head? ≠ some '\n') :
    cons '\r' ls = endBefore .cr ls := by
  unfold cons
  rw [if_neg (by decide), if_pos rfl]
  split
  · exact absurd rfl (h rfl)
  · rfl

theorem first_cons_of_ends {c : Char} (hc : endsLine c = true) (ls : Lines) :
    (cons c ls).first = [] := by
  unfold cons
  rcases endsLine_iff.1 hc with rfl | rfl
  · rw [if_neg (by decide), if_pos rfl]
    split <;> rfl
  · rfl

/-- A character in front goes to the first text, unless it makes one line end with the second. -/
theorem cons_join {c : Char} {a b : Lines}
    (h : c = '\r' → a = empty → b.chars.head? ≠ some '\n') :
    cons c (a.join b) = (cons c a).join b := by
  obtain ⟨first, more⟩ := a
  cases hc : endsLine c with
  | false =>
    rw [cons_of_not_ends hc, cons_of_not_ends hc]
    cases more <;> rfl
  | true =>
    rcases endsLine_iff.1 hc with rfl | rfl
    · cases more with
      | cons p more =>
        -- the first line end of the two texts is that of the first one
        obtain ⟨e, l⟩ := p
        cases first <;> cases e <;> rfl
      | nil =>
        have hown : cons '\r' ⟨first, []⟩ = endBefore .cr ⟨first, []⟩ := by
          cases first <;> rfl
        rw [hown, join_endBefore]
        refine cons_cr fun hfirst => ?_
        obtain ⟨rfl, -⟩ := List.append_eq_nil_iff.1 hfirst
        exact h rfl rfl
    · rfl

/-- **The lines of two texts put together**, if their seam does not make one line end of two. -/
theorem ofChars_append {p s : List Char}
    (h : ¬ (p.getLast? = some '\r' ∧ s.head? = some '\n')) :
    ofChars (p ++ s) = (ofChars p).join (ofChars s) := by
  induction p with
  | nil => rfl
  | cons c p ih =>
    have hp : ¬ (p.getLast? = some '\r' ∧ s.head? = some '\n') := by
      rintro ⟨hlast, hhead⟩
      refine h ⟨?_, hhead⟩
      rw [List.getLast?_cons, hlast]
      rfl
    rw [List.cons_append, ofChars_cons, ih hp, cons_join, ofChars_cons]
    rintro rfl hempty
    rw [chars_ofChars]
    intro hhead
    have hnil : p = [] := by rw [← chars_ofChars p, hempty]; rfl
    subst hnil
    exact h ⟨rfl, hhead⟩

/-! ### The first line and the last -/

theorem first_ofChars_append {l q : List Char} (hl : ∀ c ∈ l, endsLine c = false)
    (hq : ∀ c, q.head? = some c → endsLine c = true) : (ofChars (l ++ q)).first = l := by
  induction l with
  | nil =>
    cases q with
    | nil => rfl
    | cons c q => exact first_cons_of_ends (hq c rfl) _
  | cons c l ih =>
    rw [List.forall_mem_cons] at hl
    rw [List.cons_append, ofChars_cons, cons_of_not_ends hl.1, ih hl.2]

theorem chars_eq_append_last (ls : Lines) :
    ls.last ∈ ls.contents ∧ ∃ front, ls.chars = front ++ ls.last := by
  obtain ⟨first, more⟩ := ls
  show lastFrom first more ∈ contents ⟨first, more⟩ ∧
    ∃ front, chars ⟨first, more⟩ = front ++ lastFrom first more
  induction more generalizing first with
  | nil => exact ⟨List.mem_cons_self .., [], by simp [chars, lastFrom]⟩
  | cons p more ih =>
    obtain ⟨hmem, front, hfront⟩ := ih p.2
    refine ⟨List.mem_cons_of_mem _ hmem, first ++ (p.1.chars ++ front), ?_⟩
    rw [lastFrom, List.append_assoc, List.append_assoc, ← hfront]
    simp [chars]

theorem last_ofChars {p : List Char} (hp : ∀ c, p.getLast? = some c → endsLine c = true) :
    (ofChars p).last = [] := by
  obtain ⟨hmem, front, hfront⟩ := chars_eq_append_last (ofChars p)
  rw [chars_ofChars] at hfront
  rcases List.eq_nil_or_concat (ofChars p).last with hnil | ⟨l, c, hlast⟩
  · exact hnil
  · -- the last character of the text would be one of a line
    have hc : p.getLast? = some c := by rw [hfront, hlast]; simp
    have hno := not_ends_of_mem_contents hmem c (by simp [hlast])
    rw [hp c hc] at hno
    cases hno

theorem length_contents (ls : Lines) : ls.contents.length = ls.more.length + 1 := by
  simp [contents]

end Lines

/-! ### A line between line ends -/

/-- **A line that stands between line ends** is a line of the whole text: the one behind the lines of
what stands in front. -/
theorem Source.line?_between {p l q : String} (hl : ∀ c ∈ l.toList, c ≠ '\r' ∧ c ≠ '\n')
    (hp : ∀ c, p.toList.getLast? = some c → c = '\r' ∨ c = '\n')
    (hq : ∀ c, q.toList.head? = some c → c = '\r' ∨ c = '\n')
    (hseam : ¬ (p.toList.getLast? = some '\r' ∧ l = "" ∧ q.toList.head? = some '\n')) :
    (Source.mk (p ++ l ++ q)).line? ((Source.mk p).lineCount - 1) = some l := by
  have hline : ∀ c ∈ l.toList, endsLine c = false := fun c hc => by
    simp [endsLine, hl c hc]
  have hfirst : (Lines.ofChars (l.toList ++ q.toList)).first = l.toList :=
    Lines.first_ofChars_append hline fun c hc => endsLine_iff.2 (hq c hc)
  have hlast : (Lines.ofChars p.toList).last = [] :=
    Lines.last_ofChars fun c hc => endsLine_iff.2 (hp c hc)
  -- a line feed behind `p` could only be the first character of `q`
  have hjoin : Lines.ofChars (p.toList ++ (l.toList ++ q.toList))
      = (Lines.ofChars p.toList).join (Lines.ofChars (l.toList ++ q.toList)) := by
    refine Lines.ofChars_append ?_
    rintro ⟨hcr, hlf⟩
    rcases hchars : l.toList with _ | ⟨c, cs⟩
    · rw [hchars, List.nil_append] at hlf
      exact hseam ⟨hcr, String.toList_eq_nil_iff.1 hchars, hlf⟩
    · rw [hchars, List.cons_append, List.head?_cons, Option.some.injEq] at hlf
      exact (hl c (by simp [hchars])).2 hlf
  have hcount : (Source.mk p).lineCount - 1 = (Lines.ofChars p.toList).more.length := by
    simp [lineCount, lines, Lines.length_contents]
  rw [line?, hcount, lines, List.getElem?_map, String.toList_append, String.toList_append,
    List.append_assoc, hjoin, Lines.getElem?_contents_join, hlast, hfirst, List.nil_append,
    Option.map_some, String.ofList_toList]

end KnownIssues
