import KnownIssues.Proofs.Lines.Canonical

/-! # Where lines stand in the bytes of their text

The extents of a source are those that one pass over its bytes finds (`Extent.scan`), where a carriage
return looks one byte ahead.  A byte below 128 is a character by itself, so the pass never takes a part
of a character for a line end (`Extent.scan_line`).

What an extent cuts out of the text is its line (`Source.Cuts`), so it begins and ends between
characters (`Source.cuts_append`), and a line ends before the next one begins
(`Lines.pairwise_extentsFrom`).  `Source.lines_canonical` puts this together with the way in which a text is
split. -/

namespace KnownIssues

/-- The extents of lines, found in one pass over the bytes: the line at hand begins at `start`, and what
is left of the bytes begins at `pos`. -/
def Extent.scan (start pos : Nat) : List UInt8 → List Extent
  | [] => [⟨start, pos⟩]
  | b :: bs =>
    if b = 0x0D then
      let size := if bs.head? = some 0x0A then 2 else 1
      ⟨start, pos⟩ :: scan (pos + size) (pos + size) (bs.drop (size - 1))
    else if b = 0x0A then ⟨start, pos⟩ :: scan (pos + 1) (pos + 1) bs
    else scan start (pos + 1) bs
termination_by bytes => bytes.length

/-! ### One pass over the bytes -/

namespace Extent

theorem scan_lf (start pos : Nat) (bs : List UInt8) :
    scan start pos (0x0A :: bs) = ⟨start, pos⟩ :: scan (pos + 1) (pos + 1) bs := by
  rw [scan, if_neg (by decide), if_pos rfl]

theorem scan_crlf (start pos : Nat) (bs : List UInt8) :
    scan start pos (0x0D :: 0x0A :: bs) = ⟨start, pos⟩ :: scan (pos + 2) (pos + 2) bs := by
  rw [scan, if_pos rfl, List.head?_cons, if_pos rfl]
  rfl

theorem scan_cr (start pos : Nat) {bs : List UInt8} (h : bs.head? ≠ some 0x0A) :
    scan start pos (0x0D :: bs) = ⟨start, pos⟩ :: scan (pos + 1) (pos + 1) bs := by
  rw [scan, if_pos rfl, if_neg h]
  rfl

theorem scan_append (start pos : Nat) {front : List UInt8} (h : 0x0D ∉ front ∧ 0x0A ∉ front)
    (bs : List UInt8) : scan start pos (front ++ bs) = scan start (pos + front.length) bs := by
  induction front generalizing pos with
  | nil => rfl
  | cons b front ih =>
    simp only [List.mem_cons, not_or] at h
    rw [List.cons_append, scan, if_neg (Ne.symm h.1.1), if_neg (Ne.symm h.2.1),
      ih (pos + 1) ⟨h.1.2, h.2.2⟩, List.length_cons, Nat.add_right_comm, Nat.add_assoc]

theorem scan_line (start pos : Nat) {l : List Char} (hl : '\r' ∉ l ∧ '\n' ∉ l) (cs : List Char) :
    scan start pos ((l ++ cs).flatMap String.utf8EncodeChar)
      = scan start (pos + Text.byteSize l) (cs.flatMap String.utf8EncodeChar) := by
  have hbytes : 0x0D ∉ l.flatMap String.utf8EncodeChar ∧ 0x0A ∉ l.flatMap String.utf8EncodeChar := by
    rw [Text.mem_flatMap_utf8EncodeChar (c := '\r') (by decide) (by decide),
      Text.mem_flatMap_utf8EncodeChar (c := '\n') (by decide) (by decide)]
    exact hl
  rw [List.flatMap_append, scan_append _ _ hbytes, Text.length_flatMap_utf8EncodeChar]

theorem scan_lineEnd (start pos : Nat) {e : LineEnd} {cs : List Char}
    (h : e = .cr → cs.head? ≠ some '\n') :
    scan start pos ((e.chars ++ cs).flatMap String.utf8EncodeChar)
      = ⟨start, pos⟩ :: scan (pos + Text.byteSize e.chars) (pos + Text.byteSize e.chars)
          (cs.flatMap String.utf8EncodeChar) := by
  cases e with
  | crlf => exact scan_crlf start pos _
  | lf => exact scan_lf start pos _
  | cr =>
    refine scan_cr start pos fun hhead => ?_
    cases cs with
    | nil => cases hhead
    | cons c cs =>
      -- the first byte is the line feed, so it is the first character
      have hmem : (0x0A : UInt8) ∈ String.utf8EncodeChar c := by
        change ((c :: cs).flatMap String.utf8EncodeChar).head? = some 0x0A at hhead
        rw [List.flatMap_cons, List.head?_append_of_ne_nil _ String.utf8EncodeChar_ne_nil] at hhead
        exact List.mem_of_mem_head? hhead
      rw [Text.mem_utf8EncodeChar_iff_eq (d := '\n') (by decide) (by decide)] at hmem
      exact h rfl (congrArg some hmem)

/-- **The pass over the bytes of a text** finds the extents of its lines. -/
theorem scan_chars (start : Nat) {ls : Lines} (h : ls.Canonical) :
    scan start start (ls.chars.flatMap String.utf8EncodeChar)
      = Lines.extentsFrom start ls.first ls.more := by
  obtain ⟨first, more⟩ := ls
  induction more generalizing start first with
  | nil =>
    have hfirst := h.unbroken first (List.mem_cons_self ..)
    rw [Lines.chars, List.flatMap_nil, scan_line start start hfirst, List.flatMap_nil, scan]
    rfl
  | cons p more ih =>
    obtain ⟨e, l⟩ := p
    rw [Lines.chars_cons_more, scan_line start start (h.unbroken first (List.mem_cons_self ..)),
      scan_lineEnd start _ h.head?_chars_ne, ih _ l h.behind]
    rfl

end Extent

/-! ### What the extents cut out -/

namespace Lines

theorem length_extentsFrom (start : Nat) (first : List Char) (more : List (LineEnd × List Char)) :
    (extentsFrom start first more).length = more.length + 1 := by
  induction more generalizing start first with
  | nil => rfl
  | cons p more ih => rw [extentsFrom, List.length_cons, ih, List.length_cons]

/-- **Each line stands where its extent says**, with text in front of it and behind it. -/
theorem exists_extentsFrom (start : Nat) {ls : Lines} {i : Nat} {l : List Char}
    (h : ls.contents[i]? = some l) :
    ∃ p q, ls.chars = p ++ (l ++ q) ∧
      (extentsFrom start ls.first ls.more)[i]?
        = some ⟨start + Text.byteSize p, start + Text.byteSize p + Text.byteSize l⟩ := by
  obtain ⟨first, more⟩ := ls
  induction more generalizing start first i with
  | nil =>
    cases i with
    | zero =>
      obtain rfl : first = l := Option.some.inj h
      exact ⟨[], [], by simp [chars], rfl⟩
    | succ i => cases h
  | cons r more ih =>
    obtain ⟨e, m⟩ := r
    cases i with
    | zero =>
      obtain rfl : first = l := Option.some.inj h
      exact ⟨[], _, by rw [chars_cons_more, List.nil_append], rfl⟩
    | succ i =>
      obtain ⟨p, q, hchars, hextent⟩ :=
        ih (start + Text.byteSize first + Text.byteSize e.chars) m h
      refine ⟨first ++ (e.chars ++ p), q, ?_, ?_⟩
      · rw [chars_cons_more, hchars, List.append_assoc, List.append_assoc]
      · rw [extentsFrom, List.getElem?_cons_succ, hextent, Text.byteSize_append,
          Text.byteSize_append, ← Nat.add_assoc, ← Nat.add_assoc]

theorem start_le_of_mem_extentsFrom {start : Nat} {first : List Char}
    {more : List (LineEnd × List Char)} {x : Extent} (h : x ∈ extentsFrom start first more) :
    start ≤ x.start := by
  induction more generalizing start first with
  | nil =>
    obtain rfl := List.mem_singleton.1 h
    exact Nat.le_refl _
  | cons p more ih =>
    rcases List.mem_cons.1 h with rfl | h
    · exact Nat.le_refl _
    · have := ih h
      omega

theorem pairwise_extentsFrom (start : Nat) (first : List Char)
    (more : List (LineEnd × List Char)) :
    (extentsFrom start first more).Pairwise fun x y => x.stop < y.start := by
  induction more generalizing start first with
  | nil => exact List.pairwise_singleton _ _
  | cons p more ih =>
    refine List.pairwise_cons.2 ⟨fun y hy => ?_, ih _ _⟩
    have hstart := start_le_of_mem_extentsFrom hy
    have hend : 0 < Text.byteSize p.1.chars := by cases p.1 <;> decide
    show start + Text.byteSize first < y.start
    omega

end Lines

/-! ### A text and its lines -/

/-- The extent cuts the line out of the text: it lies inside the text, begins and ends between
characters, and its bytes are those of the line. -/
structure Source.Cuts (s : Source) (x : Extent) (line : String) : Prop where
  ordered : x.start ≤ x.stop
  inside : x.stop ≤ s.text.utf8ByteSize
  start_valid : String.Pos.Raw.IsValid s.text ⟨x.start⟩
  stop_valid : String.Pos.Raw.IsValid s.text ⟨x.stop⟩
  bytes : ((Text.encode s.text).drop x.start).take (x.stop - x.start) = Text.encode line

theorem Source.cuts_append (p l q : String) :
    (Source.mk (p ++ (l ++ q))).Cuts
      ⟨Text.byteSize p.toList, Text.byteSize p.toList + Text.byteSize l.toList⟩ l := by
  have hp := Text.utf8ByteSize_eq p
  have hl := Text.utf8ByteSize_eq l
  refine ⟨Nat.le_add_right .., ?_, ?_, ?_, ?_⟩
  · show Text.byteSize p.toList + Text.byteSize l.toList ≤ (p ++ (l ++ q)).utf8ByteSize
    rw [String.utf8ByteSize_append, String.utf8ByteSize_append]
    omega
  · exact String.Pos.Raw.isValid_iff_exists_append.2 ⟨p, l ++ q, rfl, by rw [← hp]; rfl⟩
  · refine String.Pos.Raw.isValid_iff_exists_append.2 ⟨p ++ l, q, ?_, ?_⟩
    · exact (String.append_assoc ..).symm
    · rw [← hp, ← hl, ← String.utf8ByteSize_append]
      rfl
  · show ((Text.encode (p ++ (l ++ q))).drop _).take _ = _
    rw [Text.encode_append, Text.encode_append, List.drop_left' (Text.length_encode p),
      Nat.add_sub_cancel_left, List.take_left' (Text.length_encode l)]

theorem Source.length_extents (s : Source) : s.extents.length = s.lineCount := by
  rw [extents, Lines.length_extentsFrom, lineCount, lines, List.length_map, Lines.length_contents]

theorem Source.exists_cuts {s : Source} {i : Nat} (hi : i < s.lineCount) :
    ∃ x l, s.extents[i]? = some x ∧ s.line? i = some l ∧ s.Cuts x l := by
  obtain ⟨l, hl⟩ : ∃ l, (Lines.ofChars s.text.toList).contents[i]? = some l := by
    rw [lineCount, lines, List.length_map] at hi
    exact ⟨_, List.getElem?_eq_getElem hi⟩
  obtain ⟨p, q, hchars, hextent⟩ := Lines.exists_extentsFrom 0 hl
  have htext : s = ⟨.ofList p ++ (.ofList l ++ .ofList q)⟩ := by
    rw [Lines.chars_ofChars] at hchars
    rw [← String.ofList_append, ← String.ofList_append, ← hchars, String.ofList_toList]
  have hcuts := cuts_append (.ofList p) (.ofList l) (.ofList q)
  rw [← htext, String.toList_ofList, String.toList_ofList] at hcuts
  rw [Nat.zero_add] at hextent
  exact ⟨_, String.ofList l, hextent, by rw [line?, lines, List.getElem?_map, hl]; rfl, hcuts⟩

/-- **A text and its lines.**  A text is its lines and the line ends between them, and no other lines and
line ends make it, as long as no line could be split and no two line ends could be one.  One pass over the
bytes finds where the lines stand; each extent cuts its line out of the text, between characters, and ends
before the next one begins.  And whatever lines are joined by one line end come back, so a text keeps its
lines when its line ends are made the same. -/
theorem Source.lines_canonical :
    (∀ s : Source,
      (∃ ls : Lines, ls.Canonical ∧ ls.chars = s.text.toList ∧ s.lineCount = ls.contents.length ∧
        (∀ i, s.line? i = ls.contents[i]?.map String.ofList) ∧
        ∀ other : Lines, other.Canonical → other.chars = s.text.toList → other = ls) ∧
      s.extents = Extent.scan 0 0 (Text.encode s.text) ∧
      s.extents.Pairwise (fun x y => x.stop < y.start) ∧
      (∀ i, i < s.lineCount →
        ∃ x l, s.extents[i]? = some x ∧ s.line? i = some l ∧ s.Cuts x l) ∧
      (∀ i, s.lineCount ≤ i → s.extents[i]? = none ∧ s.line? i = none)) ∧
    (∀ e lines, lines ≠ [] → (∀ l ∈ lines, '\r' ∉ l.toList ∧ '\n' ∉ l.toList) →
      (join e lines).lines = lines) ∧
    ∀ s e, (withLineEnd s e).lines = s.lines := by
  refine ⟨fun s => ⟨⟨Lines.ofChars s.text.toList, ?_, ?_, ?_, ?_, ?_⟩, ?_, ?_, ?_, ?_⟩, ?_, ?_⟩
  · exact Lines.canonical_ofChars _
  · exact Lines.chars_ofChars _
  · rw [lineCount, lines, List.length_map]
  · intro i
    rw [line?, lines, List.getElem?_map]
  · rintro other hother hchars
    rw [← hchars, Lines.ofChars_chars hother]
  · have hscan := Extent.scan_chars 0 (Lines.canonical_ofChars s.text.toList)
    rw [Lines.chars_ofChars] at hscan
    exact hscan.symm
  · exact Lines.pairwise_extentsFrom 0 _ _
  · intro i hi
    exact exists_cuts hi
  · intro i hi
    refine ⟨List.getElem?_eq_none ?_, line?_eq_none_iff.2 hi⟩
    rwa [length_extents]
  · intro e lines hne h
    exact lines_join e hne h
  · intro s e
    exact lines_withLineEnd s e

/-- All three line ends, an empty line, a character of two bytes, and a line end at the end; and an empty
line and another one joined. -/
theorem Source.lines_canonical_mixed :
    let s : Source := ⟨"é\r\n\rb\n"⟩
    (∀ other : Lines, other.Canonical → other.chars = s.text.toList →
      other = ⟨['é'], [(.crlf, []), (.cr, ['b']), (.lf, [])]⟩) ∧
      Extent.scan 0 0 (Text.encode s.text) = [⟨0, 2⟩, ⟨4, 4⟩, ⟨5, 6⟩, ⟨7, 7⟩] ∧
      s.Cuts ⟨5, 6⟩ "b" ∧ (withLineEnd s .cr).lines = ["é", "", "b", ""] ∧
      (join .crlf ["", "é"]).lines = ["", "é"] := by
  intro s
  obtain ⟨hsource, hjoin, hsame⟩ := lines_canonical
  obtain ⟨⟨ls, -, -, -, -, hunique⟩, hscan, -, hcuts, -⟩ := hsource s
  refine ⟨fun other hother hchars => ?_, ?_, ?_, ?_, ?_⟩
  · have hsplit : Lines.ofChars s.text.toList = ⟨['é'], [(.crlf, []), (.cr, ['b']), (.lf, [])]⟩ := by
      decide
    rw [hunique other hother hchars, ← hsplit]
    exact (hunique _ (Lines.canonical_ofChars _) (Lines.chars_ofChars _)).symm
  · rw [← hscan]
    decide
  · obtain ⟨x, l, hx, hl, h⟩ := hcuts 2 (by decide)
    obtain rfl : x = ⟨5, 6⟩ := Option.some.inj (hx.symm.trans (by decide))
    obtain rfl : l = "b" := Option.some.inj (hl.symm.trans (by decide))
    exact h
  · rw [hsame s .cr]
    decide
  · refine hjoin .crlf ["", "é"] (by decide) fun l hl => ?_
    simp only [List.mem_cons, List.not_mem_nil, or_false] at hl
    rcases hl with rfl | rfl <;> decide

end KnownIssues
