import KnownIssues.Text.Utf8

/-!
# Source texts and their lines

A line ends at `"\r\n"`, `"\n"` or `"\r"`, and the text after the last line end is a line of its
own, so every text has at least one line.  `Lines` keeps each line end with the line that follows
it: `Lines.ofChars` splits a text and `Lines.chars` puts it together again, with nothing lost
(`chars_ofChars`).  No line holds a character that ends lines (`not_ends_of_mem_contents`).

`Source` is a text together with what is asked of it: its lines, how many there are, one line by its
number, and where in the UTF-8 bytes each line stands.
-/

namespace KnownIssues

/-- What ends a line. -/
inductive LineEnd where
  | crlf
  | lf
  | cr
  deriving DecidableEq, Repr

/-- The characters of a line end. -/
def LineEnd.chars : LineEnd → List Char
  | .crlf => ['\r', '\n']
  | .lf => ['\n']
  | .cr => ['\r']

/-- A character that ends a line by itself. -/
def endsLine (c : Char) : Bool :=
  c == '\r' || c == '\n'

/-- A text by lines: the first one, and after each line end one more. -/
structure Lines where
  first : List Char
  more : List (LineEnd × List Char)
  deriving DecidableEq, Repr

namespace Lines

/-- The text of no characters: one line, which is empty. -/
def empty : Lines :=
  ⟨[], []⟩

/-- The lines after a line end `e` was put in front. -/
def endBefore (e : LineEnd) (ls : Lines) : Lines :=
  ⟨[], (e, ls.first) :: ls.more⟩

/-- The lines after one character was put in front.  A carriage return in front of a line feed joins
it. -/
def cons (c : Char) (ls : Lines) : Lines :=
  if c = '\n' then endBefore .lf ls
  else if c = '\r' then
    match ls with
    | ⟨[], (.lf, l) :: more⟩ => ⟨[], (.crlf, l) :: more⟩
    | _ => endBefore .cr ls
  else ⟨c :: ls.first, ls.more⟩

/-- Splits a text. -/
def ofChars (cs : List Char) : Lines :=
  cs.foldr cons empty

/-- The text again. -/
def chars (ls : Lines) : List Char :=
  ls.first ++ ls.more.flatMap fun p => p.1.chars ++ p.2

/-- The lines without their ends. -/
def contents (ls : Lines) : List (List Char) :=
  ls.first :: ls.more.map (·.2)

theorem ofChars_cons (c : Char) (cs : List Char) : ofChars (c :: cs) = cons c (ofChars cs) := rfl

theorem chars_endBefore (e : LineEnd) (ls : Lines) :
    (endBefore e ls).chars = e.chars ++ ls.chars := by
  simp [endBefore, chars]

theorem chars_cons (c : Char) (ls : Lines) : (cons c ls).chars = c :: ls.chars := by
  unfold cons
  split
  next h => rw [chars_endBefore, h]; rfl
  next =>
    split
    next h =>
      split
      next => simp [chars, LineEnd.chars, h]
      next => rw [chars_endBefore, h]; rfl
    next => rfl

@[simp] theorem chars_ofChars (cs : List Char) : (ofChars cs).chars = cs := by
  induction cs with
  | nil => rfl
  | cons c cs ih => rw [ofChars_cons, chars_cons, ih]

/-- No line holds a character that ends lines. -/
theorem not_ends_of_mem_contents {cs l : List Char} (hl : l ∈ (ofChars cs).contents) :
    ∀ c ∈ l, endsLine c = false := by
  induction cs generalizing l with
  | nil =>
    intro c hc
    simp [ofChars, empty, contents] at hl
    simp [hl] at hc
  | cons x cs ih =>
    rw [ofChars_cons] at hl
    revert ih hl
    generalize ofChars cs = ls
    intro ih hl
    have hends : ∀ e, l ∈ (endBefore e ls).contents → ∀ c ∈ l, endsLine c = false := by
      intro e hl
      simp only [endBefore, contents, List.map_cons, List.mem_cons] at hl
      rcases hl with rfl | hl | hl
      · intro c hc; cases hc
      · exact ih (by simp [contents, hl])
      · exact ih (List.mem_cons_of_mem _ hl)
    unfold cons at hl
    split at hl
    next => exact hends _ hl
    next hlf =>
      split at hl
      next =>
        split at hl
        next => exact ih hl
        next => exact hends _ hl
      next hcr =>
        simp only [contents, List.mem_cons] at hl
        rcases hl with rfl | hl
        · intro c hc
          rcases List.mem_cons.1 hc with rfl | hc
          · simp [endsLine, hlf, hcr]
          · exact ih (List.mem_cons_self ..) c hc
        · exact ih (List.mem_cons_of_mem _ hl)

end Lines

/-! ### Sources -/

/-- Where a line stands in the bytes of its text: from `start` up to, not including, `stop`. -/
structure Extent where
  start : Nat
  stop : Nat
  deriving DecidableEq, Repr

/-- The extents of lines that begin at `start`, each line after its line end. -/
def Lines.extentsFrom (start : Nat) (first : List Char) :
    List (LineEnd × List Char) → List Extent
  | [] => [⟨start, start + Text.byteSize first⟩]
  | (e, l) :: more =>
    let stop := start + Text.byteSize first
    ⟨start, stop⟩ :: extentsFrom (stop + Text.byteSize e.chars) l more

/-- A source text. -/
structure Source where
  text : String
  deriving DecidableEq, Repr

namespace Source

/-- The lines of the text, without their ends. -/
def lines (s : Source) : List String :=
  (Lines.ofChars s.text.toList).contents.map String.ofList

/-- How many lines there are: one more than there are line ends. -/
def lineCount (s : Source) : Nat :=
  s.lines.length

/-- The line with number `n`, counted from 0. -/
def line? (s : Source) (n : Nat) : Option String :=
  s.lines[n]?

/-- Where each line stands in the UTF-8 bytes of the text. -/
def extents (s : Source) : List Extent :=
  let ls := Lines.ofChars s.text.toList
  Lines.extentsFrom 0 ls.first ls.more

theorem lineCount_pos (s : Source) : 0 < s.lineCount := by
  simp [lineCount, lines, Lines.contents]

theorem line?_eq_none_iff {s : Source} {n : Nat} : s.line? n = none ↔ s.lineCount ≤ n := by
  simp [line?, lineCount]

end Source

example : (Source.mk "a\r\n\rb\n").lines = ["a", "", "b", ""] := by decide

example : (Source.mk "é\r\nb").extents = [⟨0, 2⟩, ⟨4, 5⟩] := by decide

end KnownIssues
