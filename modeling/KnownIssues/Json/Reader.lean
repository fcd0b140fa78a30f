import KnownIssues.Json.Fault
import KnownIssues.Text.Utf8

/-!
# Readers

A reader takes a value off the front of the characters that are left, or fails at a place among
them.  It always takes at least one character (`Reader.shrinks`), so that whatever is read again
and again comes to an end.

A failure remembers how many bytes of the text stand behind its place: `Failure.here` is the place
before the given characters, and `Failure.past` the place one byte further on, or the end.
`Reader.decode` reads a whole text and turns that number into a line and a column.
-/

namespace KnownIssues.Json

/-- The characters that are left. -/
abbrev Input := List Char

/-- A cause, and how many bytes stand behind its place. -/
structure Failure where
  cause : Cause
  left : Nat
  deriving DecidableEq, Repr

namespace Failure

/-- A failure before the given characters. -/
def here (cause : Cause) (s : Input) : Failure :=
  ⟨cause, Text.byteSize s⟩

/-- A failure one byte into the given characters, or at the end. -/
def past (cause : Cause) (s : Input) : Failure :=
  ⟨cause, Text.byteSize s - 1⟩

/-- The fault in the whole text. -/
def locate (f : Failure) (text : String) : Fault :=
  let bytes := Text.encode text
  f.cause.after (bytes.take (bytes.length - f.left))

end Failure

/-- Takes a value off the front of the characters that are left. -/
structure Reader (α : Type) where
  run : Input → Except Failure (α × Input)
  shrinks : ∀ {s : Input} {a : α} {r : Input}, run s = .ok (a, r) → r.length < s.length

/-! ### Blanks and words -/

/-- The blanks that may stand between tokens. -/
def isGap (c : Char) : Bool :=
  c == ' ' || c == '\n' || c == '\t' || c == '\r'

/-- What is left after blanks. -/
def skipGap (s : Input) : Input :=
  s.dropWhile isGap

/-- Takes the characters of a word. -/
def readWord : List Char → Input → Except Failure Input
  | [], s => .ok s
  | _ :: _, [] => .error (.here .endInValue [])
  | w :: ws, c :: s => if c = w then readWord ws s else .error (.past .badWord (c :: s))

theorem length_dropWhile_le (p : Char → Bool) (s : List Char) :
    (s.dropWhile p).length ≤ s.length :=
  (List.dropWhile_suffix p).length_le

theorem length_skipGap_le (s : Input) : (skipGap s).length ≤ s.length :=
  length_dropWhile_le isGap s

theorem length_lt_of_skipGap {s r : Input} {c : Char} (h : skipGap s = c :: r) :
    r.length < s.length := by
  have := length_skipGap_le s
  rw [h, List.length_cons] at this
  omega

theorem eq_append_of_readWord {w s r : List Char} (h : readWord w s = .ok r) : s = w ++ r := by
  induction w generalizing s with
  | nil => cases h; rfl
  | cons x w ih =>
    cases s with
    | nil => cases h
    | cons c s =>
      unfold readWord at h
      split at h
      next hc => rw [hc, ih h]; rfl
      next => cases h

@[simp] theorem readWord_append (w r : List Char) : readWord w (w ++ r) = .ok r := by
  induction w with
  | nil => rfl
  | cons x w ih => simp [readWord, ih]

theorem length_readWord_le {w s r : List Char} (h : readWord w s = .ok r) :
    r.length ≤ s.length := by
  rw [eq_append_of_readWord h, List.length_append]
  omega

namespace Reader

variable {α β : Type}

/-- The reader whose values are passed through a function. -/
def map (f : α → β) (p : Reader α) : Reader β where
  run s :=
    match p.run s with
    | .ok (a, r) => .ok (f a, r)
    | .error e => .error e
  shrinks h := by
    split at h
    next hp => cases h; exact p.shrinks hp
    next => cases h

/-- Reads `null` as no value, and everything else as `p` does. -/
def orNull (p : Reader α) : Reader (Option α) where
  run s :=
    match skipGap s with
    | 'n' :: r =>
      match readWord ['u', 'l', 'l'] r with
      | .ok r => .ok (none, r)
      | .error e => .error e
    | _ =>
      match p.run s with
      | .ok (a, r) => .ok (some a, r)
      | .error e => .error e
  shrinks {s _ _} h := by
    split at h
    next hs =>
      split at h
      next hw =>
        cases h
        have := length_lt_of_skipGap hs
        have := length_readWord_le hw
        omega
      next => cases h
    next =>
      split at h
      next hp => cases h; exact p.shrinks hp
      next => cases h

/-- Reads a whole text: one value, with blanks around it. -/
def decode (p : Reader α) (text : String) : Except Fault α :=
  match p.run text.toList with
  | .error f => .error (f.locate text)
  | .ok (a, r) =>
    match skipGap r with
    | [] => .ok a
    | r => .error ((Failure.past .trailingCharacters r).locate text)

end Reader

end KnownIssues.Json
