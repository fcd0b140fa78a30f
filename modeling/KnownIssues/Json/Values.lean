import KnownIssues.Json.Numeral
import KnownIssues.Json.Text

/-!
# Values of a given kind

Readers for texts, for words of 64 bits and for lists.  A value of another kind is taken as far as
is needed to say what it is (`mismatch`), so a value that is not even well formed is refused for its
form.
-/

namespace KnownIssues.Json

/-! ### Values of the wrong kind -/

/-- The failure if the word does not follow, or else what was found. -/
def mismatchWord (found : Found) (expected : String) (word : List Char) (s : Input) : Failure :=
  match readWord word s with
  | .ok r => .here (.wrongKind found expected) r
  | .error e => e

/-- How a value that is none of the expected kind is refused. -/
def mismatch (expected : String) (s : Input) : Failure :=
  match s with
  | [] => .here .endInValue []
  | 'n' :: r => mismatchWord .null expected ['u', 'l', 'l'] r
  | 't' :: r => mismatchWord (.boolean true) expected ['r', 'u', 'e'] r
  | 'f' :: r => mismatchWord (.boolean false) expected ['a', 'l', 's', 'e'] r
  | '"' :: r =>
    match readText r with
    | .ok (t, r) => .here (.wrongKind (.text t) expected) r
    | .error e => e
  | '[' :: r => .here (.wrongKind .list expected) ('[' :: r)
  | '\x7b' :: r => .here (.wrongKind .object expected) ('\x7b' :: r)
  | c :: r =>
    if startsNumeral c then
      match readNumber (c :: r) with
      | .ok (x, r) => .here (.wrongKind x.found expected) r
      | .error e => e
    else .past .noValue (c :: r)

/-! ### Texts and words -/

namespace Reader

/-- Reads a text. -/
def text : Reader String where
  run s :=
    match skipGap s with
    | '"' :: r => readText r
    | r => .error (mismatch "a string" r)
  shrinks {s _ _} h := by
    split at h
    next hs => exact Nat.lt_trans (length_readText h) (length_lt_of_skipGap hs)
    next => cases h

/-- The word that a number is, or how it is refused. -/
def wordOf (x : Number) : Except Cause UInt64 :=
  match x with
  | .integer (.ofNat n) => .ok (UInt64.ofNat n)
  | .integer n => .error (.wrongValue (.integer n) "usize")
  | .real y => .error (.wrongKind (Number.real y).found "usize")

/-- Reads a whole number from 0 to `2 ^ 64 - 1`. -/
def word : Reader UInt64 where
  run s :=
    match skipGap s with
    | c :: r =>
      if startsNumeral c then
        match readNumber (c :: r) with
        | .error e => .error e
        | .ok (x, r) =>
          match wordOf x with
          | .ok n => .ok (n, r)
          | .error cause => .error (.here cause r)
      else .error (mismatch "usize" (c :: r))
    | [] => .error (mismatch "usize" [])
  shrinks {s _ _} h := by
    have hgap := length_skipGap_le s
    split at h
    next hs =>
      rw [hs] at hgap
      split at h
      next =>
        split at h
        next => cases h
        next hn =>
          split at h
          next => cases h; exact Nat.lt_of_lt_of_le (length_readNumber hn) hgap
          next => cases h
      next => cases h
    next => cases h

end Reader

/-! ### Lists -/

/-- What comes next in a list. -/
inductive Element where
  /-- An element, at the front of what is left. -/
  | more (rest : Input)
  /-- The closing bracket, which is taken. -/
  | closed (rest : Input)

/-- Finds the next element of a list, behind the comma if it is not the first. -/
def nextElement (first : Bool) (s : Input) : Except Failure Element :=
  match skipGap s with
  | [] => .error (.here .endInList [])
  | ']' :: r => .ok (.closed r)
  | c :: r =>
    if first then .ok (.more (c :: r))
    else if c = ',' then
      match skipGap r with
      | [] => .error (.here .endInValue [])
      | ']' :: r => .error (.past .trailingComma (']' :: r))
      | r => .ok (.more r)
    else .error (.past .noCommaInList (c :: r))

theorem length_nextElement_le {first : Bool} {s r : Input}
    (h : nextElement first s = .ok (.more r)) : r.length ≤ s.length := by
  unfold nextElement at h
  split at h
  next => cases h
  next => cases h
  next hs =>
    have hgap := length_skipGap_le s
    split at h
    next => cases h; rwa [hs] at hgap
    next =>
      split at h
      next =>
        split at h
        next => cases h
        next => cases h
        next =>
          cases h
          exact Nat.le_trans (length_skipGap_le _) (Nat.le_of_lt (length_lt_of_skipGap hs))
      next => cases h

theorem length_nextElement_closed {first : Bool} {s r : Input}
    (h : nextElement first s = .ok (.closed r)) : r.length < s.length := by
  unfold nextElement at h
  split at h
  next => cases h
  next hs => cases h; exact length_lt_of_skipGap hs
  next =>
    split at h
    next => cases h
    next =>
      split at h
      next => split at h <;> cases h
      next => cases h

/-- Takes the elements of a list and its closing bracket; `done` is what was taken before, the last
of it first. -/
def readElements {α : Type} (p : Reader α) (done : List α) (s : Input) :
    Except Failure (List α × Input) :=
  match _h : nextElement done.isEmpty s with
  | .error e => .error e
  | .ok (.closed r) => .ok (done.reverse, r)
  | .ok (.more r) =>
    match _h' : p.run r with
    | .error e => .error e
    | .ok (a, r') => readElements p (a :: done) r'
termination_by s.length
decreasing_by exact Nat.lt_of_lt_of_le (p.shrinks _h') (length_nextElement_le _h)

theorem length_readElements {α : Type} {p : Reader α} {done as : List α} {s r : Input}
    (h : readElements p done s = .ok (as, r)) : r.length < s.length := by
  fun_induction readElements p done s with
  | case1 => cases h
  | case2 => cases h; exact length_nextElement_closed ‹_›
  | case3 => cases h
  | case4 =>
    rename_i ih
    have := ih h
    have := p.shrinks ‹p.run _ = _›
    have := length_nextElement_le ‹nextElement _ _ = _›
    omega

/-- Reads a list. -/
def Reader.list {α : Type} (p : Reader α) : Reader (List α) where
  run s :=
    match skipGap s with
    | '[' :: r => readElements p [] r
    | r => .error (mismatch "a sequence" r)
  shrinks {s _ _} h := by
    split at h
    next hs => exact Nat.lt_trans (length_readElements h) (length_lt_of_skipGap hs)
    next => cases h

end KnownIssues.Json
