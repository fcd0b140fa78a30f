import KnownIssues.Json.Numeral
import KnownIssues.Json.Text

/-!
# Values that do not matter

The value of a member whose name a record does not know is passed over.  Its form is checked, but
not whether its numbers are in range or its surrogates come in pairs.

Values nest without bound, so passing one is a walk: a `Walk` is what the text owes next, together
with the lists and objects that are still open around it.  `Walk.step` takes one token or two and
always shortens the text (`Walk.length_step`); `Walk.run` steps until nothing is owed.
-/

namespace KnownIssues.Json

/-- What encloses values. -/
inductive Enclosure where
  | list
  | object
  deriving DecidableEq, Repr

/-- What the text owes next. -/
inductive Walk where
  /-- A value, inside the enclosures, the innermost first. -/
  | value (outer : List Enclosure)
  /-- The end of the innermost enclosure, or a comma and one more value in it. -/
  | rest (inner : Enclosure) (outer : List Enclosure)
  | done
  deriving DecidableEq, Repr

/-- Takes the colon behind a name. -/
def readColon (s : Input) : Except Failure Input :=
  match skipGap s with
  | [] => .error (.here .endInObject [])
  | ':' :: r => .ok r
  | r => .error (.past .noColon r)

/-- Takes a name that does not matter, and its colon. -/
def passName (s : Input) : Except Failure Input :=
  match skipGap s with
  | [] => .error (.here .endInObject [])
  | '"' :: r =>
    match passText r with
    | .ok r => readColon r
    | .error e => .error e
  | r => .error (.past .nameNotText r)

theorem length_readColon {s r : Input} (h : readColon s = .ok r) : r.length < s.length := by
  unfold readColon at h
  split at h
  next => cases h
  next hs => cases h; exact length_lt_of_skipGap hs
  next => cases h

theorem length_passName {s r : Input} (h : passName s = .ok r) : r.length < s.length := by
  unfold passName at h
  split at h
  next => cases h
  next hs =>
    have := length_lt_of_skipGap hs
    split at h
    next ht =>
      have := length_passText ht
      have := length_readColon h
      omega
    next => cases h
  next => cases h

namespace Walk

/-- What is owed after a value. -/
def after : List Enclosure → Walk
  | [] => done
  | e :: outer => rest e outer

/-- Takes what stands behind the opening bracket of a list, up to its first value. -/
def enterList (outer : List Enclosure) (s : Input) : Except Failure (Walk × Input) :=
  match skipGap s with
  | [] => .error (.here .endInList [])
  | ']' :: r => .ok (after outer, r)
  | r => .ok (value (.list :: outer), r)

/-- Takes what stands behind the opening brace of an object, up to its first value. -/
def enterObject (outer : List Enclosure) (s : Input) : Except Failure (Walk × Input) :=
  match skipGap s with
  | [] => .error (.here .endInObject [])
  | '\x7d' :: r => .ok (after outer, r)
  | r =>
    match passName r with
    | .ok r => .ok (value (.object :: outer), r)
    | .error e => .error e

/-- Takes the word of a value that is one. -/
def passWord (outer : List Enclosure) (word : List Char) (s : Input) :
    Except Failure (Walk × Input) :=
  match readWord word s with
  | .ok r => .ok (after outer, r)
  | .error e => .error e

/-- Takes the beginning of a value. -/
def stepValue (outer : List Enclosure) (s : Input) : Except Failure (Walk × Input) :=
  match skipGap s with
  | [] => .error (.here .endInValue [])
  | '[' :: r => enterList outer r
  | '\x7b' :: r => enterObject outer r
  | 'n' :: r => passWord outer ['u', 'l', 'l'] r
  | 't' :: r => passWord outer ['r', 'u', 'e'] r
  | 'f' :: r => passWord outer ['a', 'l', 's', 'e'] r
  | '"' :: r =>
    match passText r with
    | .ok r => .ok (after outer, r)
    | .error e => .error e
  | c :: r =>
    if startsNumeral c then
      match readNumeral .badNumber (c :: r) with
      | .ok (_, r) => .ok (after outer, r)
      | .error e => .error e
    else .error (.past .noValue (c :: r))

/-- Takes the end of an enclosure, or a comma and what leads up to the next value. -/
def stepRest (inner : Enclosure) (outer : List Enclosure) (s : Input) :
    Except Failure (Walk × Input) :=
  match inner with
  | .list =>
    match skipGap s with
    | [] => .error (.here .endInList [])
    | ']' :: r => .ok (after outer, r)
    | ',' :: r => .ok (value (.list :: outer), r)
    | r => .error (.past .noCommaInList r)
  | .object =>
    match skipGap s with
    | [] => .error (.here .endInObject [])
    | '\x7d' :: r => .ok (after outer, r)
    | ',' :: r =>
      match passName r with
      | .ok r => .ok (value (.object :: outer), r)
      | .error e => .error e
    | r => .error (.past .noCommaInObject r)

/-- Goes on by a token or two. -/
def step : Walk → Input → Except Failure (Walk × Input)
  | value outer, s => stepValue outer s
  | rest inner outer, s => stepRest inner outer s
  | done, _ => .error (.here .noValue [])

/-! ### Each step shortens the text -/

theorem length_enterList_le {outer : List Enclosure} {s r : Input} {w : Walk}
    (h : enterList outer s = .ok (w, r)) : r.length ≤ s.length := by
  have := length_skipGap_le s
  unfold enterList at h
  split at h
  next => cases h
  next hs => cases h; exact Nat.le_of_lt (length_lt_of_skipGap hs)
  next => cases h; exact this

theorem length_enterObject_le {outer : List Enclosure} {s r : Input} {w : Walk}
    (h : enterObject outer s = .ok (w, r)) : r.length ≤ s.length := by
  have := length_skipGap_le s
  unfold enterObject at h
  split at h
  next => cases h
  next hs => cases h; exact Nat.le_of_lt (length_lt_of_skipGap hs)
  next =>
    split at h
    next hn => cases h; have := length_passName hn; omega
    next => cases h

theorem length_passWord_le {outer : List Enclosure} {word : List Char} {s r : Input} {w : Walk}
    (h : passWord outer word s = .ok (w, r)) : r.length ≤ s.length := by
  unfold passWord at h
  split at h
  next hw => cases h; exact length_readWord_le hw
  next => cases h

theorem length_stepValue {outer : List Enclosure} {s r : Input} {w : Walk}
    (h : stepValue outer s = .ok (w, r)) : r.length < s.length := by
  have hgap := length_skipGap_le s
  unfold stepValue at h
  split at h
  next => cases h
  next hs => exact Nat.lt_of_le_of_lt (length_enterList_le h) (length_lt_of_skipGap hs)
  next hs => exact Nat.lt_of_le_of_lt (length_enterObject_le h) (length_lt_of_skipGap hs)
  next hs => exact Nat.lt_of_le_of_lt (length_passWord_le h) (length_lt_of_skipGap hs)
  next hs => exact Nat.lt_of_le_of_lt (length_passWord_le h) (length_lt_of_skipGap hs)
  next hs => exact Nat.lt_of_le_of_lt (length_passWord_le h) (length_lt_of_skipGap hs)
  next hs =>
    split at h
    next ht => cases h; exact Nat.lt_trans (length_passText ht) (length_lt_of_skipGap hs)
    next => cases h
  next hs =>
    rw [hs] at hgap
    split at h
    next =>
      split at h
      next hn => cases h; exact Nat.lt_of_lt_of_le (length_readNumeral hn) hgap
      next => cases h
    next => cases h

theorem length_stepRest {inner : Enclosure} {outer : List Enclosure} {s r : Input} {w : Walk}
    (h : stepRest inner outer s = .ok (w, r)) : r.length < s.length := by
  unfold stepRest at h
  split at h
  next =>
    split at h
    next => cases h
    next hs => cases h; exact length_lt_of_skipGap hs
    next hs => cases h; exact length_lt_of_skipGap hs
    next => cases h
  next =>
    split at h
    next => cases h
    next hs => cases h; exact length_lt_of_skipGap hs
    next hs =>
      split at h
      next hn => cases h; exact Nat.lt_trans (length_passName hn) (length_lt_of_skipGap hs)
      next => cases h
    next => cases h

theorem length_step {w w' : Walk} {s r : Input} (h : w.step s = .ok (w', r)) :
    r.length < s.length := by
  cases w with
  | value outer => exact length_stepValue h
  | rest inner outer => exact length_stepRest h
  | done => cases h

/-- Goes on until nothing is owed. -/
def run (w : Walk) (s : Input) : Except Failure Input :=
  if w = done then .ok s
  else
    match _h : w.step s with
    | .ok (w', r) => run w' r
    | .error e => .error e
termination_by s.length
decreasing_by exact length_step _h

theorem length_run_le {w : Walk} {s r : Input} (h : w.run s = .ok r) : r.length ≤ s.length := by
  fun_induction run w s with
  | case1 => cases h; exact Nat.le_refl _
  | case2 =>
    rename_i ih
    have := ih h
    have := length_step ‹step _ _ = _›
    omega
  | case3 => cases h

end Walk

/-- Takes a value that does not matter. -/
def passValue (s : Input) : Except Failure Input :=
  (Walk.value []).run s

theorem length_passValue {s r : Input} (h : passValue s = .ok r) : r.length < s.length := by
  unfold passValue Walk.run at h
  rw [if_neg (by simp)] at h
  split at h
  next hs => exact Nat.lt_of_le_of_lt (Walk.length_run_le h) (Walk.length_step hs)
  next => cases h

end KnownIssues.Json
