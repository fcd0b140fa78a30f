import KnownIssues.Json.Passing
import KnownIssues.Json.Values

/-!
# Records

A record is written as an object with a member for each field, or as a list of its fields in order.
In an object the members come in any order; a name that the record does not know is passed over with
its value, and a name that it knows may stand once only.  A list may leave out fields at its end.

`Shape` says what there is to know of a record: its fields, each with its reader, and how a value is
built from the fields that were given.  What was given is kept in a draft of the type `δ`.
-/

namespace KnownIssues.Json

/-- A field of a record: its name, whether a draft has it, and the reader that puts it into a
draft. -/
structure Field (δ : Type) where
  name : String
  given : δ → Bool
  reader : Reader (δ → δ)

/-- A record with drafts in `δ` and values in `α`.  To build a value fails with the name of a field
that is missing. -/
structure Shape (δ α : Type) where
  name : String
  fields : List (Field δ)
  blank : δ
  build : δ → Except String α

variable {δ α : Type}

/-! ### Objects -/

/-- What comes next in an object. -/
inductive Member where
  /-- A name, which is taken, in front of its colon. -/
  | named (name : String) (rest : Input)
  /-- The closing brace, which is taken. -/
  | closed (rest : Input)

/-- Takes a name. -/
def readName (s : Input) : Except Failure Member :=
  match s with
  | '"' :: r =>
    match readText r with
    | .ok (name, r) => .ok (.named name r)
    | .error e => .error e
  | s => .error (.past .nameNotText s)

/-- Takes the name of the next member, behind the comma if it is not the first. -/
def nextMember (first : Bool) (s : Input) : Except Failure Member :=
  match skipGap s with
  | [] => .error (.here .endInObject [])
  | '\x7d' :: r => .ok (.closed r)
  | c :: r =>
    if first then readName (c :: r)
    else if c = ',' then
      match skipGap r with
      | [] => .error (.here .endInValue [])
      | '\x7d' :: r => .error (.past .trailingComma ('\x7d' :: r))
      | r => readName r
    else .error (.past .noCommaInObject (c :: r))

/-- What is left behind blanks and the closing brace, if it stands there. -/
def afterBrace (s : Input) : Input :=
  match skipGap s with
  | '\x7d' :: r => r
  | r => r

namespace Shape

/-- Takes the colon and the value of a member into the draft. -/
def readMember (shape : Shape δ α) (draft : δ) (name : String) (s : Input) :
    Except Failure (δ × Input) :=
  match shape.fields.find? (·.name == name) with
  | none =>
    match readColon s with
    | .error e => .error e
    | .ok r =>
      match passValue r with
      | .error e => .error e
      | .ok r => .ok (draft, r)
  | some f =>
    if f.given draft then .error (.here (.duplicateField f.name) (afterBrace s))
    else
      match readColon s with
      | .error e => .error e
      | .ok r =>
        match f.reader.run r with
        | .error e => .error e
        | .ok (put, r) => .ok (put draft, r)

theorem length_readMember {shape : Shape δ α} {draft draft' : δ} {name : String} {s r : Input}
    (h : shape.readMember draft name s = .ok (draft', r)) : r.length < s.length := by
  unfold readMember at h
  split at h
  next =>
    split at h
    next => cases h
    next hc =>
      split at h
      next => cases h
      next hv => cases h; exact Nat.lt_trans (length_passValue hv) (length_readColon hc)
  next f _ =>
    split at h
    next => cases h
    next =>
      split at h
      next => cases h
      next hc =>
        split at h
        next => cases h
        next hv => cases h; exact Nat.lt_trans (f.reader.shrinks hv) (length_readColon hc)

end Shape

theorem length_readName {s r : Input} {name : String} (h : readName s = .ok (.named name r)) :
    r.length < s.length := by
  unfold readName at h
  split at h
  next =>
    split at h
    next ht =>
      cases h
      have := length_readText ht
      simp only [List.length_cons]
      omega
    next => cases h
  next => cases h

theorem readName_ne_closed {s r : Input} : readName s ≠ .ok (.closed r) := by
  intro h
  unfold readName at h
  split at h
  next => split at h <;> cases h
  next => cases h

theorem length_nextMember_named {first : Bool} {s r : Input} {name : String}
    (h : nextMember first s = .ok (.named name r)) : r.length < s.length := by
  unfold nextMember at h
  split at h
  next => cases h
  next => cases h
  next c t _ hs =>
    have hgap := length_skipGap_le s
    rw [hs] at hgap
    split at h
    next => exact Nat.lt_of_lt_of_le (length_readName h) hgap
    next =>
      split at h
      next =>
        split at h
        next => cases h
        next => cases h
        next =>
          have := length_readName h
          have := length_skipGap_le t
          have := length_lt_of_skipGap hs
          omega
      next => cases h

theorem length_nextMember_closed {first : Bool} {s r : Input}
    (h : nextMember first s = .ok (.closed r)) : r.length < s.length := by
  unfold nextMember at h
  split at h
  next => cases h
  next hs => cases h; exact length_lt_of_skipGap hs
  next =>
    split at h
    next => exact absurd h readName_ne_closed
    next =>
      split at h
      next =>
        split at h
        next => cases h
        next => cases h
        next => exact absurd h readName_ne_closed
      next => cases h

namespace Shape

/-- Takes the members of an object and its closing brace. -/
def readMembers (shape : Shape δ α) (first : Bool) (draft : δ) (s : Input) :
    Except Failure (α × Input) :=
  match _h : nextMember first s with
  | .error e => .error e
  | .ok (.closed r) =>
    match shape.build draft with
    | .ok a => .ok (a, r)
    | .error name => .error (.here (.missingField name) r)
  | .ok (.named name r) =>
    match _h' : shape.readMember draft name r with
    | .error e => .error e
    | .ok (draft', r') => readMembers shape false draft' r'
termination_by s.length
decreasing_by exact Nat.lt_trans (length_readMember _h') (length_nextMember_named _h)

theorem length_readMembers {shape : Shape δ α} {first : Bool} {draft : δ} {s r : Input} {a : α}
    (h : shape.readMembers first draft s = .ok (a, r)) : r.length < s.length := by
  fun_induction readMembers shape first draft s with
  | case1 => cases h
  | case2 => cases h; exact length_nextMember_closed ‹nextMember _ _ = _›
  | case3 => cases h
  | case4 => cases h
  | case5 =>
    rename_i ih
    have := ih h
    have := length_readMember ‹readMember _ _ _ _ = _›
    have := length_nextMember_named ‹nextMember _ _ = _›
    omega

/-! ### Lists of fields -/

/-- Takes the end of a list whose fields are all there. -/
def readEnd (s : Input) : Except Failure Input :=
  match skipGap s with
  | [] => .error (.here .endInList [])
  | ']' :: r => .ok r
  | ',' :: r =>
    match skipGap r with
    | ']' :: r => .error (.past .trailingComma (']' :: r))
    | r => .error (.past .trailingCharacters r)
  | r => .error (.past .trailingCharacters r)

/-- The value of a draft, or how it is refused if the list was too short for it. -/
def buildShort (shape : Shape δ α) (draft : δ) : Except Cause α :=
  match shape.build draft with
  | .ok a => .ok a
  | .error name =>
    .error (.tooShort (shape.fields.findIdx (·.name == name)) shape.name shape.fields.length)

/-- Takes the given fields, as many as there are, and the closing bracket. -/
def readFields (shape : Shape δ α) : List (Field δ) → Bool → δ → Input →
    Except Failure (α × Input)
  | [], _, draft, s =>
    match readEnd s with
    | .error e => .error e
    | .ok r =>
      match shape.buildShort draft with
      | .ok a => .ok (a, r)
      | .error cause => .error (.here cause r)
  | f :: fs, first, draft, s =>
    match nextElement first s with
    | .error e => .error e
    | .ok (.closed r) =>
      match shape.buildShort draft with
      | .ok a => .ok (a, r)
      | .error cause => .error (.here cause r)
    | .ok (.more r) =>
      match f.reader.run r with
      | .error e => .error e
      | .ok (put, r) => readFields shape fs false (put draft) r

theorem length_readEnd {s r : Input} (h : readEnd s = .ok r) : r.length < s.length := by
  unfold readEnd at h
  split at h
  next => cases h
  next hs => cases h; exact length_lt_of_skipGap hs
  next => split at h <;> cases h
  next => cases h

theorem length_readFields {shape : Shape δ α} {fs : List (Field δ)} {first : Bool} {draft : δ}
    {s r : Input} {a : α} (h : shape.readFields fs first draft s = .ok (a, r)) :
    r.length < s.length := by
  induction fs generalizing first draft s with
  | nil =>
    unfold readFields at h
    split at h
    next => cases h
    next he =>
      split at h
      next => cases h; exact length_readEnd he
      next => cases h
  | cons f fs ih =>
    unfold readFields at h
    split at h
    next => cases h
    next he =>
      split at h
      next => cases h; exact length_nextElement_closed he
      next => cases h
    next he =>
      split at h
      next => cases h
      next hf =>
        have := ih h
        have := f.reader.shrinks hf
        have := length_nextElement_le he
        omega

end Shape

/-- Reads a record. -/
def Reader.record (shape : Shape δ α) : Reader α where
  run s :=
    match skipGap s with
    | '\x7b' :: r => shape.readMembers true shape.blank r
    | '[' :: r => shape.readFields shape.fields true shape.blank r
    | r => .error (mismatch ("struct " ++ shape.name) r)
  shrinks {s _ _} h := by
    split at h
    next hs => exact Nat.lt_trans (Shape.length_readMembers h) (length_lt_of_skipGap hs)
    next hs => exact Nat.lt_trans (Shape.length_readFields h) (length_lt_of_skipGap hs)
    next => cases h

end KnownIssues.Json
