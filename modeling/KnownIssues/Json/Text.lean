import KnownIssues.Json.Reader
import KnownIssues.Text.Hex

/-!
# JSON strings

`quote` writes a text between double quotes: quote and backslash follow a backslash, five control
characters have a letter, the others below `U+0020` four hexadecimal digits, and everything else
stands for itself.

`readText` reads a string with any of the escapes, where a character above `U+FFFF` takes two
surrogates.  `passText` takes a string whose content does not matter, and then does not look at
surrogates.  Both are `body` with another reader for the escapes.
-/

namespace KnownIssues.Json

/-! ### Writing -/

/-- The written form of a character in a string. -/
def escape (c : Char) : List Char :=
  match c with
  | '"' => ['\\', '"']
  | '\\' => ['\\', '\\']
  | '\x08' => ['\\', 'b']
  | '\t' => ['\\', 't']
  | '\n' => ['\\', 'n']
  | '\x0c' => ['\\', 'f']
  | '\r' => ['\\', 'r']
  | c =>
    if c.toNat < 0x20 then ['\\', 'u', '0', '0'] ++ Text.Hex.lower (UInt8.ofNat c.toNat) else [c]

/-- The string that stands for a text. -/
def quote (s : String) : List Char :=
  '"' :: s.toList.flatMap escape ++ ['"']

/-! ### Escapes -/

/-- The character of an escape that is a letter or a mark. -/
def shortEscape? : Char → Option Char
  | '"' => some '"'
  | '\\' => some '\\'
  | '/' => some '/'
  | 'b' => some '\x08'
  | 'f' => some '\x0c'
  | 'n' => some '\n'
  | 'r' => some '\r'
  | 't' => some '\t'
  | _ => none

/-- Four bytes that are no hexadecimal digits are refused at their end, fewer at the end of the
text. -/
def Failure.notHex4 (s : Input) : Failure :=
  if Text.byteSize s < 4 then ⟨.endInText, 0⟩ else ⟨.badEscape, Text.byteSize s - 4⟩

/-- Takes four hexadecimal digits. -/
def readHex4 (s : Input) : Except Failure (Nat × Input) :=
  match s with
  | a :: b :: c :: d :: r =>
    match Text.Hex.value4? a b c d with
    | some n => .ok (n, r)
    | none => .error (.notHex4 s)
  | _ => .error (.notHex4 s)

/-- The first of two surrogates. -/
def isHighSurrogate (n : Nat) : Bool :=
  0xD800 ≤ n && n ≤ 0xDBFF

/-- The second of two surrogates. -/
def isLowSurrogate (n : Nat) : Bool :=
  0xDC00 ≤ n && n ≤ 0xDFFF

/-- Takes the escape of the second surrogate, `high` being the first. -/
def readLowHalf (high : Nat) : Input → Except Failure (Char × Input)
  | [] => .error (.here .endInText [])
  | '\\' :: [] => .error (.here .endInText [])
  | '\\' :: 'u' :: r =>
    match readHex4 r with
    | .error e => .error e
    | .ok (low, r) =>
      if isLowSurrogate low then
        .ok (Char.ofNat (0x10000 + (high - 0xD800) * 0x400 + (low - 0xDC00)), r)
      else .error (.here .loneSurrogate r)
  | '\\' :: c :: r => .error (.past .halfPair (c :: r))
  | c :: r => .error (.past .halfPair (c :: r))

/-- Takes what follows the backslash of an escape. -/
def readEscape : Input → Except Failure (Char × Input)
  | [] => .error (.here .endInText [])
  | 'u' :: r =>
    match readHex4 r with
    | .error e => .error e
    | .ok (n, r) =>
      if isLowSurrogate n then .error (.here .loneSurrogate r)
      else if isHighSurrogate n then readLowHalf n r
      else .ok (Char.ofNat n, r)
  | c :: r =>
    match shortEscape? c with
    | some x => .ok (x, r)
    | none => .error (.past .badEscape (c :: r))

/-- Takes what follows the backslash of an escape that does not matter. -/
def passEscape : Input → Except Failure (Unit × Input)
  | [] => .error (.here .endInText [])
  | 'u' :: r =>
    match readHex4 r with
    | .error e => .error e
    | .ok (_, r) => .ok ((), r)
  | c :: r => if (shortEscape? c).isSome then .ok ((), r) else .error (.past .badEscape (c :: r))

theorem length_readHex4 {s r : Input} {n : Nat} (h : readHex4 s = .ok (n, r)) :
    r.length < s.length := by
  unfold readHex4 at h
  split at h
  next =>
    split at h
    next =>
      cases h
      simp only [List.length_cons]
      omega
    next => cases h
  next => cases h

theorem length_readLowHalf {high : Nat} {s r : Input} {c : Char}
    (h : readLowHalf high s = .ok (c, r)) : r.length < s.length := by
  unfold readLowHalf at h
  split at h
  next => cases h
  next => cases h
  next =>
    split at h
    next => cases h
    next hx =>
      split at h
      next =>
        rw [Except.ok.injEq, Prod.mk.injEq] at h
        have := length_readHex4 hx
        rw [← h.2]
        simp only [List.length_cons]
        omega
      next => cases h
  next => cases h
  next => cases h

theorem length_readEscape {s r : Input} {c : Char} (h : readEscape s = .ok (c, r)) :
    r.length < s.length := by
  unfold readEscape at h
  split at h
  next => cases h
  next =>
    split at h
    next => cases h
    next hx =>
      have hlen := length_readHex4 hx
      split at h
      next => cases h
      next =>
        split at h
        next =>
          have := length_readLowHalf h
          simp only [List.length_cons]
          omega
        next =>
          cases h
          simp only [List.length_cons]
          omega
  next =>
    split at h
    next => cases h; simp
    next => cases h

theorem length_passEscape {s r : Input} {u : Unit} (h : passEscape s = .ok (u, r)) :
    r.length < s.length := by
  unfold passEscape at h
  split at h
  next => cases h
  next =>
    split at h
    next => cases h
    next hx =>
      cases h
      have := length_readHex4 hx
      simp only [List.length_cons]
      omega
  next =>
    split at h
    next => cases h; simp
    next => cases h

/-! ### Strings -/

/-- How the inside of a string is taken: what an escape stands for, what another character stands
for, and how a control character is refused. -/
structure TextMode (α : Type) where
  escape : Reader α
  plain : Char → α
  control : Input → Failure

/-- Takes the inside of a string and the quote that ends it; `done` is what was taken before, the
last of it first. -/
def body {α : Type} (m : TextMode α) (done : List α) (s : Input) :
    Except Failure (List α × Input) :=
  match s with
  | [] => .error (.here .endInText [])
  | c :: r =>
    if c = '"' then .ok (done.reverse, r)
    else if c = '\\' then
      match _h : m.escape.run r with
      | .error e => .error e
      | .ok (x, r') => body m (x :: done) r'
    else if c.toNat < 0x20 then .error (m.control (c :: r))
    else body m (m.plain c :: done) r
termination_by s.length
decreasing_by
  · have := m.escape.shrinks _h
    simp only [List.length_cons]
    omega
  · simp

theorem length_body {α : Type} {m : TextMode α} {done xs : List α} {s r : Input}
    (h : body m done s = .ok (xs, r)) : r.length < s.length := by
  fun_induction body m done s with
  | case1 => cases h
  | case2 => cases h; simp
  | case3 => cases h
  | case4 =>
    rename_i ih
    have := ih h
    have := m.escape.shrinks ‹m.escape.run _ = _›
    simp only [List.length_cons]
    omega
  | case5 => cases h
  | case6 =>
    rename_i ih
    have := ih h
    simp only [List.length_cons]
    omega

/-- Strings whose characters matter. -/
def readMode : TextMode Char where
  escape := ⟨readEscape, length_readEscape⟩
  plain := id
  control := .past .controlCharacter

/-- Strings whose characters do not matter. -/
def passMode : TextMode Unit where
  escape := ⟨passEscape, length_passEscape⟩
  plain _ := ()
  control := .here .controlCharacter

/-- Takes a string behind its first quote. -/
def readText (s : Input) : Except Failure (String × Input) :=
  match body readMode [] s with
  | .ok (cs, r) => .ok (.ofList cs, r)
  | .error e => .error e

/-- Takes a string behind its first quote, whatever it holds. -/
def passText (s : Input) : Except Failure Input :=
  match body passMode [] s with
  | .ok (_, r) => .ok r
  | .error e => .error e

theorem length_readText {s r : Input} {t : String} (h : readText s = .ok (t, r)) :
    r.length < s.length := by
  unfold readText at h
  split at h
  next hb => cases h; exact length_body hb
  next => cases h

theorem length_passText {s r : Input} (h : passText s = .ok r) : r.length < s.length := by
  unfold passText at h
  split at h
  next hb => cases h; exact length_body hb
  next => cases h

end KnownIssues.Json
