import KnownIssues.Decimal.Shortest
import KnownIssues.Json.Reader

/-!
# JSON numbers

A number in the text is a `Numeral`: a sign, the digits of the whole part, those of the fraction,
and a power of ten.  `readNumeral` takes one; `Numeral.value?` says which number it is.

Without a fraction or an exponent it is an integer, as long as that fits 64 bits, unsigned or with a
sign.  Everything else is a double: the leading digits that fit 64 bits, as a double, times or
divided by a power of ten, in the arithmetic of doubles (`Numeral.real?`).

A number other than zero is too large as soon as its power of ten has passed `maxPower`: the digits
of the power that come behind are not looked at (`Numeral.unread?`).
-/

namespace KnownIssues.Json

/-- A power of ten as it stands in the text. -/
structure Power where
  negative : Bool
  digits : List Char
  deriving DecidableEq, Repr

/-- A number as it stands in the text. -/
structure Numeral where
  negative : Bool
  whole : List Char
  fraction : List Char
  power : Option Power
  deriving DecidableEq, Repr

/-- What a numeral stands for. -/
inductive Number where
  | integer (n : Int)
  | real (x : Float)

/-! ### Taking a numeral -/

/-- The digits at the front. -/
def digits (s : Input) : List Char :=
  s.takeWhile Char.isDigit

/-- What stands behind the digits at the front. -/
def afterDigits (s : Input) : Input :=
  s.dropWhile Char.isDigit

/-- Takes the whole part.  It has no leading zero; `atEnd` is the cause if the text ends here. -/
def readWhole (atEnd : Cause) : Input → Except Failure (List Char × Input)
  | [] => .error (.here atEnd [])
  | c :: r =>
    if c = '0' then
      if digits r = [] then .ok (['0'], r) else .error (.past .badNumber r)
    else if c.isDigit then .ok (c :: digits r, afterDigits r)
    else .error (.past .badNumber (c :: r))

/-- Takes the fraction, if there is one. -/
def readFraction (atEnd : Cause) (s : Input) : Except Failure (List Char × Input) :=
  match s with
  | '.' :: [] => .error (.here atEnd [])
  | '.' :: r =>
    if digits r = [] then .error (.past .badNumber r) else .ok (digits r, afterDigits r)
  | s => .ok ([], s)

/-- Takes the digits of a power of ten. -/
def readPower (atEnd : Cause) (negative : Bool) : Input → Except Failure (Option Power × Input)
  | [] => .error (.here atEnd [])
  | c :: r =>
    if c.isDigit then .ok (some ⟨negative, c :: digits r⟩, afterDigits r)
    else .error (.past .badNumber (c :: r))

/-- Takes the exponent, if there is one. -/
def readExponent (atEnd : Cause) (s : Input) : Except Failure (Option Power × Input) :=
  match s with
  | c :: r =>
    if c = 'e' ∨ c = 'E' then
      match r with
      | '+' :: r => readPower atEnd false r
      | '-' :: r => readPower atEnd true r
      | r => readPower atEnd false r
    else .ok (none, s)
  | [] => .ok (none, [])

/-- Takes a numeral without its sign. -/
def readUnsigned (atEnd : Cause) (negative : Bool) (s : Input) :
    Except Failure (Numeral × Input) :=
  match readWhole atEnd s with
  | .error e => .error e
  | .ok (whole, r) =>
    match readFraction atEnd r with
    | .error e => .error e
    | .ok (fraction, r) =>
      match readExponent atEnd r with
      | .error e => .error e
      | .ok (power, r) => .ok (⟨negative, whole, fraction, power⟩, r)

/-- Takes a numeral; `atEnd` is the cause if the text ends within it. -/
def readNumeral (atEnd : Cause) (s : Input) : Except Failure (Numeral × Input) :=
  match s with
  | '-' :: r => readUnsigned atEnd true r
  | s => readUnsigned atEnd false s

/-- A character that a numeral begins with. -/
def startsNumeral (c : Char) : Bool :=
  c == '-' || c.isDigit

theorem length_afterDigits_le (s : Input) : (afterDigits s).length ≤ s.length :=
  length_dropWhile_le Char.isDigit s

theorem length_readWhole {atEnd : Cause} {s r : Input} {ds : List Char}
    (h : readWhole atEnd s = .ok (ds, r)) : r.length < s.length := by
  unfold readWhole at h
  split at h
  next => cases h
  next c s =>
    have := length_afterDigits_le s
    simp only [List.length_cons]
    split at h
    next =>
      split at h
      next => cases h; omega
      next => cases h
    next =>
      split at h
      next => cases h; omega
      next => cases h

theorem length_readFraction_le {atEnd : Cause} {s r : Input} {ds : List Char}
    (h : readFraction atEnd s = .ok (ds, r)) : r.length ≤ s.length := by
  unfold readFraction at h
  split at h
  next => cases h
  next s _ =>
    have := length_afterDigits_le s
    simp only [List.length_cons]
    split at h
    next => cases h
    next => cases h; omega
  next => cases h; exact Nat.le_refl _

theorem length_readPower {atEnd : Cause} {b : Bool} {s r : Input} {p : Option Power}
    (h : readPower atEnd b s = .ok (p, r)) : r.length < s.length := by
  unfold readPower at h
  split at h
  next => cases h
  next c s =>
    have := length_afterDigits_le s
    simp only [List.length_cons]
    split at h
    next => cases h; omega
    next => cases h

theorem length_readExponent_le {atEnd : Cause} {s r : Input} {p : Option Power}
    (h : readExponent atEnd s = .ok (p, r)) : r.length ≤ s.length := by
  unfold readExponent at h
  split at h
  next =>
    split at h
    next =>
      split at h
      next => have := length_readPower h; simp only [List.length_cons]; omega
      next => have := length_readPower h; simp only [List.length_cons]; omega
      next => have := length_readPower h; simp only [List.length_cons]; omega
    next => cases h; exact Nat.le_refl _
  next => cases h; exact Nat.le_refl _

theorem length_readUnsigned {atEnd : Cause} {b : Bool} {s r : Input} {n : Numeral}
    (h : readUnsigned atEnd b s = .ok (n, r)) : r.length < s.length := by
  unfold readUnsigned at h
  split at h
  next => cases h
  next hw =>
    split at h
    next => cases h
    next hf =>
      split at h
      next => cases h
      next he =>
        cases h
        have := length_readWhole hw
        have := length_readFraction_le hf
        have := length_readExponent_le he
        omega

theorem length_readNumeral {atEnd : Cause} {s r : Input} {n : Numeral}
    (h : readNumeral atEnd s = .ok (n, r)) : r.length < s.length := by
  unfold readNumeral at h
  split at h
  next => have := length_readUnsigned h; simp only [List.length_cons]; omega
  next => exact length_readUnsigned h

/-! ### Its value -/

/-- Adds digits behind a number as long as it fits 64 bits; the digits that did not are left. -/
def absorb : Nat → List Char → Nat × List Char
  | n, [] => (n, [])
  | n, c :: cs =>
    let m := Nat.ofDigitChars 10 [c] n
    if m < UInt64.size then absorb m cs else (n, c :: cs)

/-- The double nearest to `10 ^ n`. -/
def tenTo (n : Nat) : Float :=
  Float.ofScientific 1 false n

/-- Divides by `10 ^ n`, by at most `10 ^ 308` at a time. -/
def scaleDown (x : Float) (n : Nat) : Float :=
  if n ≤ 308 then x / tenTo n
  else if x == 0 then x
  else scaleDown (x / tenTo 308) (n - 308)
termination_by n

/-- Multiplies by `10 ^ n`, unless that is no double. -/
def scaleUp? (x : Float) (n : Nat) : Option Float :=
  if n ≤ 308 then
    let y := x * tenTo n
    if y.isInf then none else some y
  else if x == 0 then some x
  else none

/-- The greatest power of ten that is taken. -/
def maxPower : Nat :=
  Nat.pow 2 31 - 1

namespace Power

/-- The power as a number. -/
def value (p : Power) : Int :=
  let n := Nat.ofDigitChars 10 p.digits 0
  if p.negative then -(n : Int) else n

/-- The digits behind the one that takes the number `n` past the greatest power. -/
def behindLimit? : Nat → List Char → Option (List Char)
  | _, [] => none
  | n, c :: cs =>
    let m := Nat.ofDigitChars 10 [c] n
    if maxPower < m then some cs else behindLimit? m cs

end Power

namespace Numeral

/-- All digits before the exponent are zeros. -/
def isZero (n : Numeral) : Bool :=
  (n.whole ++ n.fraction).all (· == '0')

/-- If the power of ten makes the number too large, the digits of it that need not be read. -/
def unread? (n : Numeral) : Option (List Char) :=
  match n.power with
  | some ⟨false, ds⟩ => if n.isZero then none else Power.behindLimit? 0 ds
  | _ => none

/-- The numeral has neither a fraction nor an exponent. -/
def isWhole (n : Numeral) : Bool :=
  n.fraction.isEmpty && n.power.isNone

/-- The absolute value of the whole part. -/
def magnitude (n : Numeral) : Nat :=
  Nat.ofDigitChars 10 n.whole 0

/-- The numeral as a double, unless it is too large. -/
def real? (n : Numeral) : Option Float :=
  let (lead, dropped) := absorb 0 n.whole
  let (significand, cut) := absorb lead n.fraction
  let given : Int := (n.power.map Power.value).getD 0
  let power : Int := given + dropped.length - (n.fraction.length - cut.length : Nat)
  let x := (UInt64.ofNat significand).toFloat
  let scaled := if 0 ≤ power then scaleUp? x power.toNat else some (scaleDown x power.natAbs)
  scaled.map fun y => if n.negative then -y else y

/-- The number, unless it is too large. -/
def value? (n : Numeral) : Option Number :=
  if n.isWhole && !n.negative && n.magnitude < UInt64.size then some (.integer n.magnitude)
  else if n.isWhole && n.negative && 0 < n.magnitude && n.magnitude ≤ Nat.pow 2 63 then
    some (.integer (-n.magnitude))
  else n.real?.map .real

end Numeral

/-- How a message shows a double: positionally from `0.00001` up to below `1e+16`. -/
def realLayout : Decimal.Layout :=
  ⟨4, 16⟩

/-- What a message says of a number. -/
def Number.found : Number → Found
  | .integer n => .integer n
  | .real x => .real (.ofList (realLayout.renderFloat x))

/-- Takes a number. -/
def readNumber (s : Input) : Except Failure (Number × Input) :=
  match readNumeral .endInValue s with
  | .error e => .error e
  | .ok (n, r) =>
    match n.unread? with
    | some ds => .error (.here .numberOutOfRange (ds ++ r))
    | none =>
      match n.value? with
      | some x => .ok (x, r)
      | none => .error (.here .numberOutOfRange r)

theorem length_readNumber {s r : Input} {x : Number} (h : readNumber s = .ok (x, r)) :
    r.length < s.length := by
  unfold readNumber at h
  split at h
  next => cases h
  next hn =>
    split at h
    next => cases h
    next =>
      split at h
      next => cases h; exact length_readNumeral hn
      next => cases h

end KnownIssues.Json
