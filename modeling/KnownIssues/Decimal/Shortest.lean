/-!
# Shortest decimal text of a double

A finite positive double is `mantissa * 2 ^ exponent` (`Binary.ofBits`), and the reals that round to
it form an interval around it, whose ends belong to it iff the mantissa is even.  `Binary.shortest`
looks for a decimal in that interval, first among those with one digit, then two, and so on up to
seventeen, which always suffice.  Of the numbers with `n` digits only the two neighbours of the
value are tried: if any lies in the interval then so does one of these.  Of two that do the nearer
is taken.

`Layout` says how the digits are set out: positionally while the point stays near them, else with an
exponent.  All comparisons are between natural numbers.
-/

namespace KnownIssues

/-- The value `mantissa * 2 ^ exponent`; `narrow` says that the next smaller double is only half as
far away as the next greater one. -/
structure Binary where
  mantissa : Nat
  exponent : Int
  narrow : Bool
  deriving DecidableEq, Repr

/-- The absolute value of the finite double with these bits. -/
def Binary.ofBits (bits : UInt64) : Binary :=
  let fraction : Nat := bits.toNat % Nat.pow 2 52
  let biased : Nat := bits.toNat / Nat.pow 2 52 % Nat.pow 2 11
  if biased = 0 then ⟨fraction, -1074, false⟩
  else ⟨Nat.pow 2 52 + fraction, (biased : Int) - 1075, fraction == 0 && biased != 1⟩

/-- The decimal `digits * 10 ^ exponent`. -/
structure Decimal where
  digits : Nat
  exponent : Int
  deriving DecidableEq, Repr

namespace Binary

/-- The order of `d` and `x * 2 ^ k`. -/
def compareDecimal (d : Decimal) (x : Nat) (k : Int) : Ordering :=
  compare (d.digits * Nat.pow 10 d.exponent.toNat * Nat.pow 2 (-k).toNat)
    (x * Nat.pow 2 k.toNat * Nat.pow 10 (-d.exponent).toNat)

/-- The decimal lies in the interval that rounds to the value. -/
def holds (b : Binary) (d : Decimal) : Bool :=
  let above := compareDecimal d (4 * b.mantissa - (if b.narrow then 1 else 2)) (b.exponent - 2)
  let below := compareDecimal d (4 * b.mantissa + 2) (b.exponent - 2)
  (above == .gt && below == .lt) || (b.mantissa % 2 == 0 && (above == .eq || below == .eq))

/-- The power of ten just above the value: `10 ^ (magnitude - 1) ≤ value < 10 ^ magnitude`. -/
def magnitude (b : Binary) : Int :=
  let num := b.mantissa * Nat.pow 2 b.exponent.toNat
  let den := Nat.pow 2 (-b.exponent).toNat
  if den ≤ num then (Nat.toDigits 10 (num / den)).length
  else
    let zeros := (Nat.toDigits 10 (den / num)).length
    if Nat.pow 10 (zeros - 1) * num = den then 2 - zeros else 1 - zeros

/-- The nearer of the two neighbours with `n` digits that lie in the interval. -/
def neighbour? (b : Binary) (n : Nat) : Option Decimal :=
  let e := b.magnitude - n
  let below := b.mantissa * Nat.pow 2 b.exponent.toNat * Nat.pow 10 (-e).toNat /
    (Nat.pow 2 (-b.exponent).toNat * Nat.pow 10 e.toNat)
  match b.holds ⟨below, e⟩, b.holds ⟨below + 1, e⟩ with
  | false, false => none
  | true, false => some ⟨below, e⟩
  | false, true => some ⟨below + 1, e⟩
  | true, true =>
    match compareDecimal ⟨2 * below + 1, e⟩ (2 * b.mantissa) b.exponent with
    | .gt => some ⟨below, e⟩
    | .lt => some ⟨below + 1, e⟩
    | .eq => some ⟨below + below % 2, e⟩

/-- The decimal with the fewest digits that rounds to the value. -/
def shortest (b : Binary) : Decimal :=
  ((List.range 17).findSome? fun i => b.neighbour? (i + 1)).getD ⟨b.mantissa, b.exponent⟩

end Binary

/-! ### Setting out the digits -/

/-- Where digits are set out positionally: the point stands at most `lead` zeros before the first
digit and at most `width` places after it. -/
structure Decimal.Layout where
  lead : Nat
  width : Nat
  deriving DecidableEq, Repr

namespace Decimal.Layout

/-- The decimal with its point or its exponent; a whole number ends in `.0`, and an exponent has
its sign. -/
def render (l : Layout) (d : Decimal) : List Char :=
  let all := Nat.toDigits 10 d.digits
  let digits := (all.reverse.dropWhile (· == '0')).reverse
  let point : Int := all.length + d.exponent
  if -l.lead ≤ point ∧ point ≤ l.width then
    if point ≤ 0 then '0' :: '.' :: (List.replicate (-point).toNat '0' ++ digits)
    else if digits.length ≤ point.toNat then
      digits ++ List.replicate (point.toNat - digits.length) '0' ++ ['.', '0']
    else digits.take point.toNat ++ '.' :: digits.drop point.toNat
  else
    let power := point - 1
    digits.take 1 ++ (if digits.length ≤ 1 then [] else '.' :: digits.drop 1)
      ++ 'e' :: (if power < 0 then '-' else '+') :: Nat.toDigits 10 power.natAbs

/-- The text of a finite double. -/
def renderFloat (l : Layout) (x : Float) : List Char :=
  let bits := x.toBits
  let b := Binary.ofBits bits
  (if Nat.pow 2 63 ≤ bits.toNat then ['-'] else [])
    ++ if b.mantissa = 0 then ['0', '.', '0'] else l.render b.shortest

end Decimal.Layout

example : Decimal.Layout.render ⟨4, 16⟩ ⟨12345678925, -2⟩ = "123456789.25".toList := by decide

example : Decimal.Layout.render ⟨4, 16⟩ ⟨10, 18⟩ = "1e+19".toList := by decide

example : Decimal.Layout.render ⟨4, 16⟩ ⟨15, -8⟩ = "1.5e-7".toList := by decide

end KnownIssues
