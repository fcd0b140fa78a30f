/-!
# Hexadecimal digits

Two digits for a byte, four for a code point below `U+10000`, and the value of a digit in either
case.  A digit that was written is read back as its value (`value?_digitChar`, `value?_upper`).
-/

namespace KnownIssues.Text.Hex

/-- The two lower-case digits of a byte. -/
def lower (b : UInt8) : List Char :=
  [Nat.digitChar (b.toNat / 16), Nat.digitChar (b.toNat % 16)]

/-- The two upper-case digits of a byte. -/
def upper (b : UInt8) : List Char :=
  (lower b).map Char.toUpper

/-- The value of a digit. -/
def value? (c : Char) : Option Nat :=
  if '0' ≤ c ∧ c ≤ '9' then some (c.toNat - '0'.toNat)
  else if 'a' ≤ c ∧ c ≤ 'f' then some (c.toNat - 'a'.toNat + 10)
  else if 'A' ≤ c ∧ c ≤ 'F' then some (c.toNat - 'A'.toNat + 10)
  else none

/-- The value of four digits. -/
def value4? (a b c d : Char) : Option Nat := do
  return (((← value? a) * 16 + (← value? b)) * 16 + (← value? c)) * 16 + (← value? d)

theorem value?_digitChar : ∀ n : Nat, n < 16 → value? (Nat.digitChar n) = some n := by
  decide

theorem value?_upper : ∀ n : Nat, n < 16 → value? (Nat.digitChar n).toUpper = some n := by
  decide

example : lower 0x0F = ['0', 'f'] ∧ upper 0xC3 = ['C', '3'] := by decide

end KnownIssues.Text.Hex
