import KnownIssues.Text.Hex

/-!
# Percent escapes

Bytes as the characters of a file name: the letters and digits of ASCII, `_` and `-` stand for
themselves, and every other byte is a percent sign with two upper-case hexadecimal digits.  So a
name holds neither a slash nor a dot.  `decode?` takes it apart again (`decode?_encode`), and no two
lists of bytes have the same name.
-/

namespace KnownIssues.Text.Percent

/-- A byte that stands for itself. -/
def isPlain (b : UInt8) : Bool :=
  let c := Char.ofNat b.toNat
  c.isAlphanum || c == '_' || c == '-'

/-- The characters of one byte. -/
def encodeByte (b : UInt8) : List Char :=
  if isPlain b then [Char.ofNat b.toNat] else '%' :: Hex.upper b

/-- The characters of the bytes. -/
def encode (bytes : List UInt8) : List Char :=
  bytes.flatMap encodeByte

/-- The bytes that the characters stand for, if they are written by the rules. -/
def decode? : List Char → Option (List UInt8)
  | [] => some []
  | '%' :: a :: b :: r => do
    let n := (← Hex.value? a) * 16 + (← Hex.value? b)
    return UInt8.ofNat n :: (← decode? r)
  | c :: r =>
    if c.isAlphanum || c == '_' || c == '-' then (decode? r).map (UInt8.ofNat c.toNat :: ·)
    else none

theorem ofNat_toNat_ofNat (b : UInt8) : UInt8.ofNat (Char.ofNat b.toNat).toNat = b := by
  have hb : b.toNat < 0xD800 := Nat.lt_trans b.toNat_lt (by decide)
  rw [Char.ofNat, dif_pos (Or.inl hb)]
  exact UInt8.ofNat_toNat

theorem decode?_encodeByte_append (b : UInt8) (r : List Char) :
    decode? (encodeByte b ++ r) = (decode? r).map (b :: ·) := by
  unfold encodeByte
  by_cases hp : isPlain b = true
  · have hne : Char.ofNat b.toNat ≠ '%' := by
      intro h
      rw [isPlain, h] at hp
      revert hp
      decide
    rw [if_pos hp, List.cons_append, List.nil_append, decode?]
    · rw [isPlain] at hp
      rw [if_pos hp, ofNat_toNat_ofNat]
    · intro _ _ _ h
      exact absurd h hne
  · have h16 : b.toNat / 16 < 16 := by have := b.toNat_lt; omega
    rw [if_neg hp]
    simp only [Hex.upper, Hex.lower, List.map_cons, List.map_nil, List.cons_append,
      List.nil_append, decode?, Hex.value?_upper _ h16,
      Hex.value?_upper _ (Nat.mod_lt b.toNat (by decide : 0 < 16)), Option.bind_eq_bind,
      Option.bind_some, Option.pure_def]
    rw [show b.toNat / 16 * 16 + b.toNat % 16 = b.toNat by omega, UInt8.ofNat_toNat]
    cases decode? r <;> rfl

@[simp] theorem decode?_encode (bytes : List UInt8) : decode? (encode bytes) = some bytes := by
  induction bytes with
  | nil => rfl
  | cons b bs ih => rw [encode, List.flatMap_cons, decode?_encodeByte_append, ← encode, ih]; rfl

example : encode [0x6F, 0x2F, 0xC3, 0x2D] = "o%2F%C3-".toList := by decide

end KnownIssues.Text.Percent
