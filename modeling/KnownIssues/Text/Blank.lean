/-!
# Blank characters

The white space that a fingerprint leaves out and that a key loses at its ends: twenty-five
characters, in ten ranges of code points (`blankRanges`).  No other character is blank, in
particular not the separators `U+001C` to `U+001F`, `U+180E`, `U+200B` and `U+FEFF`.

* `trim` cuts blanks off both ends; what it returns is `Trimmed` (`trimmed_trimList`), and a trimmed
  text stays as it is (`trimList_eq_self`), so trimming twice is trimming once (`trim_trim`);
* `withoutBlanks` removes them everywhere.
-/

namespace KnownIssues.Text

/-- First and last code point of each range of blanks. -/
def blankRanges : List (Nat × Nat) :=
  [(0x09, 0x0D), (0x20, 0x20), (0x85, 0x85), (0xA0, 0xA0), (0x1680, 0x1680), (0x2000, 0x200A),
    (0x2028, 0x2029), (0x202F, 0x202F), (0x205F, 0x205F), (0x3000, 0x3000)]

/-- A character in one of the ranges. -/
def isBlank (c : Char) : Bool :=
  blankRanges.any fun r => r.1 ≤ c.toNat && c.toNat ≤ r.2

/-- The characters without the blanks at either end. -/
def trimList (cs : List Char) : List Char :=
  ((cs.dropWhile isBlank).reverse.dropWhile isBlank).reverse

/-- The text without the blanks at either end. -/
def trim (s : String) : String :=
  .ofList (trimList s.toList)

/-- The text without its blanks. -/
def withoutBlanks (s : String) : String :=
  .ofList (s.toList.filter fun c => !isBlank c)

/-- Neither the first nor the last character is blank. -/
def Trimmed (cs : List Char) : Prop :=
  (∀ c, cs.head? = some c → isBlank c = false) ∧ ∀ c, cs.getLast? = some c → isBlank c = false

example : (blankRanges.map fun r => r.2 + 1 - r.1).sum = 25 := by decide

example : trim " my key\t" = "my key" := by decide

/-! ### Trimming -/

theorem dropWhile_eq_self {p : Char → Bool} {cs : List Char}
    (h : ∀ c, cs.head? = some c → p c = false) : cs.dropWhile p = cs := by
  cases cs with
  | nil => rfl
  | cons c r => simp [h c rfl]

theorem head?_dropWhile_eq_false {p : Char → Bool} {cs : List Char} {c : Char}
    (h : (cs.dropWhile p).head? = some c) : p c = false := by
  have := List.head?_dropWhile_not p cs
  rwa [h] at this

theorem trimmed_trimList (cs : List Char) : Trimmed (trimList cs) := by
  refine ⟨fun c hc => ?_, fun c hc => ?_⟩
  · have hsplit : ((cs.dropWhile isBlank).reverse.takeWhile isBlank)
        ++ ((cs.dropWhile isBlank).reverse.dropWhile isBlank) = (cs.dropWhile isBlank).reverse :=
      List.takeWhile_append_dropWhile
    have hrev : cs.dropWhile isBlank
        = trimList cs ++ ((cs.dropWhile isBlank).reverse.takeWhile isBlank).reverse := by
      rw [trimList, ← List.reverse_append, hsplit, List.reverse_reverse]
    have hhead : (cs.dropWhile isBlank).head? = some c := by
      rw [hrev, List.head?_append, hc]
      rfl
    exact head?_dropWhile_eq_false hhead
  · rw [trimList, List.getLast?_reverse] at hc
    exact head?_dropWhile_eq_false hc

theorem trimList_eq_self {cs : List Char} (h : Trimmed cs) : trimList cs = cs := by
  rw [trimList, dropWhile_eq_self h.1, dropWhile_eq_self (by simpa using h.2), List.reverse_reverse]

theorem toList_trim (s : String) : (trim s).toList = trimList s.toList := String.toList_ofList

@[simp] theorem trim_trim (s : String) : trim (trim s) = trim s := by
  rw [trim, toList_trim, trimList_eq_self (trimmed_trimList _), ← trim]

end KnownIssues.Text
