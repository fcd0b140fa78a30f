import KnownIssues.ProjectKey
import Mathlib.Data.List.TakeWhile

/-! # The texts that stand for a key

A text stands for a key if it is the key with blanks at its ends (`ofString?_eq_some_iff_pads`), and for
none if it is all blanks (`ofString?_eq_none_iff_blank`). -/

namespace KnownIssues

namespace Text

/-- Nothing but blanks. -/
def AllBlank (cs : List Char) : Prop :=
  ∀ c ∈ cs, isBlank c = true

theorem AllBlank.reverse {cs : List Char} (h : AllBlank cs) : AllBlank cs.reverse :=
  fun c hc => h c (List.mem_reverse.1 hc)

theorem exists_trimList (cs : List Char) :
    ∃ left right, cs = left ++ (trimList cs ++ right) ∧ AllBlank left ∧ AllBlank right := by
  refine ⟨cs.takeWhile isBlank, ((cs.dropWhile isBlank).reverse.takeWhile isBlank).reverse,
    ?_, fun c hc => List.mem_takeWhile_imp hc, AllBlank.reverse fun c hc => List.mem_takeWhile_imp hc⟩
  rw [trimList, ← List.reverse_append, List.takeWhile_append_dropWhile, List.reverse_reverse,
    List.takeWhile_append_dropWhile]

/-- **Blanks at the ends are cut off,** and no more than they. -/
theorem trimList_append {left t right : List Char} (hl : AllBlank left) (hr : AllBlank right)
    (ht : Trimmed t) : trimList (left ++ (t ++ right)) = t := by
  rw [trimList, List.dropWhile_append_of_pos hl]
  cases t with
  | nil =>
    have hnil : ([] ++ right).dropWhile isBlank = [] := List.dropWhile_eq_nil_iff.2 hr
    rw [hnil]
    rfl
  | cons c t =>
    have hhead : (c :: t ++ right).dropWhile isBlank = c :: t ++ right :=
      dropWhile_eq_self fun d hd => ht.1 d hd
    have hlast : (c :: t).reverse.dropWhile isBlank = (c :: t).reverse := by
      refine dropWhile_eq_self fun d hd => ht.2 d ?_
      rwa [List.head?_reverse] at hd
    rw [hhead, List.reverse_append, List.dropWhile_append_of_pos hr.reverse, hlast,
      List.reverse_reverse]

theorem trimList_eq_nil_iff {cs : List Char} : trimList cs = [] ↔ AllBlank cs := by
  constructor
  · intro h
    obtain ⟨left, right, hcs, hl, hr⟩ := exists_trimList cs
    rw [h, List.nil_append] at hcs
    rw [hcs]
    exact fun c hc => (List.mem_append.1 hc).elim (hl c) (hr c)
  · intro h
    rw [trimList, List.dropWhile_eq_nil_iff.2 h]
    rfl

end Text

namespace ProjectKey

/-- The text is the key with blanks at its ends. -/
def Pads (k : ProjectKey) (s : String) : Prop :=
  ∃ left right, s.toList = left ++ (k.text.toList ++ right) ∧ Text.AllBlank left ∧ Text.AllBlank right

theorem trimmed_toList (k : ProjectKey) : Text.Trimmed k.text.toList := by
  have h := Text.trimmed_trimList k.text.toList
  rwa [← Text.toList_trim, k.trimmed] at h

/-- **The texts of a key** are those that it pads. -/
theorem ofString?_eq_some_iff_pads {s : String} {k : ProjectKey} :
    ofString? s = some k ↔ k.Pads s := by
  rw [ofString?_eq_some_iff]
  constructor
  · intro h
    obtain ⟨left, right, hs, hl, hr⟩ := Text.exists_trimList s.toList
    rw [← Text.toList_trim, h] at hs
    exact ⟨left, right, hs, hl, hr⟩
  · rintro ⟨left, right, hs, hl, hr⟩
    rw [Text.trim, hs, Text.trimList_append hl hr k.trimmed_toList, String.ofList_toList]

/-- **Only blank texts** stand for no key. -/
theorem ofString?_eq_none_iff_blank {s : String} : ofString? s = none ↔ Text.AllBlank s.toList := by
  rw [ofString?_eq_none_iff, ← Text.trimList_eq_nil_iff, ← Text.toList_trim,
    String.toList_eq_nil_iff]

end ProjectKey

end KnownIssues
