/-!
# Letter case

Rule ids and marker files are compared without regard to the case of the letters `A` to `Z`.  Every
other character has to be the same: `É` and `é` differ.
-/

namespace KnownIssues.Text

/-- The characters with `A` to `Z` folded to `a` to `z`. -/
def foldCase (s : String) : List Char :=
  s.toList.map Char.toLower

/-- Equal up to the case of the letters `A` to `Z`. -/
def sameIgnoringCase (s t : String) : Bool :=
  foldCase s == foldCase t

@[simp] theorem sameIgnoringCase_iff {s t : String} :
    sameIgnoringCase s t = true ↔ foldCase s = foldCase t := by
  simp [sameIgnoringCase]

example : sameIgnoringCase "csharpsquid:S1135" "CSharpSquid:s1135" = true := by decide

example : sameIgnoringCase "É" "é" = false := by decide

end KnownIssues.Text
