import KnownIssues.Text.Blank

/-!
# Project keys

A key names the project whose settled issues apply.  It is never blank and has no blanks at its
ends, so there is one key for all the ways in which a text can be padded (`ofString?_eq_some_iff`),
and a key read again is itself (`ofString?_text`).
-/

namespace KnownIssues

/-- A project's key. -/
structure ProjectKey where
  text : String
  trimmed : Text.trim text = text
  nonempty : text ≠ ""
  deriving DecidableEq

namespace ProjectKey

/-- The key that a text stands for; a blank text stands for none. -/
def ofString? (s : String) : Option ProjectKey :=
  if h : Text.trim s = "" then none else some ⟨Text.trim s, Text.trim_trim s, h⟩

@[ext] theorem ext {j k : ProjectKey} (h : j.text = k.text) : j = k := by
  cases j; cases k; cases h; rfl

theorem ofString?_eq_none_iff {s : String} : ofString? s = none ↔ Text.trim s = "" := by
  unfold ofString?
  split <;> simp [*]

theorem ofString?_eq_some_iff {s : String} {k : ProjectKey} :
    ofString? s = some k ↔ Text.trim s = k.text := by
  unfold ofString?
  split
  next h =>
    rw [h]
    exact ⟨fun he => (nomatch he), fun he => absurd he.symm k.nonempty⟩
  next h =>
    rw [Option.some.injEq]
    exact ⟨fun he => he ▸ rfl, fun he => ProjectKey.ext he⟩

@[simp] theorem ofString?_text (k : ProjectKey) : ofString? k.text = some k :=
  ofString?_eq_some_iff.2 k.trimmed

/-- The keys in the order of their texts, each one once. -/
def sorted (keys : List ProjectKey) : List ProjectKey :=
  (keys.mergeSort fun j k => decide (j.text ≤ k.text)).eraseDups

end ProjectKey

end KnownIssues
