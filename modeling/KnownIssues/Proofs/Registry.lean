import KnownIssues.Registry

/-! # The registry of a list of rules

What look-up finds in a registry that rules were added to.  A rule is found as soon as it is in the
list (`get?_insertAll`), with the descriptor made of its id, so the registry of a list of rules knows
those rules and no others (`get?_ofRules`). -/

namespace KnownIssues.Registry

theorem get?_insert (r : Registry) (justification rule id : String) :
    (r.insert justification rule).get? id
      = (r.get? id).or (if id = rule then some (.ofRule justification rule) else none) := by
  unfold insert
  split
  · next hin =>
    by_cases hid : id = rule
    · subst hid
      obtain ⟨d, hd⟩ := Option.isSome_iff_exists.1 hin
      rw [hd]; rfl
    · rw [if_neg hid, Option.or_none]
  · unfold get?
    rw [List.find?_append]
    by_cases hid : id = rule
    · subst hid
      simp [Descriptor.ofRule]
    · have hne : (rule == id) = false := by simpa using Ne.symm hid
      simp [Descriptor.ofRule, hid, hne]

theorem get?_insertAll {justification : String} {rules : List String} {r r' : Registry}
    (h : insertAll justification r rules = .ok r') (id : String) :
    r'.get? id
      = (r.get? id).or (if id ∈ rules then some (.ofRule justification id) else none) := by
  induction rules generalizing r with
  | nil =>
    cases h
    simp
  | cons rule rules ih =>
    unfold insertAll at h
    split at h
    · cases h
    · rw [ih h, get?_insert, Option.or_assoc]
      by_cases hid : id = rule
      · subst hid
        simp
      · simp [hid]

/-- **Look-up in the registry of a list of rules.** -/
theorem get?_ofRules {justification : String} {rules : List String} {r : Registry}
    (h : ofRules justification rules = .ok r) (id : String) :
    r.get? id = if id ∈ rules then some (.ofRule justification id) else none := by
  rw [get?_insertAll h]
  rfl

end KnownIssues.Registry
