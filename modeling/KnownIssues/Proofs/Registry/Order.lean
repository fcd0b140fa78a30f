import KnownIssues.Proofs.Registry
import Mathlib.Data.Finset.Card
import Mathlib.Data.List.Pairwise

/-! # The order of the registered rules

A list of rules is registered by its distinct ones, in the order in which they first occur
(`FirstOccurrences`): there is just one such list (`FirstOccurrences.unique`).

* `insertAll_eq`: an empty id anywhere is a fault, otherwise each rule is added to what was there.
* `Lists.insert`: adding a rule keeps the registry in that order, and so do many (`Lists.foldl_insert`).
* `ofRules_firstOccurrences`: the registry of a list of rules. -/

namespace KnownIssues

/-! ### First occurrences -/

section FirstOccurrences
variable {α : Type} [DecidableEq α]

/-- The distinct elements of a list, ordered by where they first occur in it. -/
structure FirstOccurrences (l distinct : List α) : Prop where
  mem_iff : ∀ x, x ∈ distinct ↔ x ∈ l
  inOrder : distinct.Pairwise fun x y => l.idxOf x < l.idxOf y

variable {l distinct : List α}

theorem firstOccurrences_nil : FirstOccurrences ([] : List α) [] :=
  ⟨fun _ => Iff.rfl, .nil⟩

theorem FirstOccurrences.nodup (h : FirstOccurrences l distinct) : distinct.Nodup := by
  refine h.inOrder.imp fun {x y} hxy => ?_
  rintro rfl
  exact Nat.lt_irrefl _ hxy

theorem idxOf_append_of_mem {x : α} (hx : x ∈ l) (y : α) : (l ++ [y]).idxOf x = l.idxOf x := by
  rw [List.idxOf_append, if_pos hx]

theorem FirstOccurrences.append_of_mem (h : FirstOccurrences l distinct) {x : α} (hx : x ∈ l) :
    FirstOccurrences (l ++ [x]) distinct where
  mem_iff y := by
    rw [h.mem_iff, List.mem_append, List.mem_singleton]
    constructor
    · exact Or.inl
    · rintro (hy | rfl)
      · exact hy
      · exact hx
  inOrder := by
    refine h.inOrder.imp_of_mem fun {y z} hy hz hyz => ?_
    rwa [idxOf_append_of_mem ((h.mem_iff y).1 hy), idxOf_append_of_mem ((h.mem_iff z).1 hz)]

theorem FirstOccurrences.append_of_not_mem (h : FirstOccurrences l distinct) {x : α} (hx : x ∉ l) :
    FirstOccurrences (l ++ [x]) (distinct ++ [x]) where
  mem_iff y := by
    rw [List.mem_append, List.mem_append, h.mem_iff]
  inOrder := by
    have hlast : (l ++ [x]).idxOf x = l.length := by
      rw [List.idxOf_append, if_neg hx, List.idxOf_cons_self, Nat.zero_add]
    have hold : distinct.Pairwise fun y z => (l ++ [x]).idxOf y < (l ++ [x]).idxOf z := by
      refine h.inOrder.imp_of_mem fun {y z} hy hz hyz => ?_
      rwa [idxOf_append_of_mem ((h.mem_iff y).1 hy), idxOf_append_of_mem ((h.mem_iff z).1 hz)]
    refine List.pairwise_append.2 ⟨hold, List.pairwise_singleton _ _, fun y hy z hz => ?_⟩
    have hy' := (h.mem_iff y).1 hy
    rw [List.mem_singleton.1 hz, hlast, idxOf_append_of_mem hy']
    exact List.idxOf_lt_length_iff.2 hy'

/-- **There is one order** of first occurrence. -/
theorem FirstOccurrences.unique {distinct' : List α} (h : FirstOccurrences l distinct)
    (h' : FirstOccurrences l distinct') : distinct' = distinct := by
  have hperm : distinct'.Perm distinct := by
    rw [List.perm_ext_iff_of_nodup h'.nodup h.nodup]
    intro x
    rw [h'.mem_iff, h.mem_iff]
  refine hperm.eq_of_pairwise (fun x y _ _ hxy hyx => ?_) h'.inOrder h.inOrder
  exact absurd hxy (Nat.lt_asymm hyx)

theorem FirstOccurrences.length_eq (h : FirstOccurrences l distinct) :
    distinct.length = l.toFinset.card := by
  rw [← List.toFinset_card_of_nodup h.nodup]
  congr 1
  ext x
  rw [List.mem_toFinset, List.mem_toFinset, h.mem_iff]

end FirstOccurrences

namespace Registry

/-! ### One rule after the other -/

/-- The registry has a descriptor for each of the rules, in the order of first occurrence. -/
def Lists (r : Registry) (justification : String) (rules : List String) : Prop :=
  ∃ distinct, FirstOccurrences rules distinct ∧
    r.descriptors = distinct.map (Descriptor.ofRule justification)

theorem isSome_get?_iff {r : Registry} {rule : String} :
    (r.get? rule).isSome ↔ rule ∈ r.descriptors.map Descriptor.rule := by
  rw [get?, List.find?_isSome, List.mem_map]
  simp

variable {justification : String} {r : Registry} {rules : List String}

theorem Lists.isSome_get?_iff (h : r.Lists justification rules) {rule : String} :
    (r.get? rule).isSome ↔ rule ∈ rules := by
  obtain ⟨distinct, hfirst, hdescriptors⟩ := h
  have hrules : r.descriptors.map Descriptor.rule = distinct := by
    rw [hdescriptors, List.map_map]
    exact List.map_id distinct
  rw [Registry.isSome_get?_iff, hrules, hfirst.mem_iff]

/-- **Adding a rule** keeps the order: a new one comes last, a known one changes nothing. -/
theorem Lists.insert (h : r.Lists justification rules) (rule : String) :
    (r.insert justification rule).Lists justification (rules ++ [rule]) := by
  have hknown : (r.get? rule).isSome ↔ rule ∈ rules := h.isSome_get?_iff
  obtain ⟨distinct, hfirst, hdescriptors⟩ := h
  rw [Registry.insert]
  split
  · next hin => exact ⟨distinct, hfirst.append_of_mem (hknown.1 hin), hdescriptors⟩
  · next hnot =>
    refine ⟨distinct ++ [rule], hfirst.append_of_not_mem fun hin => hnot (hknown.2 hin), ?_⟩
    rw [List.map_append, hdescriptors]
    rfl

theorem Lists.foldl_insert (h : r.Lists justification rules) (more : List String) :
    (more.foldl (Registry.insert · justification) r).Lists justification (rules ++ more) := by
  induction more generalizing r rules with
  | nil => rwa [List.append_nil]
  | cons rule more ih =>
    have hmore := ih (h.insert rule)
    rwa [List.append_assoc] at hmore

theorem insertAll_eq (justification : String) (r : Registry) (rules : List String) :
    insertAll justification r rules
      = if "" ∈ rules then .error .emptyRuleId
        else .ok (rules.foldl (insert · justification) r) := by
  induction rules generalizing r with
  | nil => rfl
  | cons rule rules ih =>
    rw [insertAll]
    by_cases hrule : rule = ""
    · rw [if_pos hrule, if_pos (by rw [hrule]; exact List.mem_cons_self ..)]
    · have hmem : "" ∈ rule :: rules ↔ "" ∈ rules := by
        rw [List.mem_cons]
        exact or_iff_right (Ne.symm hrule)
      rw [if_neg hrule, ih]
      simp only [hmem, List.foldl_cons]

/-! ### The registry -/

theorem id_ofRule_injective :
    Function.Injective (Descriptor.id ∘ Descriptor.ofRule justification) := by
  intro x y hxy
  have hlist : ("SLS_" ++ x).toList = ("SLS_" ++ y).toList := congrArg String.toList hxy
  rw [String.toList_append, String.toList_append] at hlist
  exact String.toList_inj.1 (List.append_cancel_left hlist)

theorem Lists.nodup_ids (h : r.Lists justification rules) :
    (r.descriptors.map Descriptor.id).Nodup := by
  obtain ⟨distinct, hfirst, hdescriptors⟩ := h
  rw [hdescriptors, List.map_map]
  exact hfirst.nodup.map id_ofRule_injective

theorem Lists.size_eq (h : r.Lists justification rules) : r.size = rules.toFinset.card := by
  obtain ⟨distinct, hfirst, hdescriptors⟩ := h
  rw [size, hdescriptors, List.length_map, hfirst.length_eq]

/-- **The registry of a list of rules.**  An empty id among them is a fault, wherever it stands, and nothing
else is.  Otherwise there is one descriptor for each distinct rule, in the order of first occurrence; no two
have the same id; and looking up a rule finds its descriptor just if it is in the list, letter for letter. -/
theorem ofRules_firstOccurrences (justification : String) (rules : List String) :
    (ofRules justification rules = .error .emptyRuleId ↔ "" ∈ rules) ∧
    ("" ∉ rules → ∃ r distinct, ofRules justification rules = .ok r ∧
      FirstOccurrences rules distinct ∧ (∀ other, FirstOccurrences rules other → other = distinct) ∧
      r.descriptors = distinct.map (fun rule => ⟨"SLS_" ++ rule, rule, justification⟩) ∧
      (r.descriptors.map Descriptor.id).Nodup ∧ r.size = rules.toFinset.card ∧
      ∀ x, r.get? x = if x ∈ rules then some ⟨"SLS_" ++ x, x, justification⟩ else none) := by
  have hof : ofRules justification rules = if "" ∈ rules then .error .emptyRuleId
      else .ok (rules.foldl (insert · justification) empty) := insertAll_eq ..
  constructor
  · rw [hof]
    split <;> simp [*]
  · intro hne
    rw [if_neg hne] at hof
    have hempty : empty.Lists justification [] := ⟨[], firstOccurrences_nil, rfl⟩
    have hlists := hempty.foldl_insert rules
    rw [List.nil_append] at hlists
    have hnodup := hlists.nodup_ids
    have hsize := hlists.size_eq
    obtain ⟨distinct, hfirst, hdescriptors⟩ := hlists
    exact ⟨_, distinct, hof, hfirst, fun other hother => hfirst.unique hother, hdescriptors,
      hnodup, hsize, get?_ofRules hof⟩

/-- Repeated rules, and one that differs in letter case; and an empty id behind two good ones. -/
theorem ofRules_firstOccurrences_repeated :
    "" ∉ ["S2", "s2", "S1", "S2"] ∧ ofRules "why" ["S2", "S2", "", "S1"] = .error .emptyRuleId ∧
      ∃ r, ofRules "why" ["S2", "s2", "S1", "S2"] = .ok r ∧
        FirstOccurrences ["S2", "s2", "S1", "S2"] (r.descriptors.map Descriptor.rule) ∧
        r.descriptors = [⟨"SLS_S2", "S2", "why"⟩, ⟨"SLS_s2", "s2", "why"⟩, ⟨"SLS_S1", "S1", "why"⟩] ∧
        r.size = 3 ∧ r.get? "s1" = none := by
  have hne : "" ∉ ["S2", "s2", "S1", "S2"] := by decide
  obtain ⟨r, distinct, hr, hfirst, honly, hdescriptors, -, hsize, hget⟩ :=
    (ofRules_firstOccurrences "why" ["S2", "s2", "S1", "S2"]).2 hne
  have horder : FirstOccurrences ["S2", "s2", "S1", "S2"] ["S2", "s2", "S1"] :=
    ⟨fun x => by simp only [List.mem_cons]; tauto, by decide⟩
  obtain rfl := honly _ horder
  refine ⟨hne, (ofRules_firstOccurrences "why" _).1.2 (by decide), r, hr, ?_, hdescriptors, ?_, ?_⟩
  · rw [hdescriptors]
    exact horder
  · rw [hsize]
    decide
  · rw [hget, if_neg (by decide)]

end Registry

end KnownIssues
