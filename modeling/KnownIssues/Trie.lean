/-!
# Tries

A finite map whose keys are nonempty lists, stored by their first element: a branch holds the value
at the list of this element alone, and the map of what comes behind it.  So a key is followed one
element at a time (`value?`, `behind`), and `behindAll` goes along a whole list.

`find?` sees an insertion at its key only (`find?_insert`) and a filter at the keys that fail
(`find?_filterKeys`); what lies behind a list is found there (`find?_append`).
-/

namespace KnownIssues

/-- A finite map from nonempty lists of `κ` to `α`. -/
inductive Trie (κ α : Type) where
  | empty
  | branch (k : κ) (value : Option α) (behind others : Trie κ α)

namespace Trie

variable {κ α : Type}

/-- All keys with their values. -/
def entries : Trie κ α → List (List κ × α)
  | empty => []
  | branch k value behind others =>
    value.toList.map (([k], ·)) ++ (behind.entries.map fun e => (k :: e.1, e.2)) ++ others.entries

/-- The map without the values at keys that fail a test. -/
def filterKeys (t : Trie κ α) (p : List κ → Bool) : Trie κ α :=
  match t with
  | empty => empty
  | branch k value behind others =>
    branch k (if p [k] then value else none) (behind.filterKeys fun ks => p (k :: ks))
      (others.filterKeys p)

variable [DecidableEq κ]

/-- What the map holds at the list of one element. -/
def value? : Trie κ α → κ → Option α
  | empty, _ => none
  | branch j value _ others, k => if k = j then value else others.value? k

/-- The map of what comes behind an element. -/
def behind : Trie κ α → κ → Trie κ α
  | empty, _ => empty
  | branch j _ behind others, k => if k = j then behind else others.behind k

/-- The map of what comes behind a list. -/
def behindAll (t : Trie κ α) (ks : List κ) : Trie κ α :=
  ks.foldl behind t

/-- What the map holds at a key. -/
def find? (t : Trie κ α) : List κ → Option α
  | [] => none
  | [k] => t.value? k
  | k :: ks => (t.behind k).find? ks

/-- The map with another branch for an element. -/
def setBranch (t : Trie κ α) (k : κ) (v : Option α) (b : Trie κ α) : Trie κ α :=
  match t with
  | empty => branch k v b empty
  | branch j value behind others =>
    if k = j then branch j v b others else branch j value behind (others.setBranch k v b)

/-- The map with a value at a key, in place of what was there. -/
def insert (t : Trie κ α) (ks : List κ) (v : α) : Trie κ α :=
  match ks with
  | [] => t
  | [k] => t.setBranch k (some v) (t.behind k)
  | k :: ks => t.setBranch k (t.value? k) ((t.behind k).insert ks v)

/-! ### One element -/

theorem value?_setBranch (t b : Trie κ α) (j k : κ) (v : Option α) :
    (t.setBranch j v b).value? k = if k = j then v else t.value? k := by
  induction t with
  | empty => simp [setBranch, value?]
  | branch i value rest others _ ih =>
    by_cases hj : j = i
    · by_cases hk : k = i <;> simp [setBranch, value?, hj, hk]
    · by_cases hk : k = i
      · simp [setBranch, value?, hj, hk, Ne.symm hj]
      · simp [setBranch, value?, hj, hk, ih]

theorem behind_setBranch (t b : Trie κ α) (j k : κ) (v : Option α) :
    (t.setBranch j v b).behind k = if k = j then b else t.behind k := by
  induction t with
  | empty => simp [setBranch, behind]
  | branch i value rest others _ ih =>
    by_cases hj : j = i
    · by_cases hk : k = i <;> simp [setBranch, behind, hj, hk]
    · by_cases hk : k = i
      · simp [setBranch, behind, hj, hk, Ne.symm hj]
      · simp [setBranch, behind, hj, hk, ih]

theorem value?_filterKeys (t : Trie κ α) (p : List κ → Bool) (k : κ) :
    (t.filterKeys p).value? k = if p [k] then t.value? k else none := by
  induction t generalizing p with
  | empty => simp [filterKeys, value?]
  | branch j value rest others _ ih =>
    by_cases h : k = j
    · simp [filterKeys, value?, h]
    · simp [filterKeys, value?, h, ih]

theorem behind_filterKeys (t : Trie κ α) (p : List κ → Bool) (k : κ) :
    (t.filterKeys p).behind k = (t.behind k).filterKeys fun ks => p (k :: ks) := by
  induction t generalizing p with
  | empty => simp [filterKeys, behind]
  | branch j value rest others _ ih =>
    by_cases h : k = j
    · simp [filterKeys, behind, h]
    · simp [filterKeys, behind, h, ih]

/-! ### Whole keys -/

theorem find?_cons (t : Trie κ α) (k : κ) (ks : List κ) :
    t.find? (k :: ks) = if ks = [] then t.value? k else (t.behind k).find? ks := by
  cases ks <;> simp [find?]

theorem find?_empty (ks : List κ) : (empty : Trie κ α).find? ks = none := by
  induction ks with
  | nil => rfl
  | cons k ks ih => simp [find?_cons, value?, behind, ih]

theorem find?_append (t : Trie κ α) (js : List κ) {ks : List κ} (h : ks ≠ []) :
    t.find? (js ++ ks) = (t.behindAll js).find? ks := by
  induction js generalizing t with
  | nil => rfl
  | cons j js ih => simp [find?_cons, behindAll, h, ih (t.behind j)]

theorem find?_filterKeys (t : Trie κ α) (p : List κ → Bool) (ks : List κ) :
    (t.filterKeys p).find? ks = if p ks then t.find? ks else none := by
  induction ks generalizing t p with
  | nil => simp [find?]
  | cons k ks ih =>
    by_cases h : ks = []
    · simp [find?_cons, h, value?_filterKeys]
    · simp [find?_cons, h, behind_filterKeys, ih]

theorem find?_insert (t : Trie κ α) (js : List κ) (v : α) {ks : List κ} (h : ks ≠ []) :
    (t.insert js v).find? ks = if ks = js then some v else t.find? ks := by
  induction ks generalizing t js with
  | nil => exact absurd rfl h
  | cons k ks ih =>
    match js with
    | [] => simp [insert]
    | [j] =>
      by_cases hk : k = j <;> by_cases hks : ks = [] <;>
        simp [insert, find?_cons, value?_setBranch, behind_setBranch, hk, hks]
    | j :: i :: js =>
      by_cases hks : ks = []
      · by_cases hk : k = j <;> simp [insert, find?_cons, value?_setBranch, hk, hks]
      · by_cases hk : k = j
        · simp [insert, find?_cons, behind_setBranch, hk, hks, ih _ _ hks]
        · simp [insert, find?_cons, behind_setBranch, hk, hks]

end Trie

end KnownIssues
