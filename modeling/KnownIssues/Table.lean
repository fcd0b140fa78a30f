/-!
# Tables

A finite map as the list of its entries, no two with the same key.  The newest entry stands in
front.  `find?` sees an insertion at its key only (`find?_insert`), a removal likewise
(`find?_erase`), and a key is in the list of keys iff it is found (`mem_keys_iff`).
-/

namespace KnownIssues

/-- A finite map from `κ` to `α`. -/
structure Table (κ α : Type) where
  entries : List (κ × α)
  distinct : (entries.map Prod.fst).Nodup

namespace Table

variable {κ α : Type} [DecidableEq κ]

/-- The map without entries. -/
def empty : Table κ α :=
  ⟨[], List.nodup_nil⟩

/-- What the map holds at a key. -/
def find? (t : Table κ α) (k : κ) : Option α :=
  t.entries.lookup k

/-- The keys of the map, the newest first. -/
def keys (t : Table κ α) : List κ :=
  t.entries.map Prod.fst

/-- How many keys the map has. -/
def size (t : Table κ α) : Nat :=
  t.keys.length

/-- The map without the entries at keys that fail a test. -/
def filterKeys (t : Table κ α) (p : κ → Bool) : Table κ α :=
  ⟨t.entries.filter fun e => p e.1, t.distinct.sublist (List.filter_sublist.map _)⟩

/-- The map without a key. -/
def erase (t : Table κ α) (k : κ) : Table κ α :=
  t.filterKeys (· ≠ k)

/-- The map with a value at a key, in place of what was there. -/
def insert (t : Table κ α) (k : κ) (v : α) : Table κ α where
  entries := (k, v) :: (t.erase k).entries
  distinct := by
    rw [List.map_cons, List.nodup_cons]
    refine ⟨fun h => ?_, (t.erase k).distinct⟩
    obtain ⟨e, he, hk⟩ := List.mem_map.1 h
    simp [erase, filterKeys, hk] at he

/-- The map of a list of pairs, where a later pair replaces an earlier one. -/
def ofList (l : List (κ × α)) : Table κ α :=
  l.foldl (fun t e => t.insert e.1 e.2) empty

@[simp] theorem find?_empty (k : κ) : (empty : Table κ α).find? k = none := rfl

theorem lookup_filter (l : List (κ × α)) (p : κ → Bool) (k : κ) :
    (l.filter fun e => p e.1).lookup k = if p k then l.lookup k else none := by
  induction l with
  | nil => simp
  | cons e l ih =>
    obtain ⟨j, v⟩ := e
    by_cases hk : k = j
    · subst hk
      by_cases hp : p k <;> simp [hp, ih]
    · have hne : (k == j) = false := by simp [hk]
      by_cases hp : p j <;> simp [List.lookup_cons, hp, hne, ih]

theorem find?_filterKeys (t : Table κ α) (p : κ → Bool) (k : κ) :
    (t.filterKeys p).find? k = if p k then t.find? k else none :=
  lookup_filter t.entries p k

theorem find?_erase (t : Table κ α) (j k : κ) :
    (t.erase j).find? k = if k = j then none else t.find? k := by
  rw [erase, find?_filterKeys]
  by_cases h : k = j <;> simp [h]

theorem find?_insert (t : Table κ α) (j k : κ) (v : α) :
    (t.insert j v).find? k = if k = j then some v else t.find? k := by
  have herase := find?_erase t j k
  unfold find? at herase ⊢
  by_cases h : k = j
  · simp [insert, h]
  · have hne : (k == j) = false := by simp [h]
    simp only [insert, List.lookup_cons, hne, herase, if_neg h]

theorem mem_keys_iff {t : Table κ α} {k : κ} : k ∈ t.keys ↔ (t.find? k).isSome := by
  unfold keys find?
  induction t.entries with
  | nil => simp
  | cons e l ih =>
    obtain ⟨j, v⟩ := e
    by_cases h : k = j
    · simp [h]
    · have hne : (k == j) = false := by simp [h]
      simp [List.lookup_cons, h, hne, ← ih]

end Table

end KnownIssues
