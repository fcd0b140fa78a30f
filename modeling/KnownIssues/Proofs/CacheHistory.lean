import KnownIssues.Proofs.Store
import Mathlib.Data.Set.Card

/-! # What the cache answers, told by its history

For each key only some actions of the past count: those that settle it (an update, or one that makes
the cache forget it) and the first one since then that asked for it.

* `known?_step`: one step changes the entry of a key only if it settles the key, or if it asks for it
  and there is no entry.
* `known?_after_of_some`, `known?_after_of_none`: an entry stays until the key is settled again, and
  no entry comes up before somebody asks.
* `handsOut_after`: the list that is handed out, and the number of entries, after any actions. -/

namespace KnownIssues

namespace Session

/-- This is the list that the session hands out for a key: to those who ask for it, to those who
keep it under a name, and to a report. -/
structure HandsOut (s : Session) (key : ProjectKey) (l : List Issue) : Prop where
  issues : (s.step (.issues key)).answer = .issues l
  hold : ∀ name, (s.step (.hold key name)).session.held.find? name = some l
  report : ∀ c batch, s.lookup.resolve? c = some key →
    (s.step (.report c batch)).answer
      = .report ((givenSuppressor s.lookup s.registry l).report c batch ()).1

/-- At the end of these actions the cache has just been started, or has just forgotten the key. -/
def FreshAt (key : ProjectKey) (before : List Action) : Prop :=
  before = [] ∨ ∃ b a, before = b ++ [a] ∧ a.Forgets key

/-- After actions on a session with this lookup and store, the cache knows the key: it was handed
over or, if there is a store, asked for, and was not forgotten since. -/
def Knows (lookup : KeyLookup) (store : Option IssueStore) (past : List Action)
    (key : ProjectKey) : Prop :=
  ∃ before a later, past = before ++ a :: later ∧
    ((∃ l, a = .update key l) ∨ (store.isSome ∧ a.asks? lookup = some key)) ∧
    ∀ b ∈ later, ¬ b.Forgets key

/-! ### One step -/

/-- The entry of a key in the cache. -/
def known? (s : Session) (key : ProjectKey) : Option (List Issue) :=
  s.cache.entries.find? key

theorem known?_step_update (s : Session) (key : ProjectKey) (l : List Issue) :
    (s.step (.update key l)).session.known? key = some l := by
  rw [known?, cache_step]
  exact (Table.find?_insert ..).trans (if_pos rfl)

theorem known?_step_forgets (s : Session) {key : ProjectKey} {a : Action} (h : a.Forgets key) :
    (s.step a).session.known? key = none := by
  rw [known?, cache_step]
  cases a with
  | invalidate j =>
    obtain rfl : j = key := h
    exact (Table.find?_erase ..).trans (if_pos rfl)
  | clear => rfl
  | _ => exact h.elim

/-- **A step that does not settle a key** can only bring up an entry for it, by asking. -/
theorem known?_step (s : Session) {key : ProjectKey} {a : Action} (h : ¬ a.Settles key) :
    (s.step a).session.known? key
      = if a.asks? s.lookup = some key then
          (s.known? key).or (s.cache.store.map (·.listOn s.disk key))
        else s.known? key := by
  rw [known?, cache_step]
  cases hj : a.asks? s.lookup with
  | some j =>
    simp only [IssueCache.find?_issues, known?, Option.some.injEq, eq_comm]
  | none =>
    rw [if_neg (by simp)]
    cases a with
    | update j l =>
      have hne : key ≠ j := fun he => h (Or.inl ⟨l, he ▸ rfl⟩)
      exact (Table.find?_insert ..).trans (if_neg hne)
    | invalidate j =>
      have hne : key ≠ j := fun he => h (Or.inr he.symm)
      exact (Table.find?_erase ..).trans (if_neg hne)
    | clear => exact absurd (Or.inr trivial) h
    | _ => rfl

/-! ### Many steps -/

theorem known?_after_of_some {s : Session} {key : ProjectKey} {l : List Issue}
    (hs : s.known? key = some l) {later : List Action} (h : ∀ a ∈ later, ¬ a.Settles key) :
    (s.after later).known? key = some l := by
  induction later generalizing s with
  | nil => exact hs
  | cons a later ih =>
    rw [List.forall_mem_cons] at h
    refine ih ?_ h.2
    rw [known?_step s h.1, hs]
    simp

theorem known?_after_of_none {s : Session} {key : ProjectKey} (hs : s.known? key = none)
    {later : List Action} (h : ∀ a ∈ later, ¬ a.Settles key)
    (hq : s.cache.store = none ∨ ∀ a ∈ later, a.asks? s.lookup ≠ some key) :
    (s.after later).known? key = none := by
  induction later generalizing s with
  | nil => exact hs
  | cons a later ih =>
    rw [List.forall_mem_cons] at h
    refine ih ?_ h.2 ?_
    · rw [known?_step s h.1, hs]
      rcases hq with hq | hq
      · simp [hq]
      · rw [if_neg (hq a (List.mem_cons_self ..))]
    · rw [store_step, (lookup_step s a).1]
      exact hq.imp_right fun hq b hb => hq b (List.mem_cons_of_mem _ hb)

theorem known?_after_of_freshAt {s : Session} {store : Option IssueStore}
    (hs : s.cache = .empty store) {key : ProjectKey} {before : List Action}
    (h : FreshAt key before) : (s.after before).known? key = none := by
  rcases h with rfl | ⟨b, a, rfl, ha⟩
  · rw [after_nil, known?, hs]
    rfl
  · rw [after_append]
    exact known?_step_forgets _ ha

/-! ### The answers -/

theorem handsOut_issues (s : Session) (key : ProjectKey) :
    s.HandsOut key (s.cache.issues s.disk key).issues where
  issues := rfl
  hold _ := (Table.find?_insert ..).trans (if_pos rfl)
  report _ batch h := answer_step_report s h batch

theorem handsOut_of_known? {s : Session} {key : ProjectKey} {l : List Issue}
    (h : s.known? key = some l) : s.HandsOut key l := by
  have ho := handsOut_issues s key
  rw [IssueCache.issues_issues] at ho
  rw [known?] at h
  rwa [h] at ho

theorem handsOut_of_known?_none {s : Session} {key : ProjectKey} (h : s.known? key = none) :
    s.HandsOut key ((s.cache.store.map (·.listOn s.disk key)).getD []) := by
  have ho := handsOut_issues s key
  rw [IssueCache.issues_issues] at ho
  rw [known?] at h
  rwa [h] at ho

/-! ### The entries -/

theorem isSome_known?_step {s : Session} {key : ProjectKey} (hs : (s.known? key).isSome)
    {a : Action} (h : ¬ a.Forgets key) : ((s.step a).session.known? key).isSome := by
  by_cases hu : ∃ l, a = .update key l
  · obtain ⟨l, rfl⟩ := hu
    rw [known?_step_update]
    rfl
  · rw [known?_step s fun hset => hset.elim hu h]
    obtain ⟨l, hl⟩ := Option.isSome_iff_exists.1 hs
    rw [hl]
    split <;> rfl

theorem isSome_known?_after {s : Session} {key : ProjectKey} (hs : (s.known? key).isSome)
    {later : List Action} (h : ∀ a ∈ later, ¬ a.Forgets key) :
    ((s.after later).known? key).isSome := by
  induction later generalizing s with
  | nil => exact hs
  | cons a later ih =>
    rw [List.forall_mem_cons] at h
    exact ih (isSome_known?_step hs h.1) h.2

theorem Knows.append {lookup : KeyLookup} {store : Option IssueStore} {past : List Action}
    {key : ProjectKey} (h : Knows lookup store past key) {a : Action} (ha : ¬ a.Forgets key) :
    Knows lookup store (past ++ [a]) key := by
  obtain ⟨before, b, later, rfl, hb, hl⟩ := h
  refine ⟨before, b, later ++ [a], by simp, hb, fun c hc => ?_⟩
  rcases List.mem_append.1 hc with hc | hc
  · exact hl c hc
  · rw [List.mem_singleton.1 hc]; exact ha

/-- The cache has entries for just the keys that it knows by its history. -/
theorem isSome_known?_after_iff {s : Session} {store : Option IssueStore}
    (hs : s.cache = .empty store) (past : List Action) (key : ProjectKey) :
    ((s.after past).known? key).isSome ↔ Knows s.lookup store past key := by
  have hstore : s.cache.store = store := by rw [hs]; rfl
  constructor
  · intro h
    induction past using List.reverseRecOn with
    | nil => rw [after_nil, known?, hs] at h; cases h
    | append_singleton past a ih =>
      rw [after_append] at h
      have hforget : ¬ a.Forgets key := fun hf => by
        rw [show ((s.after past).after [a]).known? key = none from known?_step_forgets _ hf] at h
        cases h
      by_cases hu : ∃ l, a = .update key l
      · exact ⟨past, a, [], rfl, Or.inl hu, fun _ hb => by cases hb⟩
      · rw [show ((s.after past).after [a]).known? key = _ from
          known?_step _ fun hset => hset.elim hu hforget, lookup_after, store_after, hstore] at h
        split at h
        · next hask =>
          cases hst : store with
          | some st => exact ⟨past, a, [], rfl, Or.inr ⟨rfl, hask⟩, fun _ hb => by cases hb⟩
          | none =>
            subst hst
            rw [Option.map_none, Option.or_none] at h
            exact (ih h).append hforget
        · exact (ih h).append hforget
  · rintro ⟨before, a, later, rfl, ha, hl⟩
    rw [after_append, after_cons]
    refine isSome_known?_after ?_ hl
    rcases ha with ⟨l, rfl⟩ | ⟨hst, hask⟩
    · rw [known?_step_update]
      rfl
    · obtain ⟨st, hst⟩ := Option.isSome_iff_exists.1 hst
      rw [known?_step _ (Action.not_settles_of_asks? hask key), lookup_after, if_pos hask, store_after, hstore, hst]
      cases (s.after before).known? key <;> rfl

theorem encard_entries (s : Session) :
    {key | (s.known? key).isSome}.encard = s.cache.size := by
  have hkeys : {key | (s.known? key).isSome} = (s.cache.entries.keys.toFinset : Set ProjectKey) := by
    ext key
    simp [known?, Table.mem_keys_iff]
  have hnodup : s.cache.entries.keys.Nodup := s.cache.entries.distinct
  rw [hkeys, Set.encard_coe_eq_coe_finsetCard, List.toFinset_card_of_nodup hnodup]
  rfl

/-! ### The history -/

/-- A key was last settled by an update, or it was never settled since the cache was fresh. -/
theorem last_settled (key : ProjectKey) (past : List Action) :
    (∃ before l later, past = before ++ .update key l :: later ∧ ∀ a ∈ later, ¬ a.Settles key) ∨
      ∃ before later, past = before ++ later ∧ FreshAt key before ∧
        ∀ a ∈ later, ¬ a.Settles key := by
  induction past using List.reverseRecOn with
  | nil => exact Or.inr ⟨[], [], rfl, Or.inl rfl, fun _ ha => by cases ha⟩
  | append_singleton past a ih =>
    by_cases hset : a.Settles key
    · rcases hset with ⟨l, rfl⟩ | hf
      · exact Or.inl ⟨past, l, [], rfl, fun _ ha => by cases ha⟩
      · exact Or.inr ⟨past ++ [a], [], by simp, Or.inr ⟨past, a, rfl, hf⟩, fun _ ha => by cases ha⟩
    · have happend : ∀ later : List Action, (∀ b ∈ later, ¬ b.Settles key) →
          ∀ b ∈ later ++ [a], ¬ b.Settles key := by
        intro later hl b hb
        rcases List.mem_append.1 hb with hb | hb
        · exact hl b hb
        · rw [List.mem_singleton.1 hb]; exact hset
      rcases ih with ⟨before, l, later, rfl, hl⟩ | ⟨before, later, rfl, hf, hl⟩
      · exact Or.inl ⟨before, l, later ++ [a], by simp, happend later hl⟩
      · exact Or.inr ⟨before, later ++ [a], by simp, hf, happend later hl⟩

/-- **What the cache hands out, by its history.**  Every history is of one of the two kinds.  If the
key was last settled by an update, it is the list of that update.  Else it is what the file of the
key held when somebody first asked for the key since the cache was fresh, be it only now; without a
store it is no list at all.  The entries are the keys that the history knows. -/
theorem handsOut_after {s : Session} {store : Option IssueStore} (hs : s.cache = .empty store)
    (past : List Action) :
    (∀ key,
      (∃ before l later, past = before ++ .update key l :: later ∧ ∀ a ∈ later, ¬ a.Settles key) ∨
        ∃ before later, past = before ++ later ∧ FreshAt key before ∧
          ∀ a ∈ later, ¬ a.Settles key) ∧
    (∀ key before l later, past = before ++ .update key l :: later →
      (∀ a ∈ later, ¬ a.Settles key) → (s.after past).HandsOut key l) ∧
    (∀ key before later, past = before ++ later → FreshAt key before →
      (∀ a ∈ later, ¬ a.Settles key) →
        (∀ st, store = some st →
          ((∀ a ∈ later, a.asks? s.lookup ≠ some key) →
            (s.after past).HandsOut key (st.listOn (s.after past).disk key)) ∧
          ∀ quiet a rest, later = quiet ++ a :: rest →
            (∀ b ∈ quiet, b.asks? s.lookup ≠ some key) → a.asks? s.lookup = some key →
              (s.after past).HandsOut key (st.listOn (s.after (before ++ quiet)).disk key)) ∧
        (store = none → (s.after past).HandsOut key [])) ∧
    {key | Knows s.lookup store past key}.encard = (s.after past).cache.size := by
  have hstore : s.cache.store = store := by rw [hs]; rfl
  refine ⟨fun key => last_settled key past, ?_, ?_, ?_⟩
  · rintro key before l later rfl hl
    refine handsOut_of_known? ?_
    rw [after_append, after_cons]
    exact known?_after_of_some (known?_step_update ..) hl
  · rintro key before later rfl hf hl
    have hnone := known?_after_of_freshAt hs hf
    have hafter : (s.after (before ++ later)).cache.store = store := by rw [store_after, hstore]
    refine ⟨?_, ?_⟩
    · rintro st rfl
      refine ⟨fun hq => ?_, ?_⟩
      · have hentry : (s.after (before ++ later)).known? key = none := by
          rw [after_append]
          exact known?_after_of_none hnone hl (Or.inr (by rwa [lookup_after]))
        have ho := handsOut_of_known?_none hentry
        rwa [hafter] at ho
      · rintro quiet a rest rfl hq ha
        simp only [List.forall_mem_append, List.forall_mem_cons] at hl
        refine handsOut_of_known? ?_
        rw [← List.append_assoc, after_append, after_cons]
        refine known?_after_of_some ?_ hl.2.2
        have hentry : (s.after (before ++ quiet)).known? key = none := by
          rw [after_append]
          exact known?_after_of_none hnone hl.1 (Or.inr (by rwa [lookup_after]))
        rw [known?_step _ hl.2.1, lookup_after, if_pos ha, hentry, store_after, hstore]
        rfl
    · rintro rfl
      have hentry : (s.after (before ++ later)).known? key = none := by
        rw [after_append]
        exact known?_after_of_none hnone hl (Or.inl (by rw [store_after, hstore]))
      have ho := handsOut_of_known?_none hentry
      rwa [hafter] at ho
  · rw [← encard_entries]
    simp only [isSome_known?_after_iff hs]

/-- A missing file is remembered, although a file is written later; what is written is loaded once the key is
forgotten, and gives way to issues that are handed over. -/
theorem handsOut_after_missing :
    let key : ProjectKey := ⟨"p", by decide, by decide⟩
    let issue : Issue := ⟨"S1", none, ""⟩
    let store : IssueStore := ⟨.ofString "store"⟩
    let s := start .default .empty (some store)
    let past : List Action := [.update key [issue, issue], .clear, .issues key, .write key [issue]]
    s.cache = .empty (some store) ∧ (s.after past).HandsOut key [] ∧
      (s.after (past ++ [.invalidate key])).HandsOut key [issue] ∧
      (s.after (past ++ [.invalidate key, .issues key, .write key []])).HandsOut key [issue] ∧
      (s.after (past ++ [.update key [issue, issue]])).HandsOut key [issue, issue] := by
  intro key issue store s past
  have hs : s.cache = .empty (some store) := rfl
  have hquiet (l : List Issue) : ∀ a ∈ [Action.issues key, .write key l], ¬ a.Settles key := by
    simp [Action.Settles, Action.Forgets]
  have hmissing : store.listOn .empty key = [] := by decide
  have hsaved : s.saved (past ++ [.invalidate key]) key = some [issue] := by decide +kernel
  have hwritten : store.listOn (s.after (past ++ [.invalidate key])).disk key = [issue] := by
    have hholds : store.Holds s.disk (s.saved (past ++ [.invalidate key]))
        (s.after (past ++ [.invalidate key])).disk :=
      (store.holds_nothing s.disk).after (congrArg IssueCache.store hs) (by simp [past])
    exact IssueStore.listOn_of_read (IssueStore.read_of_fileBytes (hholds.reads key _ hsaved))
  obtain ⟨-, -, hloads, -⟩ := handsOut_after hs past
  obtain ⟨-, -, hloads', -⟩ := handsOut_after hs (past ++ [.invalidate key])
  obtain ⟨-, -, hkeeps, -⟩ := handsOut_after hs (past ++ [.invalidate key, .issues key, .write key []])
  obtain ⟨-, hupdated, -⟩ := handsOut_after hs (past ++ [.update key [issue, issue]])
  have hforgot : FreshAt key (past ++ [.invalidate key]) := Or.inr ⟨past, .invalidate key, rfl, rfl⟩
  refine ⟨hs, ?_, ?_, ?_, ?_⟩
  · obtain ⟨-, hfirst⟩ := (hloads key [.update key [issue, issue], .clear]
      [.issues key, .write key [issue]] rfl
      (Or.inr ⟨[.update key [issue, issue]], .clear, rfl, trivial⟩) (hquiet _)).1 store rfl
    have hout := hfirst [] (.issues key) [.write key [issue]] rfl (by simp) rfl
    rwa [show (s.after ([.update key [issue, issue], .clear] ++ [])).disk = .empty from rfl,
      hmissing] at hout
  · obtain ⟨hnow, -⟩ := (hloads' key (past ++ [.invalidate key]) [] (List.append_nil _).symm hforgot
      (by simp)).1 store rfl
    have hout := hnow (by simp)
    rwa [hwritten] at hout
  · obtain ⟨-, hfirst⟩ := (hkeeps key (past ++ [.invalidate key]) [.issues key, .write key []] rfl hforgot
      (hquiet _)).1 store rfl
    have hout := hfirst [] (.issues key) [.write key []] rfl (by simp) rfl
    rwa [List.append_nil, hwritten] at hout
  · exact hupdated key past [issue, issue] [] rfl fun _ ha => nomatch ha

end Session

end KnownIssues
