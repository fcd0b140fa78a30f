import KnownIssues.Proofs.CacheHistory
import KnownIssues.Proofs.StoreRoom

/-! # Projects do not see each other

What a session answers for a key is decided by the entry of the key in the cache, by what its file
holds, and by whether the file can be written.  Two sessions that agree in these are `Alike` for the
key.

* `Alike.step_elsewhere`: an action for another key leads to a session that is alike.
* `Alike.step`: alike sessions stay so under any other action, unless it comes from outside, and they
  answer the key alike (`Alike.answer`).
* `consultations_filter`: the actions for other keys can be left out of a run.

A write for another project may make the directory of the store, and this changes what the file system
says of a file that is missing.  So what is read from the store without the cache is not compared. -/

namespace KnownIssues

namespace IssueStore

variable {st : IssueStore} {d d' d₁ d₁' : Disk} {j key : ProjectKey} {l : List Issue}
  {r r₁ : Except Fault Unit}

theorem roomFor_write (hst : st.dir.IsPlain) (h : st.write d j l = (d', r)) (key : ProjectKey) :
    st.RoomFor d' key ↔ st.RoomFor d key := by
  cases r with
  | ok u => exact RoomFor.congr hst (write_ok h).2 fun _ hq => ⟨j, hq⟩
  | error e => exact RoomFor.congr hst (write_error h) fun _ => False.elim

theorem listOn_write_of_ne (hst : st.dir.IsPlain) (hd : d.IsTree)
    (h : st.write d j l = (d', r)) (hne : j ≠ key) : st.listOn d' key = st.listOn d key := by
  cases r with
  | ok u =>
    exact listOn_of_extends hst hd (write_ok h).2 fun hp => hne (place_pathFor_inj hp).symm
  | error e => exact listOn_of_extends hst hd (write_error h) id

/-- Two disks are the same to a project: its file holds the same issues, and can be written in both or
in neither. -/
structure SameFor (st : IssueStore) (key : ProjectKey) (d d' : Disk) : Prop where
  listOn : st.listOn d' key = st.listOn d key
  room : st.RoomFor d' key ↔ st.RoomFor d key

theorem SameFor.refl (st : IssueStore) (key : ProjectKey) (d : Disk) : st.SameFor key d d :=
  ⟨rfl, Iff.rfl⟩

theorem SameFor.symm (h : st.SameFor key d d') : st.SameFor key d' d :=
  ⟨h.listOn.symm, h.room.symm⟩

theorem SameFor.trans (h : st.SameFor key d d') (h' : st.SameFor key d' d₁) : st.SameFor key d d₁ :=
  ⟨h'.listOn.trans h.listOn, h'.room.trans h.room⟩

/-- **A write for another key** is not seen. -/
theorem sameFor_write_of_ne (hst : st.dir.IsPlain) (hd : d.IsTree)
    (h : st.write d j l = (d', r)) (hne : j ≠ key) : st.SameFor key d d' :=
  ⟨listOn_write_of_ne hst hd h hne, roomFor_write hst h key⟩

/-- **A write for the key itself** does the same to disks that are the same to it. -/
theorem SameFor.write (hsame : st.SameFor key d d₁) (hst : st.dir.IsPlain) (hd : d.IsTree)
    (hd₁ : d₁.IsTree) (h : st.write d key l = (d', r)) (h₁ : st.write d₁ key l = (d₁', r₁)) :
    st.SameFor key d' d₁' := by
  have hroom : st.RoomFor d₁' key ↔ st.RoomFor d' key :=
    calc st.RoomFor d₁' key ↔ st.RoomFor d₁ key := roomFor_write hst h₁ key
      _ ↔ st.RoomFor d key := hsame.room
      _ ↔ st.RoomFor d' key := (roomFor_write hst h key).symm
  have hboth : (∃ d', st.write d₁ key l = (d', .ok ())) ↔ ∃ d', st.write d key l = (d', .ok ()) := by
    rw [exists_write_iff hst, exists_write_iff hst, hsame.room]
  refine ⟨?_, hroom⟩
  rcases r with e | ⟨⟩
  · rcases r₁ with e₁ | ⟨⟩
    · calc st.listOn d₁' key = st.listOn d₁ key := listOn_of_extends hst hd₁ (write_error h₁) id
        _ = st.listOn d key := hsame.listOn
        _ = st.listOn d' key := (listOn_of_extends hst hd (write_error h) id).symm
    · obtain ⟨d₂, h₂⟩ := hboth.1 ⟨_, h₁⟩
      rw [h] at h₂
      cases h₂
  · obtain ⟨d₂, h₂⟩ := hboth.2 ⟨_, h⟩
    rw [h₁] at h₂
    cases h₂
    rw [listOn_of_write h₁, listOn_of_write h]

end IssueStore

namespace Action

/-- The action is for another key, or is a report that finds no key or another one. -/
def isElsewhere (lookup : KeyLookup) (key : ProjectKey) : Action → Bool
  | .update j _ | .invalidate j | .issues j | .hold j _ | .read j | .write j _ => j ≠ key
  | .report c _ => lookup.resolve? c ≠ some key
  | _ => false

/-- The action is answered from the issues of the key: it asks for them, or it is a report that finds
the key. -/
def consults (lookup : KeyLookup) (key : ProjectKey) : Action → Bool
  | .issues j => j = key
  | .report c _ => lookup.resolve? c = some key
  | _ => false

variable {lookup : KeyLookup} {key : ProjectKey} {a : Action}

theorem asks?_of_isElsewhere (h : a.isElsewhere lookup key = true) : a.asks? lookup ≠ some key := by
  cases a <;> simp_all [isElsewhere, asks?]

theorem not_settles_of_isElsewhere (h : a.isElsewhere lookup key = true) : ¬ a.Settles key := by
  rintro (⟨l, rfl⟩ | hf)
  · simp [isElsewhere] at h
  · cases a <;> simp_all [isElsewhere, Forgets]

theorem consults_of_isElsewhere (h : a.isElsewhere lookup key = true) :
    a.consults lookup key = false := by
  cases a <;> simp_all [isElsewhere, consults]

end Action

namespace Session

/-- To those who ask for a key, the sessions are the same. -/
structure Alike (key : ProjectKey) (s t : Session) : Prop where
  lookup : t.lookup = s.lookup
  registry : t.registry = s.registry
  store : t.cache.store = s.cache.store
  known : t.known? key = s.known? key
  disk : ∀ st, s.cache.store = some st → st.SameFor key s.disk t.disk

variable {s t u : Session} {key : ProjectKey} {a : Action}

theorem Alike.refl (key : ProjectKey) (s : Session) : Alike key s s :=
  ⟨rfl, rfl, rfl, rfl, fun st _ => .refl st key s.disk⟩

theorem Alike.symm (h : Alike key s t) : Alike key t s :=
  ⟨h.lookup.symm, h.registry.symm, h.store.symm, h.known.symm,
    fun st hst => (h.disk st (h.store.symm.trans hst)).symm⟩

theorem Alike.trans (h : Alike key s t) (h' : Alike key t u) : Alike key s u :=
  ⟨h'.lookup.trans h.lookup, h'.registry.trans h.registry, h'.store.trans h.store,
    h'.known.trans h.known,
    fun st hst => (h.disk st hst).trans (h'.disk st (h.store.trans hst))⟩

/-! ### The answers -/

theorem Alike.issues (h : Alike key s t) :
    (t.cache.issues t.disk key).issues = (s.cache.issues s.disk key).issues := by
  have hknown : t.cache.entries.find? key = s.cache.entries.find? key := h.known
  rw [IssueCache.issues_issues, IssueCache.issues_issues, hknown, h.store]
  cases hst : s.cache.store with
  | none => rfl
  | some st => rw [Option.map_some, Option.map_some, (h.disk st hst).listOn]

/-- **Alike sessions answer the key alike.** -/
theorem Alike.answer (h : Alike key s t) (ha : a.consults s.lookup key = true) :
    (t.step a).answer = (s.step a).answer := by
  cases a with
  | issues j =>
    obtain rfl : j = key := by simpa [Action.consults] using ha
    exact congrArg Answer.issues h.issues
  | report c batch =>
    have hc : s.lookup.resolve? c = some key := by simpa [Action.consults] using ha
    have hc' : t.lookup.resolve? c = some key := by rwa [h.lookup]
    rw [answer_step_report t hc', answer_step_report s hc, h.lookup, h.registry, h.issues]
  | _ => cases ha

/-! ### One step -/

/-- **An action for another key** leads to a session that is alike. -/
theorem Alike.step_elsewhere (hdisk : s.disk.IsTree)
    (hplain : ∀ st, s.cache.store = some st → st.dir.IsPlain)
    (ha : a.isElsewhere s.lookup key = true) : Alike key s (s.step a).session := by
  refine ⟨(lookup_step s a).1, (lookup_step s a).2, store_step s a, ?_, fun st hst => ?_⟩
  · rw [known?_step s (Action.not_settles_of_isElsewhere ha),
      if_neg (Action.asks?_of_isElsewhere ha)]
  · by_cases hw : ∃ j l, a = .write j l
    · obtain ⟨j, l, rfl⟩ := hw
      have hne : j ≠ key := by simpa [Action.isElsewhere] using ha
      rcases step_write hst j l with ⟨-, h⟩ | ⟨e, -, h⟩
      · exact IssueStore.sameFor_write_of_ne (hplain st hst) hdisk h hne
      · exact IssueStore.sameFor_write_of_ne (hplain st hst) hdisk h hne
    · rw [disk_step s (fun j l he => hw ⟨j, l, he⟩) (by rintro e rfl; cases ha)]
      exact .refl st key s.disk

theorem Alike.known_step (h : Alike key s t) (a : Action) :
    (t.step a).session.known? key = (s.step a).session.known? key := by
  by_cases hset : a.Settles key
  · rcases hset with ⟨l, rfl⟩ | hf
    · rw [known?_step_update, known?_step_update]
    · rw [known?_step_forgets t hf, known?_step_forgets s hf]
  · rw [known?_step t hset, known?_step s hset, h.lookup, h.known, h.store]
    cases hst : s.cache.store with
    | none => rfl
    | some st => rw [Option.map_some, Option.map_some, (h.disk st hst).listOn]

theorem disk_of_step_write {st : IssueStore} (hst : s.cache.store = some st) (key : ProjectKey)
    (l : List Issue) :
    ∃ r, st.write s.disk key l = ((s.step (.write key l)).session.disk, r) := by
  rcases step_write hst key l with ⟨-, h⟩ | ⟨e, -, h⟩
  · exact ⟨_, h⟩
  · exact ⟨_, h⟩

/-- **Any other action** keeps sessions alike, unless it comes from outside. -/
theorem Alike.step (h : Alike key s t) (hs : s.disk.IsTree) (ht : t.disk.IsTree)
    (hplain : ∀ st, s.cache.store = some st → st.dir.IsPlain)
    (ha : a.isElsewhere s.lookup key = false) (hedit : ∀ e, a ≠ .edit e) :
    Alike key (s.step a).session (t.step a).session := by
  refine ⟨?_, ?_, ?_, h.known_step a, fun st hst => ?_⟩
  · rw [(lookup_step t a).1, (lookup_step s a).1, h.lookup]
  · rw [(lookup_step t a).2, (lookup_step s a).2, h.registry]
  · rw [store_step, store_step, h.store]
  · rw [store_step] at hst
    by_cases hw : ∃ j l, a = .write j l
    · obtain ⟨j, l, rfl⟩ := hw
      obtain rfl : j = key := by simpa [Action.isElsewhere] using ha
      obtain ⟨r, hwrite⟩ := disk_of_step_write hst j l
      obtain ⟨r', hwrite'⟩ := disk_of_step_write (h.store.trans hst) j l
      exact (h.disk st hst).write (hplain st hst) hs ht hwrite hwrite'
    · have hno : ∀ j l, a ≠ .write j l := fun j l he => hw ⟨j, l, he⟩
      rw [disk_step s hno hedit, disk_step t hno hedit]
      exact h.disk st hst

/-! ### Runs -/

/-- What is answered in a run from the issues of a key, and to which actions. -/
def consultations (s : Session) (key : ProjectKey) (actions : List Action) :
    List (Action × Answer) :=
  ((actions.zip (s.run actions)).filter (·.1.consults s.lookup key)).map
    fun (a, turn) => (a, turn.answer)

theorem consultations_cons (s : Session) (key : ProjectKey) (a : Action) (actions : List Action) :
    s.consultations key (a :: actions)
      = if a.consults s.lookup key then
          (a, (s.step a).answer) :: (s.step a).session.consultations key actions
        else (s.step a).session.consultations key actions := by
  unfold consultations
  rw [(lookup_step s a).1, run, List.zip_cons_cons, List.filter_cons]
  split
  · rfl
  · rfl

/-- From alike sessions, a run is answered alike without the actions for other keys. -/
theorem Alike.consultations (h : Alike key s t) (hs : s.disk.IsTree) (ht : t.disk.IsTree)
    (hplain : ∀ st, s.cache.store = some st → st.dir.IsPlain) {actions : List Action}
    (hactions : ∀ e, .edit e ∉ actions) :
    t.consultations key (actions.filter (!·.isElsewhere s.lookup key))
      = s.consultations key actions := by
  induction actions generalizing s t with
  | nil => rfl
  | cons a actions ih =>
    have hrest : ∀ e, Action.edit e ∉ actions := fun e he => hactions e (List.mem_cons_of_mem _ he)
    have hplain' : ∀ st, (s.step a).session.cache.store = some st → st.dir.IsPlain := by
      rwa [store_step]
    rw [consultations_cons, List.filter_cons]
    cases ha : a.isElsewhere s.lookup key with
    | true =>
      -- the step is left out: `t` is alike what `s` has become
      have hnext : Alike key (s.step a).session t := (step_elsewhere hs hplain ha).symm.trans h
      have hanswers := ih hnext (isTree_step hs a) ht hplain' hrest
      rw [(lookup_step s a).1] at hanswers
      rw [Action.consults_of_isElsewhere ha]
      exact hanswers
    | false =>
      have hedit : ∀ e, a ≠ .edit e := fun e he => hactions e (he ▸ List.mem_cons_self ..)
      have hnext := h.step hs ht hplain ha hedit
      have hanswers := ih hnext (isTree_step hs a) (isTree_step ht a) hplain' hrest
      rw [(lookup_step s a).1] at hanswers
      rw [Bool.not_false, if_pos rfl, consultations_cons, hanswers, h.lookup]
      cases hc : a.consults s.lookup key with
      | true => rw [if_pos rfl, if_pos rfl, h.answer hc]
      | false => rfl

/-- **Projects do not see each other.**  In a run of a session whose store, if there is one, lies at a
path of names, whoever asks for the issues of a key, and every report that finds the key, is answered
as in the run without the actions for other keys.  The disk may hold anything before; it is only not
changed from outside on the way. -/
theorem consultations_filter {s : Session} (hdisk : s.disk.IsTree)
    (hplain : ∀ st, s.cache.store = some st → st.dir.IsPlain) {actions : List Action}
    (hactions : ∀ e, .edit e ∉ actions) (key : ProjectKey) :
    s.consultations key (actions.filter (!·.isElsewhere s.lookup key))
      = s.consultations key actions :=
  (Alike.refl key s).consultations hdisk hdisk hplain hactions

theorem listOn_step_write {st : IssueStore} {l : List Issue} (hst : s.cache.store = some st)
    (hok : (st.write s.disk key l).2.isOk = true) :
    st.listOn (s.step (.write key l)).session.disk key = l := by
  obtain ⟨r, hwrite⟩ := disk_of_step_write hst key l
  have hdone := IssueStore.write_eq_of_isOk hok
  have hdisk := congrArg Prod.fst hwrite
  rw [hdisk] at hdone
  exact IssueStore.listOn_of_write hdone

/-- A file is loaded by the first who asks, and a report behind that goes by what it held. -/
theorem consultations_loaded {st : IssueStore} {l : List Issue} {c : Compilation}
    (hnone : s.known? key = none) (hst : s.cache.store = some st) (hload : st.listOn s.disk key = l)
    (hc : s.lookup.resolve? c = some key) (batch : List Diagnostic) :
    s.consultations key [.issues key, .report c batch]
      = [(.issues key, .issues l),
        (.report c batch, .report ((givenSuppressor s.lookup s.registry l).report c batch ()).1)] := by
  have hout := handsOut_of_known?_none hnone
  rw [hst, Option.map_some, Option.getD_some, hload] at hout
  have hknown : (s.step (.issues key)).session.known? key = some l := by
    have hask : (Action.issues key).asks? s.lookup = some key := rfl
    rw [known?_step s (Action.not_settles_of_asks? hask key), if_pos hask, hnone, hst,
      Option.map_some, hload]
    rfl
  obtain ⟨hlookup, hregistry⟩ := lookup_step s (.issues key)
  have hreport := (handsOut_of_known? hknown).report c batch (by rwa [hlookup])
  rw [hlookup, hregistry] at hreport
  rw [consultations_cons, if_pos (by simp [Action.consults]), consultations_cons,
    if_pos (by simp [Action.consults, hlookup, hc]), hout.issues, hreport]
  rfl

/-- The other project makes the directory, fills its file, is reported on and is forgotten; this one fills
its own, has it loaded, and is reported on by what was loaded. -/
theorem consultations_filter_loaded :
    let j : ProjectKey := ⟨"a/b", by decide, by decide⟩
    let k : ProjectKey := ⟨"a%2Fb", by decide, by decide⟩
    let ofJ : Compilation := ⟨.ofList [(KeyLookup.default.option, "a/b")], []⟩
    let ofK : Compilation := ⟨.ofList [(KeyLookup.default.option, " a%2Fb")], []⟩
    let l : List Issue := [⟨"s1", some ⟨1, 1⟩, ""⟩]
    let d : Diagnostic := ⟨"S1", ⟨⟨1, 0⟩, ⟨2, 0⟩⟩, ⟨"x"⟩⟩
    let batch : List Diagnostic := [d, ⟨"S1", .file, ⟨"x"⟩⟩]
    let why := Descriptor.ofRule "why" "S1"
    let store : IssueStore := ⟨.ofString "known/issues"⟩
    let s := (start .default ⟨[why]⟩ (some store)).after [.edit (.makeDirs (.ofString "known"))]
    let actions : List Action :=
      [.write j [⟨"S1", none, ""⟩], .report ofJ batch, .write k l, .issues j, .invalidate j, .issues k,
        .report ofK batch]
    s.disk.IsTree ∧ (∀ st, s.cache.store = some st → st.dir.IsPlain) ∧
      (∀ e, Action.edit e ∉ actions) ∧
      s.consultations k (actions.filter (!·.isElsewhere s.lookup k)) = s.consultations k actions ∧
      s.consultations k actions
        = [(.issues k, .issues l),
          (.report ofK batch,
            .report ⟨.ok 1, [⟨why, d⟩], [.suppressing "S1" 1, .suppressed 1 2 k]⟩)] := by
  intro j k ofJ ofK l d batch why store s actions
  have hdisk : s.disk.IsTree := isTree_after Disk.isTree_empty _
  have hplain : ∀ st, s.cache.store = some st → st.dir.IsPlain := by
    rintro st ⟨⟩
    exact ⟨[Text.encode "known", Text.encode "issues"], by decide⟩
  have hactions : ∀ e, Action.edit e ∉ actions := by simp [actions]
  have hfilter := consultations_filter hdisk hplain hactions k
  refine ⟨hdisk, hplain, hactions, hfilter, ?_⟩
  have hj : KeyLookup.default.resolve? ofJ = some j := by decide +kernel
  have hk : KeyLookup.default.resolve? ofK = some k := by decide +kernel
  have hne : j ≠ k := by decide
  have hkept : actions.filter (!·.isElsewhere s.lookup k)
      = [.write k l, .issues k, .report ofK batch] := by
    have hlookup : s.lookup = .default := rfl
    simp [actions, Action.isElsewhere, hlookup, hj, hk, hne]
  have hnone : (s.step (.write k l)).session.known? k = none := by
    rw [known?_step s (by simp [Action.Settles, Action.Forgets]), if_neg (by simp [Action.asks?])]
    rfl
  have hok : (store.write s.disk k l).2.isOk = true := by decide +kernel
  have hst : s.cache.store = some store := rfl
  have hload := listOn_step_write hst hok
  obtain ⟨hlookup, hregistry⟩ := lookup_step s (.write k l)
  have hc : (s.step (.write k l)).session.lookup.resolve? ofK = some k := by
    rw [hlookup]
    exact hk
  have hloaded := consultations_loaded hnone (store_step s _) hload hc batch
  rw [hlookup, hregistry, show s.lookup = .default from rfl, show s.registry = ⟨[why]⟩ from rfl]
    at hloaded
  have hrule : (Registry.mk [why]).get? "S1" = some why := by decide
  have hyes : isSettled [⟨"s1", some ⟨1, 1⟩, ""⟩] ⟨"S1", ⟨⟨1, 0⟩, ⟨2, 0⟩⟩, ⟨"x"⟩⟩ = .ok true := by rfl
  have hno : isSettled [⟨"s1", some ⟨1, 1⟩, ""⟩] ⟨"S1", .file, ⟨"x"⟩⟩ = .ok false := by rfl
  have hverdicts : ((givenSuppressor .default ⟨[why]⟩ l).verdicts l batch ()).1
      = [⟨why, d, .ok true⟩, ⟨why, ⟨"S1", .file, ⟨"x"⟩⟩, .ok false⟩] := by
    simp only [batch, d, l, Suppressor.verdicts, givenSuppressor, hrule, hyes, hno]
  have hgiven : ((givenSuppressor .default ⟨[why]⟩ l).report ofK batch ()).1
      = ⟨.ok 1, [⟨why, d⟩], [.suppressing "S1" 1, .suppressed 1 2 k]⟩ := by
    rw [Suppressor.report_some _ hk (show _ = (l, ()) from rfl) (by decide), hverdicts]
    rfl
  have hwrite : ¬ (Action.write k l).consults s.lookup k = true := Bool.false_ne_true
  rw [← hfilter, hkept, consultations_cons, if_neg hwrite, hloaded, hgiven]

end Session

end KnownIssues
