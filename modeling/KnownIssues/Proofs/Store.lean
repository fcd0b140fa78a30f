import KnownIssues.Proofs.Disk
import KnownIssues.Proofs.Formats
import KnownIssues.Proofs.Session

/-! # The store is a map from keys to issues

No two keys share a file (`place_pathFor_inj`), and a file that was written is read back as the
issues that were written (`read_of_fileBytes`).  So a directory of files holds a map (`Holds`): the
issues that were last saved for each key (`saved`), and besides what was there at first.

* `write_ok`, `write_error`: what one write does to the disk, whether it succeeds or fails.
* `Holds.step`, `Holds.after`: one action keeps what is held, and so do many.
* `store_refines_saved`: after any actions, what is read, and what has changed on the disk. -/

namespace KnownIssues

namespace IssueStore

/-! ### Names of files -/

theorem slash_not_mem_encodeByte (b : UInt8) :
    Path.slash ∉ (Text.Percent.encodeByte b).flatMap String.utf8EncodeChar := by
  have hall : ∀ n < 256, Path.slash ∉
      (Text.Percent.encodeByte (UInt8.ofNat n)).flatMap String.utf8EncodeChar := by
    decide +kernel
  have hb := hall b.toNat b.toNat_lt
  rwa [UInt8.ofNat_toNat] at hb

theorem encode_fileName (key : ProjectKey) :
    Text.encode (fileName key)
      = (Text.Percent.encode (Text.encode key.text)).flatMap String.utf8EncodeChar
        ++ [0x2E, 0x6A, 0x73, 0x6F, 0x6E] := by
  simp only [fileName, Text.encode, String.toList_append, String.toList_ofList,
    List.flatMap_append]
  rfl

theorem isName_fileName (key : ProjectKey) : Path.IsName (Text.encode (fileName key)) := by
  rw [encode_fileName]
  generalize Text.encode key.text = bytes
  have hescaped : Path.slash ∉ (Text.Percent.encode bytes).flatMap String.utf8EncodeChar := by
    intro h
    rw [Text.Percent.encode, List.flatMap_assoc, List.mem_flatMap] at h
    obtain ⟨b, -, hb⟩ := h
    exact slash_not_mem_encodeByte b hb
  generalize (Text.Percent.encode bytes).flatMap String.utf8EncodeChar = front at hescaped
  refine ⟨fun h => ?_, ?_⟩
  · rcases List.mem_append.1 h with h | h
    · exact hescaped h
    · revert h; decide
  · -- the ending makes it longer than one dot or two
    have hlen (m : List UInt8) (hm : m.length < 5) : front ++ [0x2E, 0x6A, 0x73, 0x6F, 0x6E] ≠ m := by
      rintro rfl
      rw [List.length_append] at hm
      exact absurd hm (by simp)
    rw [Path.component?, if_neg (hlen _ (by decide)), if_neg (hlen _ (by decide)),
      if_neg (hlen _ (by decide))]

theorem fileName_inj {j k : ProjectKey} (h : fileName j = fileName k) : j = k := by
  have hchars := congrArg String.toList h
  simp only [fileName, String.toList_append, String.toList_ofList, List.append_left_inj] at hchars
  have hbytes := congrArg Text.Percent.decode? hchars
  rw [Text.Percent.decode?_encode, Text.Percent.decode?_encode, Option.some.injEq] at hbytes
  exact ProjectKey.ext (Text.encode_inj.1 hbytes)

theorem place_pathFor (st : IssueStore) (key : ProjectKey) :
    (st.pathFor key).place = st.dir.place.child (Text.encode (fileName key)) :=
  Path.place_child st.dir (isName_fileName key)

/-- **Each key has its own file.** -/
theorem place_pathFor_inj {st : IssueStore} {j k : ProjectKey}
    (h : (st.pathFor j).place = (st.pathFor k).place) : j = k := by
  rw [place_pathFor, place_pathFor] at h
  have hnames := congrArg Place.names h
  exact fileName_inj (Text.encode_inj.1 (List.cons.inj hnames).1)

/-! ### Reading and writing -/

variable {st : IssueStore} {d d' : Disk} {key : ProjectKey} {l : List Issue} {bytes : List UInt8}

theorem read_of_not_text (h : d.read (st.pathFor key) = .ok bytes)
    (hbytes : Text.decode? bytes = none) : st.read d key = .error (.disk .notUtf8) := by
  have htext : d.readText (st.pathFor key) = .error .notUtf8 := by
    simp only [Disk.readText, h, hbytes]
  unfold read
  simp only [htext]

theorem read_of_file (h : d.read (st.pathFor key) = .ok bytes) {text : String}
    (hbytes : Text.decode? bytes = some text) {file : IssueFile}
    (hfile : IssueFile.format.decode text = .ok file) : st.read d key = .ok (some file.issues) := by
  have htext : d.readText (st.pathFor key) = .ok text := by
    simp only [Disk.readText, h, hbytes]
  unfold read
  simp only [htext, hfile]

theorem read_of_fault (h : d.read (st.pathFor key) = .ok bytes) {text : String}
    (hbytes : Text.decode? bytes = some text) {reason : Json.Fault}
    (hfault : IssueFile.format.decode text = .error reason) :
    st.read d key = .error (.invalidFile (st.pathFor key) reason) := by
  have htext : d.readText (st.pathFor key) = .ok text := by
    simp only [Disk.readText, h, hbytes]
  unfold read
  simp only [htext, hfault]

theorem read_of_fileBytes (h : d.read (st.pathFor key) = .ok (fileBytes l)) :
    st.read d key = .ok (some l) :=
  read_of_file h (Text.decode?_encode _) (IssueFile.readsBack_format.decode_pretty ⟨l⟩)

theorem listOn_of_read (h : st.read d key = .ok (some l)) : st.listOn d key = l := by
  have hload := IssueCache.load_fst st d key
  unfold IssueCache.load at hload
  rw [h] at hload
  exact hload.symm

theorem write_ok (h : st.write d key l = (d', .ok ())) :
    d'.read (st.pathFor key) = .ok (fileBytes l) ∧
      Disk.Extends st.dir.Along (· = (st.pathFor key).place) d d' := by
  have hdirs := Disk.extends_makeDirs (· = (st.pathFor key).place) d st.dir
  unfold write at h
  split at h
  · cases h
  · next d₁ hmake =>
    rw [hmake] at hdirs
    split at h
    · next hwrite =>
      cases h
      exact ⟨Disk.read_write hwrite, hdirs.trans (Disk.extends_write hwrite)⟩
    · cases h

theorem listOn_of_write (h : st.write d key l = (d', .ok ())) : st.listOn d' key = l :=
  listOn_of_read (read_of_fileBytes (write_ok h).1)

theorem write_eq_of_isOk (h : (st.write d key l).2.isOk = true) :
    st.write d key l = ((st.write d key l).1, .ok ()) := by
  rcases hw : st.write d key l with ⟨d', _ | _⟩
  · rw [hw] at h
    cases h
  · rfl

theorem write_error {e : Fault} (h : st.write d key l = (d', .error e)) :
    Disk.Extends st.dir.Along (fun _ => False) d d' := by
  have hdirs := Disk.extends_makeDirs (fun _ => False) d st.dir
  unfold write at h
  split at h
  · next hmake => cases h; rwa [hmake] at hdirs
  · next hmake =>
    rw [hmake] at hdirs
    split at h
    · cases h
    · cases h; exact hdirs

/-! ### What the directory holds -/

/-- The disk holds the map in the files of its keys.  Since it was `d₀`, no other file was written,
and directories came up along the path of the store only. -/
structure Holds (st : IssueStore) (d₀ : Disk) (m : ProjectKey → Option (List Issue)) (d : Disk) :
    Prop where
  reads : ∀ key l, m key = some l → d.read (st.pathFor key) = .ok (fileBytes l)
  others : Disk.Extends st.dir.Along
    (fun q => ∃ key, (m key).isSome ∧ q = (st.pathFor key).place) d₀ d

/-- The map with other issues for a key. -/
def put (m : ProjectKey → Option (List Issue)) (key : ProjectKey) (l : List Issue) :
    ProjectKey → Option (List Issue) :=
  fun j => if j = key then some l else m j

variable {d₀ : Disk} {m : ProjectKey → Option (List Issue)}

theorem holds_nothing (st : IssueStore) (d : Disk) : st.Holds d (fun _ => none) d :=
  ⟨fun _ _ h => (nomatch h), Disk.Extends.refl⟩

theorem Holds.write_ok (hm : st.Holds d₀ m d) (h : st.write d key l = (d', .ok ())) :
    st.Holds d₀ (put m key l) d' := by
  obtain ⟨hread, hext⟩ := IssueStore.write_ok h
  refine ⟨fun j l' hj => ?_, ?_⟩
  · by_cases hjk : j = key
    · subst hjk
      rw [put, if_pos rfl] at hj
      cases hj
      exact hread
    · rw [put, if_neg hjk] at hj
      exact Disk.read_of_extends hext (fun hp => hjk (place_pathFor_inj hp)) (hm.reads j l' hj)
  · refine (hm.others.mono (fun _ => id) ?_).trans (hext.mono (fun _ => id) ?_)
    · rintro q ⟨j, hj, rfl⟩
      refine ⟨j, ?_, rfl⟩
      unfold put
      split
      · rfl
      · exact hj
    · rintro q rfl
      exact ⟨key, by simp [put], rfl⟩

theorem Holds.write_error {e : Fault} (hm : st.Holds d₀ m d)
    (h : st.write d key l = (d', .error e)) : st.Holds d₀ m d' := by
  have hext := IssueStore.write_error h
  exact ⟨fun j l' hj => Disk.read_of_extends hext id (hm.reads j l' hj),
    hm.others.trans (hext.mono (fun _ => id) fun _ => False.elim)⟩

end IssueStore

namespace Session

/-! ### Sessions -/

/-- What a turn makes of the map of saved issues: a write that succeeds replaces those of its key. -/
def save (m : ProjectKey → Option (List Issue)) : Action → Answer → ProjectKey → Option (List Issue)
  | .write key l, .done => IssueStore.put m key l
  | _, _ => m

/-- The map of saved issues after actions; `m` is the map before. -/
def savedFrom (s : Session) (m : ProjectKey → Option (List Issue)) :
    List Action → ProjectKey → Option (List Issue)
  | [] => m
  | a :: actions => (s.step a).session.savedFrom (save m a (s.step a).answer) actions

/-- The issues that the successful writes among these actions have saved for each key, the last one
for a key being the one that counts. -/
def saved (s : Session) (past : List Action) : ProjectKey → Option (List Issue) :=
  s.savedFrom (fun _ => none) past

theorem step_write {s : Session} {st : IssueStore} (hs : s.cache.store = some st) (key : ProjectKey)
    (l : List Issue) :
    ((s.step (.write key l)).answer = .done ∧
        st.write s.disk key l = ((s.step (.write key l)).session.disk, .ok ())) ∨
      ∃ e, (s.step (.write key l)).answer = .fault e ∧
        st.write s.disk key l = ((s.step (.write key l)).session.disk, .error e) := by
  rcases hw : st.write s.disk key l with ⟨d', _ | _⟩
  · next e => exact Or.inr ⟨e, by simp only [step, hs, hw], by simp only [step, hs, hw]⟩
  · exact Or.inl ⟨by simp only [step, hs, hw], by simp only [step, hs, hw]⟩

theorem disk_step (s : Session) {a : Action} (hw : ∀ key l, a ≠ .write key l)
    (he : ∀ e, a ≠ .edit e) : (s.step a).session.disk = s.disk := by
  cases a with
  | write key l => exact absurd rfl (hw key l)
  | edit e => exact absurd rfl (he e)
  | read key =>
    simp only [step]
    split
    · rfl
    · split <;> rfl
  | _ => rfl

end Session

namespace IssueStore

variable {st : IssueStore} {d₀ : Disk} {m : ProjectKey → Option (List Issue)}

/-- **One action** keeps what the directory holds, unless it comes from outside. -/
theorem Holds.step {s : Session} (hs : s.cache.store = some st) (hm : st.Holds d₀ m s.disk)
    {a : Action} (ha : ∀ e, a ≠ .edit e) :
    st.Holds d₀ (Session.save m a (s.step a).answer) (s.step a).session.disk := by
  by_cases hw : ∃ key l, a = .write key l
  · obtain ⟨key, l, rfl⟩ := hw
    rcases Session.step_write hs key l with ⟨hanswer, hwrite⟩ | ⟨e, hanswer, hwrite⟩
    · rw [hanswer]
      exact hm.write_ok hwrite
    · rw [hanswer]
      exact hm.write_error hwrite
  · have hsave : Session.save m a (s.step a).answer = m := by
      unfold Session.save
      split
      · exact absurd ⟨_, _, rfl⟩ hw
      · rfl
    rw [hsave, Session.disk_step s (fun key l he => hw ⟨key, l, he⟩) ha]
    exact hm

/-- **Many actions** do so too. -/
theorem Holds.after {s : Session} (hs : s.cache.store = some st) (hm : st.Holds d₀ m s.disk)
    {past : List Action} (hpast : ∀ e, .edit e ∉ past) :
    st.Holds d₀ (s.savedFrom m past) (s.after past).disk := by
  induction past generalizing s m with
  | nil => exact hm
  | cons a past ih =>
    refine ih ?_ (hm.step hs ?_) fun e he => hpast e (List.mem_cons_of_mem _ he)
    · rw [Session.store_step, hs]
    · rintro e rfl
      exact hpast e (List.mem_cons_self ..)

end IssueStore

namespace Session

/-- **The store refines a map.**  Whatever was done before, unless the disk was changed from outside,
what is read for a key are the issues that were saved for it last; every other regular file is as it
was, and none has come or gone; and a write that fails brings up directories along the path of the
store at most. -/
theorem store_refines_saved {s : Session} {st : IssueStore} (hs : s.cache.store = some st)
    {past : List Action} (hpast : ∀ e, .edit e ∉ past) :
    (∀ key l, s.saved past key = some l → st.read (s.after past).disk key = .ok (some l)) ∧
      (∀ q, (∀ key, q = (st.pathFor key).place → s.saved past key = none) →
        (s.after past).disk.fileAt? q = s.disk.fileAt? q) ∧
      ∀ key l e, ((s.after past).step (.write key l)).answer = .fault e → ∀ q,
        ((s.after past).step (.write key l)).session.disk.entryAt? q
            = (s.after past).disk.entryAt? q ∨
          (st.dir.Along q ∧ (s.after past).disk.entryAt? q = none ∧
            ((s.after past).step (.write key l)).session.disk.entryAt? q = some .directory) := by
  have hholds := (st.holds_nothing s.disk).after hs hpast
  refine ⟨fun key l hl => ?_, fun q hq => ?_, fun key l e he q => ?_⟩
  · exact IssueStore.read_of_fileBytes (hholds.reads key l hl)
  · refine hholds.others.fileAt? ?_
    rintro ⟨key, hkey, hplace⟩
    rw [← saved, hq key hplace] at hkey
    cases hkey
  · have hstore : (s.after past).cache.store = some st := (store_after s past).trans hs
    rcases step_write hstore key l with ⟨hanswer, -⟩ | ⟨e', -, hwrite⟩
    · rw [hanswer] at he; cases he
    · rcases IssueStore.write_error hwrite q with hsame | hdir | ⟨hfile, -⟩
      · exact Or.inl hsame
      · exact Or.inr hdir
      · exact hfile.elim

/-- Two keys one of which is spelled like the file of the other, and one of them written twice. -/
theorem store_refines_saved_twice :
    let j : ProjectKey := ⟨"a/b", by decide, by decide⟩
    let k : ProjectKey := ⟨"a%2Fb", by decide, by decide⟩
    let issue : Issue := ⟨"S1", some ⟨0, 18446744073709551615⟩, "\"\\\n"⟩
    let store : IssueStore := ⟨.ofString "known/issues"⟩
    let s := start .default .empty (some store)
    let past : List Action := [.write j [], .write k [], .clear, .write j [issue, issue]]
    s.cache.store = some store ∧ (∀ e, Action.edit e ∉ past) ∧
      store.read (s.after past).disk j = .ok (some [issue, issue]) ∧
      store.read (s.after past).disk k = .ok (some []) := by
  intro j k issue store s past
  have hs : s.cache.store = some store := rfl
  have hpast : ∀ e, Action.edit e ∉ past := by simp [past]
  obtain ⟨hread, -⟩ := store_refines_saved hs hpast
  exact ⟨hs, hpast, hread j _ (by decide +kernel), hread k _ (by decide +kernel)⟩

end Session

end KnownIssues
