import KnownIssues.Proofs.Json.Extension
import KnownIssues.Proofs.Outcome
import KnownIssues.Proofs.Store

/-! # Files that are cut off or go on

Writing a file is not one step, so a reader may meet the beginning of a file only.  That is never
taken for a shorter list: wherever a file of issues is cut, it is read whole or not at all, and
behind it only blanks may stand (`IssueStore.read_whole`).

* `LineRange.closed_format`, `Issue.closed_format`, `IssueFile.closed_format`: the readers of the
  records take what was written and nothing shorter, whatever stands behind it.
* `IssueStore.read_of_cut`: bytes that are cut off within a character are no text; otherwise they
  are the beginning of the text (`Text.exists_append_of_encode_prefix`).
* `IssueStore.read_of_longer`: what stands behind the text. -/

namespace KnownIssues

open Json

/-! ### Written records are closed -/

theorem steady_field {δ β : Type} {p : Reader β} (hp : p.Steady) (name : String)
    (get : δ → Option β) (put : β → δ → δ) : (Field.of name get put p).reader.Steady :=
  steady_map hp put

theorem LineRange.closed_format : format.reader.Closed := by
  refine Shape.closed_record (List.forall_mem_cons.2 ⟨?_, List.forall_mem_singleton.2 ?_⟩)
  · exact steady_field steady_word ..
  · exact steady_field steady_word ..

theorem Issue.closed_format : format.reader.Closed := by
  refine Shape.closed_record (List.forall_mem_cons.2 ⟨?_, List.forall_mem_cons.2
    ⟨?_, List.forall_mem_singleton.2 ?_⟩⟩)
  · exact steady_field closed_text.steady ..
  · exact steady_field (closed_orNull LineRange.closed_format
      fun _ _ _ => Shape.skipGap_ne_nil_of_record).steady ..
  · exact steady_field closed_text.steady ..

theorem IssueFile.closed_format : format.reader.Closed := by
  refine Shape.closed_record (List.forall_mem_singleton.2 ?_)
  exact steady_field (closed_list Issue.closed_format.steady).steady ..

/-! ### Reading a file -/

namespace IssueStore

variable {st : IssueStore} {d : Disk} {key : ProjectKey} {bytes : List UInt8}

/-- A file that was cut off is not read. -/
theorem read_of_cut {l : List Issue} (h : d.read (st.pathFor key) = .ok bytes)
    (hcut : bytes <+: fileBytes l) (hne : bytes ≠ fileBytes l) :
    (Text.decode? bytes = none → st.read d key = .error (.disk .notUtf8)) ∧
      (Text.decode? bytes ≠ none →
        ∃ reason, st.read d key = .error (.invalidFile (st.pathFor key) reason)) := by
  refine ⟨read_of_not_text h, fun htext => ?_⟩
  obtain ⟨text, htext⟩ := Option.ne_none_iff_exists'.1 htext
  obtain rfl := Text.encode_of_decode? htext
  obtain ⟨rest, hrest⟩ := Text.exists_append_of_encode_prefix hcut
  have hleft : rest.toList ≠ [] := by
    rintro h0
    obtain rfl := String.toList_eq_nil_iff.1 h0
    rw [String.append_empty] at hrest
    exact hne (by rw [fileBytes, hrest])
  obtain ⟨fault, hfault⟩ := IssueFile.closed_format.decode_of_prefix
    (IssueFile.readsBack_format.run_pretty ⟨l⟩) hleft (by rw [hrest, String.toList_append])
  rw [String.ofList_toList] at hfault
  exact ⟨fault, read_of_fault h htext hfault⟩

theorem read_of_longer {l : List Issue} {s : String}
    (h : d.read (st.pathFor key) = .ok (fileBytes l ++ Text.encode s)) :
    (Gap s.toList → st.read d key = .ok (some l)) ∧
      (¬ Gap s.toList →
        ∃ reason, st.read d key = .error (.invalidFile (st.pathFor key) reason)) := by
  have htext : Text.decode? (fileBytes l ++ Text.encode s)
      = some (.ofList ((IssueFile.format.pretty ⟨l⟩).toList ++ s.toList)) := by
    rw [fileBytes, ← Text.encode_append, Text.decode?_encode, ← String.toList_append,
      String.ofList_toList]
  obtain ⟨hblank, hmore⟩ := IssueFile.closed_format.decode_append
    (IssueFile.readsBack_format.run_pretty ⟨l⟩) s.toList
  refine ⟨fun hs => read_of_file h htext (hblank hs), fun hs => ?_⟩
  obtain ⟨fault, hfault, -⟩ := hmore hs
  exact ⟨fault, read_of_fault h htext hfault⟩

end IssueStore

theorem IssueCache.issues_of_read_error {c : IssueCache} {st : IssueStore} (hc : c.store = some st)
    {key : ProjectKey} (hk : c.entries.find? key = none) {d : Disk} {e : Fault}
    (h : st.read d key = .error e) : (c.issues d key).issues = [] := by
  rw [issues_issues, hk, hc]
  exact IssueStore.listOn_of_read_error h

/-- **A file of issues is read whole or not at all.**  A write that succeeds leaves just the bytes of the
issues in the file.  If they were cut off anywhere, the store tells that this is no text or no file of issues,
and a cache that loads it has no issues.  If they go on, they are read as long as only blanks come behind. -/
theorem IssueStore.read_whole (st : IssueStore) (d : Disk) (key : ProjectKey) (l : List Issue) :
    (∀ d₀ d₁, st.write d₀ key l = (d₁, .ok ()) → d₁.read (st.pathFor key) = .ok (fileBytes l)) ∧
    (∀ bytes, d.read (st.pathFor key) = .ok bytes → bytes <+: fileBytes l → bytes ≠ fileBytes l →
      (Text.decode? bytes = none → st.read d key = .error (.disk .notUtf8)) ∧
      (Text.decode? bytes ≠ none →
        ∃ reason, st.read d key = .error (.invalidFile (st.pathFor key) reason)) ∧
      ∀ c : IssueCache, c.store = some st → c.entries.find? key = none →
        (c.issues d key).issues = []) ∧
    ∀ s : String, d.read (st.pathFor key) = .ok (fileBytes l ++ Text.encode s) →
      ((∀ c ∈ s.toList, c ∈ [' ', '\n', '\t', '\r']) → st.read d key = .ok (some l)) ∧
      ((∃ c ∈ s.toList, c ∉ [' ', '\n', '\t', '\r']) →
        ∃ reason, st.read d key = .error (.invalidFile (st.pathFor key) reason)) := by
  refine ⟨fun d₀ d₁ hwrite => (write_ok hwrite).1, fun bytes hread hcut hne => ?_, fun s hread => ?_⟩
  · obtain ⟨hnot, htext⟩ := read_of_cut hread hcut hne
    refine ⟨hnot, htext, fun c hc hk => ?_⟩
    by_cases hbytes : Text.decode? bytes = none
    · exact IssueCache.issues_of_read_error hc hk (hnot hbytes)
    · obtain ⟨_, herror⟩ := htext hbytes
      exact IssueCache.issues_of_read_error hc hk herror
  · obtain ⟨hblank, hmore⟩ := read_of_longer hread
    refine ⟨fun hs => hblank (gap_iff.2 hs), fun ⟨c, hc, hother⟩ => hmore fun hs => ?_⟩
    exact hother (gap_iff.1 hs c hc)

/-- The file of one issue, as it was written, cut off within a character of its rule and before its last
brace, and with a line end or a letter behind it. -/
theorem IssueStore.read_whole_cut :
    let l : List Issue := [⟨"é", none, ""⟩]
    let key : ProjectKey := ⟨"k", by decide, by decide⟩
    let store : IssueStore := ⟨.ofString "known"⟩
    ∃ written bytes, store.write .empty key l = (written, .ok ()) ∧
      written.read (store.pathFor key) = .ok bytes ∧ bytes.length = 72 ∧
      let disk (other : List UInt8) := written.set (store.pathFor key).place (.file other)
      store.read (disk (bytes.take 40)) key = .error (.disk .notUtf8) ∧
      (∃ reason, store.read (disk bytes.dropLast) key
        = .error (.invalidFile (store.pathFor key) reason)) ∧
      ((IssueCache.empty (some store)).issues (disk bytes.dropLast) key).issues = [] ∧
      store.read (disk (bytes ++ Text.encode "\r\n")) key = .ok (some l) ∧
      ∃ reason, store.read (disk (bytes ++ Text.encode "\nx")) key
        = .error (.invalidFile (store.pathFor key) reason) := by
  intro l key store
  have hok : (store.write .empty key l).2.isOk = true := by decide +kernel
  obtain ⟨written, hwrite⟩ : ∃ written, store.write .empty key l = (written, .ok ()) :=
    ⟨_, write_eq_of_isOk hok⟩
  have hread : written.read (store.pathFor key) = .ok (fileBytes l) :=
    (read_whole store .empty key l).1 _ _ hwrite
  obtain ⟨hslash, q, hfind⟩ := Disk.read_eq_ok hread
  have hother (other : List UInt8) :
      (written.set (store.pathFor key).place (.file other)).read (store.pathFor key) = .ok other :=
    Disk.read_set_file hslash hfind (Target.hasRoom_file q _) other
  refine ⟨written, fileBytes l, hwrite, hread, by decide +kernel, ?_⟩
  intro disk
  obtain ⟨-, hcut, -⟩ := read_whole store (disk ((fileBytes l).take 40)) key l
  have hword := (hcut _ (hother _) (List.take_prefix ..) (by decide +kernel)).1 (by decide +kernel)
  obtain ⟨-, hcut, -⟩ := read_whole store (disk (fileBytes l).dropLast) key l
  obtain ⟨-, hbrace, hlist⟩ := hcut _ (hother _) (List.dropLast_prefix _) (by decide +kernel)
  obtain ⟨-, -, hmore⟩ := read_whole store (disk (fileBytes l ++ Text.encode "\r\n")) key l
  have hblank := (hmore _ (hother _)).1 (by simp)
  obtain ⟨-, -, hmore⟩ := read_whole store (disk (fileBytes l ++ Text.encode "\nx")) key l
  have hletter := (hmore _ (hother _)).2 ⟨'x', by decide, by decide⟩
  exact ⟨hword, hbrace (by decide +kernel), hlist _ rfl (by decide +kernel), hblank, hletter⟩

end KnownIssues
