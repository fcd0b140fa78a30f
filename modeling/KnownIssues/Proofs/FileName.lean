import KnownIssues.Proofs.Store

/-! # The names of the files in a store

A file is named after its key in percent escapes: plain characters, and percent signs with two digits each
(`Escaped`).  No slash and no dot comes of it, so the name is one component of a path, whatever the key is,
and reading the escapes gives the bytes of the key again.  So there is one file for each key, right in the
directory of the store (`IssueStore.pathFor_escaped`). -/

namespace KnownIssues

namespace Text.Percent

/-- The digits of an escape. -/
def upperDigits : List Char :=
  ['0', '1', '2', '3', '4', '5', '6', '7', '8', '9', 'A', 'B', 'C', 'D', 'E', 'F']

/-- A character that stands for itself. -/
def IsPlainChar (c : Char) : Prop :=
  c.isAlphanum = true ∨ c = '_' ∨ c = '-'

/-- Characters in which percent signs stand only in front of two digits, as an escape of three. -/
inductive Escaped : List Char → Prop where
  | nil : Escaped []
  | plain {c : Char} {cs : List Char} : IsPlainChar c → Escaped cs → Escaped (c :: cs)
  | escape {a b : Char} {cs : List Char} :
    a ∈ upperDigits → b ∈ upperDigits → Escaped cs → Escaped ('%' :: a :: b :: cs)

theorem isPlainChar_of_mem_upperDigits {c : Char} (h : c ∈ upperDigits) : IsPlainChar c := by
  have hall : ∀ d ∈ upperDigits, d.isAlphanum = true := List.all_eq_true.1 (by decide)
  exact Or.inl (hall c h)

theorem upper_digit_mem : ∀ n < 16, (Nat.digitChar n).toUpper ∈ upperDigits := by
  decide

/-- **What is written is escaped.** -/
theorem escaped_encode (bytes : List UInt8) : Escaped (encode bytes) := by
  induction bytes with
  | nil => exact .nil
  | cons b bytes ih =>
    rw [encode, List.flatMap_cons, ← encode, encodeByte]
    split
    · next hplain =>
      refine .plain ?_ ih
      simpa [isPlain, IsPlainChar, or_assoc] using hplain
    · have hb := b.toNat_lt
      exact .escape (upper_digit_mem _ (by omega)) (upper_digit_mem _ (by omega)) ih

theorem Escaped.mem {cs : List Char} (h : Escaped cs) {c : Char} (hc : c ∈ cs) :
    IsPlainChar c ∨ c = '%' := by
  induction h with
  | nil => cases hc
  | plain hp _ ih =>
    rcases List.mem_cons.1 hc with rfl | hc
    · exact Or.inl hp
    · exact ih hc
  | escape ha hb _ ih =>
    simp only [List.mem_cons] at hc
    rcases hc with rfl | rfl | rfl | hc
    · exact Or.inr rfl
    · exact Or.inl (isPlainChar_of_mem_upperDigits ha)
    · exact Or.inl (isPlainChar_of_mem_upperDigits hb)
    · exact ih hc

theorem not_isPlainChar_percent : ¬ IsPlainChar '%' := by
  unfold IsPlainChar
  decide

theorem Escaped.digits {front rest : List Char} (h : Escaped (front ++ '%' :: rest)) :
    ∃ a b more, rest = a :: b :: more ∧ a ∈ upperDigits ∧ b ∈ upperDigits := by
  generalize hcs : front ++ '%' :: rest = cs at h
  induction h generalizing front with
  | nil => simp at hcs
  | plain hp _ ih =>
    cases front with
    | nil =>
      obtain ⟨rfl, -⟩ := List.cons.inj hcs
      exact absurd hp not_isPlainChar_percent
    | cons c front => exact ih (List.cons.inj hcs).2
  | @escape a b cs ha hb _ ih =>
    -- the percent sign is that of this escape or one of those behind, but no digit
    have hdigit {d : Char} (hd : d ∈ upperDigits) : d ≠ '%' := by
      rintro rfl
      exact not_isPlainChar_percent (isPlainChar_of_mem_upperDigits hd)
    match front with
    | [] => exact ⟨a, b, cs, (List.cons.inj hcs).2, ha, hb⟩
    | [x] =>
      simp only [List.cons_append, List.nil_append, List.cons.injEq] at hcs
      exact absurd hcs.2.1.symm (hdigit ha)
    | [x, y] =>
      simp only [List.cons_append, List.nil_append, List.cons.injEq] at hcs
      exact absurd hcs.2.2.1.symm (hdigit hb)
    | x :: y :: z :: front =>
      simp only [List.cons_append, List.cons.injEq] at hcs
      exact ih hcs.2.2.2

end Text.Percent

namespace IssueStore

open Text.Percent

theorem components_pathFor (s : IssueStore) (k : ProjectKey) :
    (s.pathFor k).components = s.dir.components ++ [.name (Text.encode (fileName k))] :=
  Path.components_child s.dir (isName_fileName k)

theorem components_pathFor_inj {s : IssueStore} {j k : ProjectKey} :
    (s.pathFor j).components = (s.pathFor k).components ↔ j = k := by
  constructor
  · intro h
    rw [components_pathFor, components_pathFor, List.append_cancel_left_eq] at h
    exact fileName_inj (Text.encode_inj.1 (Component.name.inj (List.cons.inj h).1))
  · rintro rfl
    rfl

theorem pathFor_inj {s : IssueStore} {j k : ProjectKey} : s.pathFor j = s.pathFor k ↔ j = k := by
  constructor
  · intro h
    exact components_pathFor_inj.1 (congrArg Path.components h)
  · rintro rfl
    rfl

theorem pathFor_ofString (dir : String) (k : ProjectKey) :
    (IssueStore.mk (.ofString dir)).pathFor k = .ofString (Path.join dir (fileName k)) :=
  (Path.ofString_join dir (fileName k)).symm

theorem join_fileName_inj {dir : String} {j k : ProjectKey} :
    Path.join dir (fileName j) = Path.join dir (fileName k) ↔ j = k := by
  constructor
  · intro h
    have hpath := congrArg Path.ofString h
    rwa [← pathFor_ofString, ← pathFor_ofString, pathFor_inj] at hpath
  · rintro rfl
    rfl

/-- No slash is in the name of a file, since the name is one part of a path. -/
theorem slash_not_mem_fileName (k : ProjectKey) : '/' ∉ (fileName k).toList := by
  rw [← Text.mem_flatMap_utf8EncodeChar (b := Path.slash) (by decide) (by decide)]
  exact (isName_fileName k).1

theorem fileName_ne_dots (k : ProjectKey) : fileName k ≠ "." ∧ fileName k ≠ ".." := by
  have hname := (isName_fileName k).2
  constructor
  · intro h
    rw [h] at hname
    exact absurd hname (by decide)
  · intro h
    rw [h] at hname
    exact absurd hname (by decide)

/-- **The path of a key's file.**  The file's name is plain characters and percent signs, each followed by
its two digits, and `.json` behind them; the escapes read are the bytes of the key.  It has no slash and is no
step up or to the same place, so whatever the directory is, the path is that of the directory and one name, and
the file lies right in it.  No two keys have the same path, be paths compared by bytes, by components or as
texts. -/
theorem pathFor_escaped (k : ProjectKey) :
    (∃ stem : List Char,
      fileName k = .ofList stem ++ ".json" ∧ decode? stem = some (Text.encode k.text) ∧
      Escaped stem ∧ (∀ c ∈ stem, IsPlainChar c ∨ c = '%') ∧
      ∀ front rest, stem = front ++ '%' :: rest →
        ∃ a b more, rest = a :: b :: more ∧ a ∈ upperDigits ∧ b ∈ upperDigits) ∧
    ('/' ∉ (fileName k).toList ∧ fileName k ≠ "." ∧ fileName k ≠ "..") ∧
    (∀ s : IssueStore,
      (s.pathFor k).components = s.dir.components ++ [.name (Text.encode (fileName k))] ∧
      (s.pathFor k).place = s.dir.place.child (Text.encode (fileName k)) ∧
      ∀ j, (s.pathFor j = s.pathFor k ↔ j = k) ∧
        ((s.pathFor j).components = (s.pathFor k).components ↔ j = k)) ∧
    ∀ dir : String,
      (IssueStore.mk (.ofString dir)).pathFor k = .ofString (Path.join dir (fileName k)) ∧
      ∀ j, Path.join dir (fileName j) = Path.join dir (fileName k) ↔ j = k := by
  have hescaped := escaped_encode (Text.encode k.text)
  refine ⟨⟨encode (Text.encode k.text), rfl, decode?_encode _, hescaped, ?_, ?_⟩,
    ⟨slash_not_mem_fileName k, fileName_ne_dots k⟩, ?_, ?_⟩
  · intro c hc
    exact hescaped.mem hc
  · intro front rest hstem
    rw [hstem] at hescaped
    exact hescaped.digits
  · intro s
    exact ⟨components_pathFor s k, place_pathFor s k,
      fun j => ⟨pathFor_inj, components_pathFor_inj⟩⟩
  · intro dir
    exact ⟨pathFor_ofString dir k, fun j => join_fileName_inj⟩

/-- A key that looks like an escaped name, with a slash, a character of two bytes and the ending; the key
that its escapes stand for; and a directory whose path is no text. -/
theorem pathFor_escaped_twice :
    let s : IssueStore := ⟨.ofString "../a"⟩
    let t : IssueStore := ⟨⟨[0x2F, 0xFF]⟩⟩
    let j : ProjectKey := ⟨"../é%2F.json", by decide, by decide⟩
    let k : ProjectKey := ⟨"../é/.json", by decide, by decide⟩
    s.pathFor j = .ofString "../a/%2E%2E%2F%C3%A9%252F%2Ejson.json" ∧
      s.pathFor k = .ofString "../a/%2E%2E%2F%C3%A9%2F%2Ejson.json" ∧ s.pathFor j ≠ s.pathFor k ∧
      (s.pathFor j).components
        = [.up, .name [0x61], .name (Text.encode "%2E%2E%2F%C3%A9%252F%2Ejson.json")] ∧
      (t.pathFor k).components
        = [.root, .name [0xFF], .name (Text.encode "%2E%2E%2F%C3%A9%2F%2Ejson.json")] := by
  intro s t j k
  have hj : fileName j = "%2E%2E%2F%C3%A9%252F%2Ejson.json" := by decide
  have hk : fileName k = "%2E%2E%2F%C3%A9%2F%2Ejson.json" := by decide
  have hne : k ≠ j := by decide
  obtain ⟨-, -, hpath, htext⟩ := pathFor_escaped j
  obtain ⟨-, -, hpathOther, htextOther⟩ := pathFor_escaped k
  refine ⟨?_, ?_, fun h => hne (((hpath s).2.2 k).1.1 h.symm), ?_, ?_⟩
  · rw [(htext "../a").1, hj]
    decide
  · rw [(htextOther "../a").1, hk]
    decide
  · rw [(hpath s).1, hj]
    decide
  · rw [(hpathOther t).1, hk]
    decide

end IssueStore

end KnownIssues
