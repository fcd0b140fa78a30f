import KnownIssues.Proofs.Store

/-! # Disks are trees

Whatever stands somewhere stands in a directory (`Disk.IsTree`).  An empty disk is such a tree, and
every operation keeps it one, also the changes from outside, so that each disk that a session comes by
is a tree (`Session.isTree_after`).

In a tree the directories above an entry are there (`IsTree.directory_above`).  So a file at the end of
a path of names can be read as soon as it is there, and directories that come up do not make a file
readable that was not (`IsTree.read_iff`). -/

namespace KnownIssues

namespace Disk

/-- Whatever stands somewhere stands in a directory. -/
def IsTree (d : Disk) : Prop :=
  ∀ p n, d.entryAt? (p.child n) ≠ none → d.entryAt? p = some .directory

variable {d d' : Disk}

theorem entryAt?_of_names_nil (d : Disk) {p : Place} (h : p.names = []) :
    d.entryAt? p = some .directory :=
  if_pos h

theorem isTree_empty : Disk.empty.IsTree := by
  intro p n h
  refine absurd ?_ h
  simp [entryAt?, Place.child, tree, empty, Trie.find?_empty]

/-! ### Setting and removing entries -/

theorem IsTree.set (hd : d.IsTree) {p : Place} (hp : d.entryAt? p = some .directory) {n : Name}
    {e : Entry} (he : e = .directory ∨ d.entryAt? (p.child n) ≠ some .directory) :
    (d.set (p.child n) e).IsTree := by
  intro q m h
  rw [entryAt?_set] at h ⊢
  have hchild : (q.child m).names ≠ [] := List.cons_ne_nil _ _
  rw [if_neg hchild] at h
  -- what stands in `q` stood there before, or is the new entry
  have hq : d.entryAt? q = some .directory := by
    by_cases hqp : q.child m = p.child n
    · have hparent : q = p := by rw [← Place.parent_child q m, hqp, Place.parent_child]
      rw [hparent, hp]
    · rw [if_neg hqp] at h
      exact hd q m h
  split
  · rfl
  · split
    · next hself =>
      rcases he with rfl | hfree
      · rfl
      · exact absurd (hself ▸ hq) hfree
    · exact hq

theorem IsTree.filterKeys (hd : d.IsTree) (o : Origin) {stays : List Name → Bool}
    (h : ∀ names n, stays (names ++ [n]) = true → stays names = true) :
    (d.setTree o ((d.tree o).filterKeys stays)).IsTree := by
  have hentry {q : Place} (hq : q.names ≠ []) :
      (d.setTree o ((d.tree o).filterKeys stays)).entryAt? q
        = if q.origin = o ∧ stays q.trail = false then none else d.entryAt? q := by
    rw [entryAt?, if_neg hq, tree_setTree, entryAt?, if_neg hq]
    by_cases ho : q.origin = o
    · cases hs : stays q.trail <;> simp [ho, hs, Trie.find?_filterKeys]
    · simp [ho]
  intro q m hm
  by_cases hq : q.names = []
  · exact entryAt?_of_names_nil _ hq
  · rw [hentry (List.cons_ne_nil _ _)] at hm
    split at hm
    · exact absurd rfl hm
    · next hstays =>
      rw [hentry hq, if_neg, hd q m hm]
      rintro ⟨ho, hgone⟩
      refine hstays ⟨ho, ?_⟩
      rw [Place.child, Place.trail, List.reverse_cons, Bool.eq_false_iff]
      intro hlast
      rw [Place.trail, h _ _ hlast] at hgone
      cases hgone

theorem isTree_remove (hd : d.IsTree) (p : Path) : (d.remove p).IsTree := by
  unfold remove
  split
  · next place e _ =>
    refine hd.filterKeys _ fun names n hstays => ?_
    -- a prefix of `names` is one of `names ++ [n]`, and not the whole of it
    have hlonger (hfront : place.trail <+: names) : place.trail ≠ names ++ [n] := by
      intro heq
      have := hfront.length_le
      rw [heq, List.length_append, List.length_singleton] at this
      omega
    have hnot : ¬ place.trail <+: names := by
      intro hfront
      rw [if_neg (hlonger hfront).symm, Bool.not_eq_true', ← Bool.not_eq_true,
        List.isPrefixOf_iff_prefix] at hstays
      exact hstays (hfront.trans (List.prefix_append ..))
    rw [if_neg (by rintro rfl; exact hnot (List.prefix_refl _)), Bool.not_eq_true',
      ← Bool.not_eq_true, List.isPrefixOf_iff_prefix]
    exact hnot
  · exact hd

/-! ### Following paths -/

theorem IsTree.parent (hd : d.IsTree) {p : Place} (hp : d.entryAt? p = some .directory) :
    d.entryAt? p.parent = some .directory := by
  obtain ⟨origin, names⟩ := p
  cases names with
  | nil => cases origin <;> exact entryAt?_of_names_nil d rfl
  | cons n names =>
    have hparent : Place.parent ⟨origin, n :: names⟩ = ⟨origin, names⟩ := by cases origin <;> rfl
    rw [hparent]
    exact hd ⟨origin, names⟩ n (by rw [Place.child, hp]; exact Option.some_ne_none _)

theorem IsTree.findFrom (hd : d.IsTree) {p : Place} (hp : d.entryAt? p = some .directory)
    {cs : List Component} {t : Target} (h : d.findFrom p cs = .ok t) (ht : t.HasRoom) :
    ∃ q n, t.place = q.child n ∧ d.entryAt? q = some .directory := by
  induction cs generalizing p with
  | nil =>
    rw [findFrom_nil] at h
    cases h
    exact absurd rfl ht
  | cons c cs ih =>
    cases c with
    | root => exact ih (entryAt?_of_names_nil d rfl) h
    | here => exact ih hp h
    | up => rw [findFrom_up] at h; exact ih (hd.parent hp) h
    | name n =>
      obtain ⟨-, ⟨hdir, hrest⟩ | ⟨rfl, hplace, -⟩⟩ := findFrom_name_ok h
      · exact ih hdir hrest
      · exact ⟨p, n, hplace, hp⟩

theorem entryAt?_working (d : Disk) : d.entryAt? .working = some .directory :=
  entryAt?_of_names_nil d rfl

/-! ### The operations -/

theorem isTree_write (hd : d.IsTree) {p : Path} {bytes : List UInt8}
    (h : d.write p bytes = .ok d') : d'.IsTree := by
  obtain ⟨hfree, rfl, -, t, hfind, hroom⟩ := write_eq_ok h
  obtain ⟨q, n, hplace, hq⟩ := hd.findFrom d.entryAt?_working (find_eq_ok hfind).2 hroom
  rw [(find_target hfind).1] at hplace
  rw [hplace] at hfree ⊢
  exact hd.set hq (Or.inr hfree)

theorem isTree_makeDir (hd : d.IsTree) {steps : List Component} (h : d.makeDir steps = .ok d') :
    d'.IsTree := by
  unfold makeDir at h
  split at h
  · cases h
  · next place hfollow =>
    cases h
    obtain ⟨q, n, hplace, hq⟩ := hd.findFrom d.entryAt?_working hfollow
      (Target.hasRoom_vacant _)
    obtain rfl : place = q.child n := hplace
    exact hd.set hq (Or.inl rfl)
  · cases h

theorem isTree_makeDirsIn (hd : d.IsTree) (steps parent : List Component) :
    (d.makeDirsIn steps parent).1.IsTree := by
  induction parent generalizing d steps with
  | nil =>
    unfold makeDirsIn
    split
    · next h => exact isTree_makeDir hd h
    · exact hd
    · exact hd
  | cons c back ih =>
    have hparent := ih hd (c :: back).reverse
    unfold makeDirsIn
    split
    · next h => exact isTree_makeDir hd h
    · dsimp only
      split
      · next he => rw [he] at hparent; exact hparent
      · next he =>
        rw [he] at hparent
        split
        · next hm => exact isTree_makeDir hparent hm
        · exact hparent
    · exact hd

theorem isTree_makeDirs (hd : d.IsTree) (p : Path) : (d.makeDirs p).1.IsTree := by
  unfold makeDirs
  split
  · exact hd
  · exact hd
  · exact isTree_makeDirsIn hd _ _

theorem isTree_edit (hd : d.IsTree) (e : Edit) : (d.edit e).IsTree := by
  cases e with
  | put path bytes =>
    have hdirs := isTree_makeDirs hd path.parent
    simp only [edit]
    split
    · next he => rw [he] at hdirs; exact hdirs
    · next d₁ he =>
      rw [he] at hdirs
      cases hw : d₁.write path bytes with
      | error _ => exact hdirs
      | ok d₂ => exact isTree_write hdirs hw
  | makeDirs path => exact isTree_makeDirs hd path
  | remove path => exact isTree_remove hd path

/-! ### Files on a path of names -/

theorem IsTree.directory_above (hd : d.IsTree) {p : Place} {n : Name} {names : List Name}
    (h : d.entryAt? (p.descend (n :: names)) ≠ none) : d.entryAt? p = some .directory := by
  induction names generalizing p n with
  | nil => exact hd p n h
  | cons m names ih =>
    have hchild : d.entryAt? (p.child n) = some .directory := ih h
    exact hd p n (by rw [hchild]; exact Option.some_ne_none _)

/-- A file that is found in one disk is found in a tree that has it as well. -/
theorem IsTree.findFrom_names (hd : d.IsTree) {p q : Place} {names : List Name}
    {bytes : List UInt8} (h : d'.findFrom p (names.map .name) = .ok (.present q (.file bytes)))
    (hq : d.entryAt? q = some (.file bytes)) :
    d.findFrom p (names.map .name) = .ok (.present q (.file bytes)) := by
  induction names generalizing p with
  | nil =>
    rw [List.map_nil, findFrom_nil] at h
    cases h
  | cons n names ih =>
    rw [List.map_cons] at h ⊢
    obtain ⟨hlen, ⟨-, hrest⟩ | ⟨hnil, hplace, -⟩⟩ := findFrom_name_ok h
    · have hdir : d.entryAt? (p.child n) = some .directory := by
        have hplace := (findFrom_target hrest).1
        rw [Place.foldl_step_names] at hplace
        cases names with
        | nil => rw [List.map_nil, findFrom_nil] at hrest; cases hrest
        | cons m names =>
          have hthere : d.entryAt? ((p.child n).descend (m :: names)) ≠ none := by
            rw [← hplace, Target.place, hq]
            exact Option.some_ne_none _
          exact hd.directory_above hthere
      rw [findFrom_name, if_neg (Nat.not_lt.2 hlen), hdir]
      exact ih hrest
    · obtain rfl : q = p.child n := hplace
      rw [findFrom_name, if_neg (Nat.not_lt.2 hlen), hq]
      exact if_pos hnil

/-- **Files on a path of names** are the same in a tree and in its extensions, unless they were
written. -/
theorem IsTree.read_iff (hd : d.IsTree) {dirs files : Place → Prop} (hext : Extends dirs files d d')
    {p : Path} (hp : p.IsPlain) (hfree : ¬ files p.place) {bytes : List UInt8} :
    d'.read p = .ok bytes ↔ d.read p = .ok bytes := by
  refine ⟨fun h => ?_, read_of_extends hext hfree⟩
  obtain ⟨hslash, q, hfind⟩ := read_eq_ok h
  have hroom := Target.hasRoom_file q bytes
  obtain ⟨hplace, hentry⟩ := find_target hfind
  obtain rfl : q = p.place := hplace
  have hfile : d.entryAt? p.place = some (.file bytes) := by
    rcases hext p.place with he | ⟨-, -, hdir⟩ | ⟨hover, -⟩
    · rw [← he]; exact hentry hroom
    · rw [hentry hroom] at hdir; cases hdir
    · exact absurd hover hfree
  obtain ⟨names, hnames⟩ := hp
  obtain ⟨hroute, hfollow⟩ := find_eq_ok hfind
  rw [follow, hnames] at hfollow
  have hfound := hd.findFrom_names hfollow hfile
  have hpath : d.find p = .ok (.present p.place (.file bytes)) := by
    rw [find, hroute]
    show d.findFrom .working p.steps = _
    rw [hnames]
    exact hfound
  rw [read, hpath]
  simp [hslash]

end Disk

theorem IssueStore.isTree_write {st : IssueStore} {d d' : Disk} (hd : d.IsTree) {key : ProjectKey}
    {l : List Issue} {r : Except Fault Unit} (h : st.write d key l = (d', r)) : d'.IsTree := by
  have hdirs := Disk.isTree_makeDirs hd st.dir
  unfold write at h
  split at h
  · next he => cases h; rwa [he] at hdirs
  · next d₁ he =>
    rw [he] at hdirs
    split at h
    · next hw => cases h; exact Disk.isTree_write hdirs hw
    · cases h; exact hdirs

namespace Session

theorem isTree_step {s : Session} (hs : s.disk.IsTree) (a : Action) :
    (s.step a).session.disk.IsTree := by
  cases a with
  | write key l =>
    cases hst : s.cache.store with
    | none => simp only [step, hst]; exact hs
    | some st =>
      rcases step_write hst key l with ⟨-, hwrite⟩ | ⟨e, -, hwrite⟩
      · exact st.isTree_write hs hwrite
      · exact st.isTree_write hs hwrite
  | edit e => exact Disk.isTree_edit hs e
  | _ =>
    rw [disk_step s (fun _ _ h => by cases h) (fun _ h => by cases h)]
    exact hs

/-- **The disk of a session stays a tree**, whatever is done to it. -/
theorem isTree_after {s : Session} (hs : s.disk.IsTree) (actions : List Action) :
    (s.after actions).disk.IsTree := by
  induction actions generalizing s with
  | nil => exact hs
  | cons a actions ih => exact ih (isTree_step hs a)

end Session

end KnownIssues
