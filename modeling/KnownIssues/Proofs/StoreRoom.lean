import KnownIssues.Proofs.DiskTree

/-! # When the file of a project can be written

For a store at a path of names (`Path.IsPlain`) a write succeeds just if there is room for the file
(`IssueStore.exists_write_iff`): the paths can be followed, no name on them is too long, no file stands
on the way to the directory, and no directory in the place of the file.  Nothing of this depends on
which directories are there already, nor on the files of other projects, so no write changes whether
another can be made (`RoomFor.congr`).

* `Disk.exists_makeDirs_iff`: when the directories along a path of names can be made.
* `Disk.isDirectory_makeDirs`: when this succeeds, the directory is there. -/

namespace KnownIssues

namespace Disk

variable {d d' : Disk}

/-! ### Following names -/

/-- No name is too long. -/
def Short (names : List Name) : Prop :=
  ∀ n ∈ names, n.length ≤ maxName

/-- No file stands on the way along the names, nor at their end. -/
def Passable (d : Disk) (p : Place) (names : List Name) : Prop :=
  ∀ front, front <+: names → d.fileAt? (p.descend front) = none

theorem Passable.tail {p : Place} {n : Name} {names : List Name}
    (h : d.Passable p (n :: names)) : d.Passable (p.child n) names :=
  fun front hfront => h (n :: front) (List.prefix_cons_inj n |>.2 hfront)

theorem Passable.ne_file {p : Place} {n : Name} {names : List Name}
    (h : d.Passable p (n :: names)) (bytes : List UInt8) :
    d.entryAt? (p.child n) ≠ some (.file bytes) := by
  intro he
  have hnone : d.fileAt? (p.child n) = none := h [n] (by simp)
  rw [fileAt?, he] at hnone
  cases hnone

/-- Along names, if no file is in the way, only a missing directory stops. -/
theorem findFrom_passable {p : Place} {names : List Name} (hshort : Short names)
    (hway : d.Passable p names) :
    d.findFrom p (names.map .name) = .ok (.present (p.descend names) .directory) ∨
      d.findFrom p (names.map .name) = .ok (.vacant (p.descend names)) ∨
      d.findFrom p (names.map .name) = .error .notFound := by
  induction names generalizing p with
  | nil => exact Or.inl rfl
  | cons n names ih =>
    rw [Short, List.forall_mem_cons] at hshort
    rw [List.map_cons, findFrom_name, if_neg (Nat.not_lt.2 hshort.1)]
    cases he : d.entryAt? (p.child n) with
    | none =>
      cases names with
      | nil => exact Or.inr (Or.inl rfl)
      | cons m names => exact Or.inr (Or.inr rfl)
    | some e =>
      cases e with
      | directory => exact ih hshort.2 hway.tail
      | file bytes => exact absurd he (hway.ne_file bytes)

theorem directories_of_findFrom {p q : Place} {names : List Name}
    (h : d.findFrom p (names.map .name) = .ok (.present q .directory)) :
    Short names ∧ ∀ front, front <+: names → front ≠ [] →
      d.entryAt? (p.descend front) = some .directory := by
  induction names generalizing p with
  | nil => exact ⟨fun _ hn => (nomatch hn), fun _ hf hne => absurd (List.prefix_nil.1 hf) hne⟩
  | cons n names ih =>
    rw [List.map_cons] at h
    have hn : n.length ≤ maxName ∧ d.entryAt? (p.child n) = some .directory ∧
        d.findFrom (p.child n) (names.map .name) = .ok (.present q .directory) := by
      obtain ⟨hlen, ⟨hdir, hrest⟩ | ⟨hnil, hplace, hentry⟩⟩ := findFrom_name_ok h
      · exact ⟨hlen, hdir, hrest⟩
      · obtain rfl : q = p.child n := hplace
        rw [hnil]
        exact ⟨hlen, hentry, findFrom_nil ..⟩
    obtain ⟨hshort, hdirs⟩ := ih hn.2.2
    refine ⟨List.forall_mem_cons.2 ⟨hn.1, hshort⟩, ?_⟩
    intro front hf hne
    cases front with
    | nil => exact absurd rfl hne
    | cons m front =>
      obtain ⟨rfl, hfront⟩ := List.cons_prefix_cons.1 hf
      by_cases hnil : front = []
      · subst hnil; exact hn.2.1
      · exact hdirs front hfront hnil

/-! ### Making directories -/

theorem isDirectory_of_findFrom {steps : List Component} {q : Place}
    (h : d.follow steps = .ok (.present q .directory)) : d.isDirectory steps = true := by
  rw [isDirectory, h]

theorem isDirectory_iff {steps : List Component} :
    d.isDirectory steps = true ↔ ∃ q, d.follow steps = .ok (.present q .directory) := by
  refine ⟨fun h => ?_, fun ⟨q, h⟩ => isDirectory_of_findFrom h⟩
  unfold isDirectory at h
  split at h
  · next q hq => exact ⟨q, hq⟩
  · cases h

theorem isDirectory_makeDir {steps : List Component} (h : d.makeDir steps = .ok d') :
    d'.isDirectory steps = true := by
  unfold makeDir at h
  split at h
  · cases h
  · next q hq =>
    cases h
    have hnone : d.entryAt? q = none := by
      obtain ⟨-, hentry⟩ := findFrom_target hq
      exact hentry (Target.hasRoom_vacant q)
    have hext : Extends (· = q) (fun _ => False) d (d.set q .directory) :=
      extends_set_directory hnone
    have hnow : (d.set q .directory).entryAt? q = some .directory := by
      rw [entryAt?_set]
      split
      · rfl
      · exact if_pos rfl
    exact isDirectory_of_findFrom
      (findFrom_entry (fun _ => hext.directory) hq (Target.hasRoom_vacant q) hnow)
  · cases h

theorem isDirectory_of_unless {steps : List Component} {e : DiskFault}
    (h : d.unlessDirectory steps e = none) : d.isDirectory steps = true := by
  unfold unlessDirectory at h
  split at h
  · assumption
  · cases h

theorem isDirectory_makeDirsIn {steps parent : List Component}
    (h : d.makeDirsIn steps parent = (d', none)) : d'.isDirectory steps = true := by
  unfold makeDirsIn at h
  split at h
  · next hm => cases h; exact isDirectory_makeDir hm
  · split at h
    · cases h
    · split at h
      · cases h
      · split at h
        · next hm => cases h; exact isDirectory_makeDir hm
        · rw [Prod.mk.injEq] at h
          obtain ⟨rfl, hu⟩ := h
          exact isDirectory_of_unless hu
  · rw [Prod.mk.injEq] at h
    obtain ⟨rfl, hu⟩ := h
    exact isDirectory_of_unless hu

/-- **When directories were made**, the last of them is there. -/
theorem isDirectory_makeDirs {p : Path} (h : d.makeDirs p = (d', none)) :
    route p = .ok p.steps ∧ d'.isDirectory p.steps = true := by
  unfold makeDirs at h
  split at h
  · cases h
  · next hroute =>
    cases h
    have hnil := route_eq_ok hroute
    exact ⟨hnil ▸ hroute, by rw [← hnil]; rfl⟩
  · next hroute =>
    obtain rfl := route_eq_ok hroute
    exact ⟨hroute, isDirectory_makeDirsIn h⟩

/-- A directory was made, or is there. -/
def Settled (d : Disk) (steps : List Component) : Prop :=
  (∃ d', d.makeDir steps = .ok d') ∨
    (d.makeDir steps = .error .fileExists ∧ d.isDirectory steps = true)

theorem makeDir_passable {names : List Name} (hshort : Short names)
    (hway : d.Passable .working names) :
    d.Settled (names.map .name) ∨ d.makeDir (names.map .name) = .error .notFound := by
  rcases findFrom_passable hshort hway with h | h | h
  · have hfollow : d.follow (names.map .name) = _ := h
    exact Or.inl (Or.inr ⟨by rw [makeDir, hfollow], isDirectory_of_findFrom hfollow⟩)
  · have hfollow : d.follow (names.map .name) = _ := h
    exact Or.inl (Or.inl ⟨_, by rw [makeDir, hfollow]⟩)
  · have hfollow : d.follow (names.map .name) = _ := h
    exact Or.inr (by rw [makeDir, hfollow])

theorem makeDir_ne_notFound {steps : List Component} (h : d.isDirectory steps = true) (n : Name) :
    d.makeDir (steps ++ [.name n]) ≠ .error .notFound := by
  obtain ⟨q, hq⟩ := isDirectory_iff.1 h
  have hfollow : d.follow (steps ++ [.name n]) = d.findFrom q [.name n] := findFrom_append hq _
  rw [makeDir, hfollow, findFrom_name]
  split
  · next he =>
    split at he
    · cases he; simp
    · split at he
      · cases he
      · cases he
      · cases he
  · simp
  · simp

theorem makeDirsIn_of_settled {steps : List Component} (h : d.Settled steps)
    (parent : List Component) : ∃ d', d.makeDirsIn steps parent = (d', none) := by
  unfold makeDirsIn
  rcases h with ⟨d', h⟩ | ⟨h, hdir⟩
  · exact ⟨d', by rw [h]⟩
  · exact ⟨d, by rw [h]; simp [unlessDirectory, hdir]⟩

theorem makeDirsIn_of_parent {steps back : List Component} {c : Component} {d₁ : Disk}
    (h : d.makeDir steps = .error .notFound)
    (hparent : d.makeDirsIn (c :: back).reverse back = (d₁, none)) (hsettled : d₁.Settled steps) :
    ∃ d', d.makeDirsIn steps (c :: back) = (d', none) := by
  unfold makeDirsIn
  rw [h]
  simp only [hparent]
  rcases hsettled with ⟨d₂, h₂⟩ | ⟨h₂, hdir⟩
  · exact ⟨d₂, by rw [h₂]⟩
  · exact ⟨d₁, by rw [h₂]; simp [unlessDirectory, hdir]⟩

theorem makeDirsIn_passable {back : List Name} {n : Name} (hshort : Short (back.reverse ++ [n]))
    (hway : d.Passable .working (back.reverse ++ [n])) :
    ∃ d', d.makeDirsIn ((back.reverse ++ [n]).map .name) (back.map .name) = (d', none) := by
  have hsnoc (front : List Name) (m : Name) :
      (front ++ [m]).map Component.name = front.map .name ++ [.name m] := List.map_append
  induction back generalizing d n with
  | nil =>
    rcases makeDir_passable hshort hway with h | h
    · exact makeDirsIn_of_settled h _
    · have hworking : d.isDirectory [] = true := rfl
      exact absurd h (makeDir_ne_notFound hworking n)
  | cons m back ih =>
    rcases makeDir_passable hshort hway with h | h
    · exact makeDirsIn_of_settled h _
    · have hfront : back.reverse ++ [m] <+: (m :: back).reverse ++ [n] := by
        rw [List.reverse_cons]
        exact List.prefix_append ..
      obtain ⟨d₁, hparent⟩ := ih (d := d) (n := m)
        (fun k hk => hshort k (hfront.subset hk))
        fun front hf => hway front (hf.trans hfront)
      have hext : Extends _ (fun _ => False) d _ :=
        extends_makeDirsIn d ((back.reverse ++ [m]).map .name) (back.map .name)
      rw [hparent] at hext
      have hway₁ : d₁.Passable .working ((m :: back).reverse ++ [n]) := fun front hf =>
        (hext.fileAt? id).trans (hway front hf)
      have hthere : d₁.isDirectory ((m :: back).reverse.map .name) = true := by
        rw [List.reverse_cons]
        exact isDirectory_makeDirsIn hparent
      have hsettled : d₁.Settled (((m :: back).reverse ++ [n]).map .name) := by
        refine (makeDir_passable hshort hway₁).resolve_right ?_
        rw [hsnoc]
        exact makeDir_ne_notFound hthere n
      have hback : (Component.name m :: back.map .name).reverse
          = (back.reverse ++ [m]).map .name := by simp
      exact makeDirsIn_of_parent h (by rw [hback]; exact hparent) hsettled

/-- **When the directories along a path of names can be made**: no file is in the way, and no name is
too long. -/
theorem exists_makeDirs_iff {p : Path} {names : List Name} (hp : p.steps = names.map .name) :
    (∃ d', d.makeDirs p = (d', none)) ↔
      route p = .ok p.steps ∧ Short names ∧ d.Passable .working names := by
  constructor
  · rintro ⟨d', h⟩
    obtain ⟨hroute, hdir⟩ := isDirectory_makeDirs h
    rw [hp] at hdir
    obtain ⟨q, hq⟩ := isDirectory_iff.1 hdir
    obtain ⟨hshort, hdirs⟩ := directories_of_findFrom hq
    refine ⟨hroute, hshort, fun front hf => ?_⟩
    have hext := extends_makeDirs (fun _ => False) d p
    rw [h] at hext
    rw [← hext.fileAt? id, fileAt?]
    by_cases hnil : front = []
    · subst hnil
      rw [show d'.entryAt? (Place.working.descend []) = _ from d'.entryAt?_working]
    · rw [hdirs front hf hnil]
  · rintro ⟨hroute, hshort, hway⟩
    rcases List.eq_nil_or_concat names with rfl | ⟨front, n, rfl⟩
    · exact ⟨d, by rw [makeDirs, hroute, hp]; rfl⟩
    · rw [List.concat_eq_append] at hp hshort hway
      rw [← List.reverse_reverse front] at hshort hway
      have hparent : p.components.reverse.tail = front.reverse.map .name := by
        rw [Path.components_of_names hp]
        simp
      obtain ⟨d', h⟩ := makeDirsIn_passable hshort hway
      rw [List.reverse_reverse, ← hp, ← hparent] at h
      refine ⟨d', ?_⟩
      rw [makeDirs, hroute]
      split
      · next heq => cases heq
      · next heq =>
        rw [Except.ok.injEq, hp] at heq
        simp at heq
      · next heq => cases heq; exact h

/-! ### Room for a file -/

theorem exists_write_iff {p : Path} {bytes : List UInt8} :
    (∃ d', d.write p bytes = .ok d') ↔
      p.endsInSlash = false ∧ ∃ t, d.find p = .ok t ∧ t.HasRoom := by
  constructor
  · rintro ⟨d', h⟩
    exact (write_eq_ok h).2.2
  · rintro ⟨hslash, t, hfind, hroom⟩
    rcases t with ⟨q, old | _⟩ | q
    · exact ⟨_, by simp only [write, hfind, hslash]; rfl⟩
    · exact absurd rfl hroom
    · exact ⟨_, by simp only [write, hfind, hslash]; rfl⟩

theorem exists_room_iff {p : Place} {n : Name} :
    (∃ t, d.findFrom p [.name n] = .ok t ∧ t.HasRoom) ↔
      n.length ≤ maxName ∧ d.entryAt? (p.child n) ≠ some .directory := by
  constructor
  · rintro ⟨t, h, hroom⟩
    obtain ⟨hlen, ⟨-, hrest⟩ | ⟨-, -, hentry⟩⟩ := findFrom_name_ok h
    · rw [findFrom_nil] at hrest
      cases hrest
      exact absurd rfl hroom
    · exact ⟨hlen, by rwa [hentry]⟩
  · rintro ⟨hlen, hfree⟩
    rw [findFrom_name, if_neg (Nat.not_lt.2 hlen)]
    rcases he : d.entryAt? (p.child n) with _ | old | _
    · exact ⟨_, rfl, Target.hasRoom_vacant _⟩
    · exact ⟨_, rfl, Target.hasRoom_file _ _⟩
    · exact absurd he hfree

end Disk

/-! ### Places along a path of names -/

theorem Path.along_iff {p : Path} {names : List Name} (hp : p.steps = names.map .name) {q : Place} :
    p.Along q ↔ ∃ front, front <+: names ∧ q = Place.working.descend front := by
  rw [Along, components_of_names hp]
  constructor
  · rintro ⟨cs, ⟨rest, hrest⟩, rfl⟩
    obtain ⟨front, back, rfl, rfl, -⟩ := List.map_eq_append_iff.1 hrest.symm
    exact ⟨front, List.prefix_append .., by rw [Place.ofSteps, Place.foldl_step_names]⟩
  · rintro ⟨front, hfront, rfl⟩
    exact ⟨front.map .name, hfront.map _, by rw [Place.ofSteps, Place.foldl_step_names]⟩

theorem Disk.passable_iff {d : Disk} {p : Path} {names : List Name}
    (hp : p.steps = names.map .name) :
    d.Passable .working names ↔ ∀ q, p.Along q → d.fileAt? q = none := by
  simp only [Path.along_iff hp]
  refine ⟨?_, fun h front hf => h _ ⟨front, hf, rfl⟩⟩
  rintro h q ⟨front, hfront, rfl⟩
  exact h front hfront

namespace IssueStore

variable {st : IssueStore} {d d' : Disk} {key : ProjectKey} {l : List Issue}

/-! ### The file of a project -/

theorem steps_pathFor (st : IssueStore) (key : ProjectKey) :
    (st.pathFor key).steps = st.dir.steps ++ [.name (Text.encode (fileName key))] :=
  Path.steps_child st.dir (isName_fileName key)

theorem isPlain_pathFor (hst : st.dir.IsPlain) (key : ProjectKey) :
    (st.pathFor key).IsPlain := by
  obtain ⟨names, hnames⟩ := hst
  exact ⟨names ++ [Text.encode (fileName key)], by rw [steps_pathFor, hnames, List.map_append]; rfl⟩

theorem not_along_pathFor (hst : st.dir.IsPlain) (key : ProjectKey) :
    ¬ st.dir.Along (st.pathFor key).place := by
  obtain ⟨names, hnames⟩ := hst
  rw [Path.along_iff hnames]
  rintro ⟨front, hfront, hplace⟩
  rw [place_pathFor, Path.place_of_names hnames] at hplace
  have hlength := congrArg (fun q : Place => q.names.length) hplace
  simp only [Place.child, Place.names_descend, List.length_cons, List.length_append,
    List.length_reverse] at hlength
  have := hfront.length_le
  omega

/-! ### Room -/

/-- There is room for the file of a project: the paths can be followed, no name is too long, no file is
on the way to the directory, and no directory in the place of the file. -/
structure RoomFor (st : IssueStore) (d : Disk) (key : ProjectKey) : Prop where
  routes : Disk.route st.dir = .ok st.dir.steps ∧
    Disk.route (st.pathFor key) = .ok (st.pathFor key).steps
  short : ∀ n, Component.name n ∈ (st.pathFor key).steps → n.length ≤ Disk.maxName
  way : ∀ q, st.dir.Along q → d.fileAt? q = none
  free : d.entryAt? (st.pathFor key).place ≠ some .directory
  slash : (st.pathFor key).endsInSlash = false

theorem find_pathFor (h : d.isDirectory st.dir.steps = true)
    (hroute : Disk.route (st.pathFor key) = .ok (st.pathFor key).steps) :
    d.find (st.pathFor key) = d.findFrom st.dir.place [.name (Text.encode (fileName key))] := by
  obtain ⟨q, hq⟩ := Disk.isDirectory_iff.1 h
  have hplace : q = st.dir.place := (Disk.findFrom_target hq).1
  have hfollow : d.follow (st.pathFor key).steps
      = d.findFrom q [.name (Text.encode (fileName key))] := by
    rw [steps_pathFor]
    exact Disk.findFrom_append hq _
  rw [Disk.find, hroute, ← hplace]
  exact hfollow

theorem exists_write_pathFor_iff (h : d.isDirectory st.dir.steps = true)
    {bytes : List UInt8} :
    (∃ d', d.write (st.pathFor key) bytes = .ok d') ↔
      (st.pathFor key).endsInSlash = false ∧
        Disk.route (st.pathFor key) = .ok (st.pathFor key).steps ∧
        (Text.encode (fileName key)).length ≤ Disk.maxName ∧
        d.entryAt? (st.pathFor key).place ≠ some .directory := by
  rw [Disk.exists_write_iff, place_pathFor, ← Disk.exists_room_iff]
  refine and_congr_right fun _ => ⟨?_, ?_⟩
  · rintro ⟨t, hfind, hroom⟩
    have hroute := (Disk.find_eq_ok hfind).1
    rw [find_pathFor h hroute] at hfind
    exact ⟨hroute, t, hfind, hroom⟩
  · rintro ⟨hroute, ht⟩
    rwa [find_pathFor h hroute]

theorem directory_pathFor_iff (hst : st.dir.IsPlain) {files : Place → Prop}
    (hext : Disk.Extends st.dir.Along files d d') (key : ProjectKey) :
    d'.entryAt? (st.pathFor key).place = some .directory ↔
      d.entryAt? (st.pathFor key).place = some .directory := by
  refine ⟨fun h => ?_, hext.directory⟩
  rcases hext (st.pathFor key).place with he | ⟨halong, -⟩ | ⟨-, -, bytes, hfile⟩
  · exact he.symm.trans h
  · exact absurd halong (not_along_pathFor hst key)
  · rw [hfile] at h; cases h

theorem exists_write_iff_makeDirs :
    (∃ d', st.write d key l = (d', .ok ())) ↔
      ∃ d₁, d.makeDirs st.dir = (d₁, none) ∧
        ∃ d', d₁.write (st.pathFor key) (fileBytes l) = .ok d' := by
  unfold write
  rcases hdirs : d.makeDirs st.dir with ⟨d₁, _ | e⟩
  · cases hwrite : d₁.write (st.pathFor key) (fileBytes l) with
    | ok d' => simp [hwrite]
    | error e => simp [hwrite]
  · simp

theorem short_pathFor_iff {names : List Name} (hst : st.dir.steps = names.map .name) :
    (∀ n, Component.name n ∈ (st.pathFor key).steps → n.length ≤ Disk.maxName) ↔
      Disk.Short names ∧ (Text.encode (fileName key)).length ≤ Disk.maxName := by
  rw [steps_pathFor, hst]
  simp [Disk.Short, or_imp, forall_and]

/-- **A write succeeds** just if there is room for the file. -/
theorem exists_write_iff (hst : st.dir.IsPlain) :
    (∃ d', st.write d key l = (d', .ok ())) ↔ st.RoomFor d key := by
  obtain ⟨names, hnames⟩ := id hst
  have hfree {d₁ : Disk} (h : d.makeDirs st.dir = (d₁, none)) :
      d₁.entryAt? (st.pathFor key).place ≠ some .directory ↔
        d.entryAt? (st.pathFor key).place ≠ some .directory := by
    have hext := Disk.extends_makeDirs (fun _ => False) d st.dir
    rw [h] at hext
    exact not_congr (directory_pathFor_iff hst hext key)
  rw [exists_write_iff_makeDirs]
  constructor
  · rintro ⟨d₁, hdirs, hwrite⟩
    obtain ⟨hroute, hshort, hway⟩ := (Disk.exists_makeDirs_iff hnames).1 ⟨d₁, hdirs⟩
    rw [exists_write_pathFor_iff (Disk.isDirectory_makeDirs hdirs).2, hfree hdirs] at hwrite
    obtain ⟨hslash, hrouteFile, hlen, hnodir⟩ := hwrite
    exact ⟨⟨hroute, hrouteFile⟩, (short_pathFor_iff hnames).2 ⟨hshort, hlen⟩,
      (Disk.passable_iff hnames).1 hway, hnodir, hslash⟩
  · rintro ⟨⟨hroute, hrouteFile⟩, hshort, hway, hnodir, hslash⟩
    obtain ⟨hshort, hlen⟩ := (short_pathFor_iff hnames).1 hshort
    obtain ⟨d₁, hdirs⟩ := (Disk.exists_makeDirs_iff hnames).2
      ⟨hroute, hshort, (Disk.passable_iff hnames).2 hway⟩
    refine ⟨d₁, hdirs, ?_⟩
    rw [exists_write_pathFor_iff (Disk.isDirectory_makeDirs hdirs).2, hfree hdirs]
    exact ⟨hslash, hrouteFile, hlen, hnodir⟩

/-! ### What writes leave alone -/

variable {files : Place → Prop}

/-- **Room for a file** does not depend on the files of other projects, nor on which directories are
there. -/
theorem RoomFor.congr (hst : st.dir.IsPlain) (hext : Disk.Extends st.dir.Along files d d')
    (hfiles : ∀ q, files q → ∃ j, q = (st.pathFor j).place) :
    st.RoomFor d' key ↔ st.RoomFor d key := by
  have hway : ∀ q, st.dir.Along q → d'.fileAt? q = d.fileAt? q := by
    intro q hq
    refine hext.fileAt? fun hf => ?_
    obtain ⟨j, rfl⟩ := hfiles q hf
    exact not_along_pathFor hst j hq
  have hfree := directory_pathFor_iff hst hext key
  constructor
  · rintro ⟨hroutes, hshort, hno, hnodir, hslash⟩
    exact ⟨hroutes, hshort, fun q hq => (hway q hq).symm.trans (hno q hq),
      fun h => hnodir (hfree.2 h), hslash⟩
  · rintro ⟨hroutes, hshort, hno, hnodir, hslash⟩
    exact ⟨hroutes, hshort, fun q hq => (hway q hq).trans (hno q hq),
      fun h => hnodir (hfree.1 h), hslash⟩

theorem listOn_congr (h : ∀ bytes, d'.read (st.pathFor key) = .ok bytes ↔
    d.read (st.pathFor key) = .ok bytes) : st.listOn d' key = st.listOn d key := by
  unfold listOn Disk.readText
  cases hd : d.read (st.pathFor key) with
  | ok bytes => rw [(h bytes).2 hd]
  | error e =>
    cases hd' : d'.read (st.pathFor key) with
    | ok bytes => rw [(h bytes).1 hd'] at hd; cases hd
    | error e' => rfl

/-- **The issues of a project** are the same as long as its file is not written. -/
theorem listOn_of_extends (hst : st.dir.IsPlain) (hd : d.IsTree)
    (hext : Disk.Extends st.dir.Along files d d') (hkey : ¬ files (st.pathFor key).place) :
    st.listOn d' key = st.listOn d key :=
  listOn_congr fun _ => hd.read_iff hext (isPlain_pathFor hst key) hkey

end IssueStore

end KnownIssues
