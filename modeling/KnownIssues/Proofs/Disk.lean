import KnownIssues.Disk
import KnownIssues.Proofs.Path

/-! # What the operations of a disk change

What stands at the end of a path stands at the place that the path leads to (`findFrom_target`), and
an entry is found again as long as the directories on the way stay (`findFrom_entry`).

Making directories and writing a file only extend a disk (`Extends`): every directory stays, nothing
goes away, new directories come up where there was nothing, and other files than the written one keep
their bytes.

* `extends_makeDirs`: directories come up along the path only, also if not all of them can be made.
* `extends_write`, `read_write`: a file is written at the place of its path, and read back there, as
  is any file that is put where there is room (`read_set_file`).
* `read_of_extends`: what was read is still read in an extension, unless it was written over. -/

namespace KnownIssues

/-- Where a target stands. -/
def Target.place : Target → Place
  | .present place _ => place
  | .vacant place => place

/-- What stands there. -/
def Target.content? : Target → Option Entry
  | .present _ e => some e
  | .vacant _ => none

/-- A file can stand there: there is one, or nothing. -/
def Target.HasRoom (t : Target) : Prop :=
  t.content? ≠ some .directory

theorem Target.hasRoom_vacant (q : Place) : (vacant q).HasRoom := by
  simp [HasRoom, content?]

theorem Target.hasRoom_file (q : Place) (bytes : List UInt8) :
    (present q (.file bytes)).HasRoom := by
  simp [HasRoom, content?]

namespace Disk

/-! ### Extensions -/

/-- The bytes of the regular file at a place. -/
def fileAt? (d : Disk) (place : Place) : Option (List UInt8) :=
  match d.entryAt? place with
  | some (.file bytes) => some bytes
  | _ => none

/-- The second disk has what the first one has, new directories at some of the places `dirs` that were
free, and written files at some of the places `files`. -/
def Extends (dirs files : Place → Prop) (d d' : Disk) : Prop :=
  ∀ q, d'.entryAt? q = d.entryAt? q ∨
    (dirs q ∧ d.entryAt? q = none ∧ d'.entryAt? q = some .directory) ∨
    (files q ∧ d.entryAt? q ≠ some .directory ∧ ∃ bytes, d'.entryAt? q = some (.file bytes))

variable {d d' d'' : Disk} {dirs files dirs' files' : Place → Prop}

theorem Extends.refl : Extends dirs files d d :=
  fun _ => Or.inl rfl

theorem Extends.trans (h : Extends dirs files d d') (h' : Extends dirs files d' d'') :
    Extends dirs files d d'' := by
  intro q
  rcases h' q with he' | ⟨hq', hnone', hdir'⟩ | ⟨hq', hfree', hfile'⟩
  · rw [he']; exact h q
  · rcases h q with he | ⟨-, -, hdir⟩ | ⟨-, -, bytes, hfile⟩
    · exact Or.inr (Or.inl ⟨hq', he ▸ hnone', hdir'⟩)
    · rw [hnone'] at hdir; cases hdir
    · rw [hnone'] at hfile; cases hfile
  · rcases h q with he | ⟨-, -, hdir⟩ | ⟨-, hfree, -⟩
    · exact Or.inr (Or.inr ⟨hq', he ▸ hfree', hfile'⟩)
    · exact absurd hdir hfree'
    · exact Or.inr (Or.inr ⟨hq', hfree, hfile'⟩)

theorem Extends.mono (h : Extends dirs files d d') (hd : ∀ q, dirs q → dirs' q)
    (hf : ∀ q, files q → files' q) : Extends dirs' files' d d' := by
  intro q
  rcases h q with he | ⟨hq, hrest⟩ | ⟨hq, hrest⟩
  · exact Or.inl he
  · exact Or.inr (Or.inl ⟨hd q hq, hrest⟩)
  · exact Or.inr (Or.inr ⟨hf q hq, hrest⟩)

theorem Extends.directory (h : Extends dirs files d d') {q : Place}
    (hq : d.entryAt? q = some .directory) : d'.entryAt? q = some .directory := by
  rcases h q with he | ⟨-, -, hdir⟩ | ⟨-, hfree, -⟩
  · rw [he, hq]
  · exact hdir
  · exact absurd hq hfree

theorem Extends.fileAt? (h : Extends dirs files d d') {q : Place} (hq : ¬ files q) :
    d'.fileAt? q = d.fileAt? q := by
  rcases h q with he | ⟨-, hnone, hdir⟩ | ⟨hfile, -⟩
  · rw [Disk.fileAt?, Disk.fileAt?, he]
  · rw [Disk.fileAt?, Disk.fileAt?, hnone, hdir]
  · exact absurd hfile hq

theorem extends_set_directory {q : Place} (hq : d.entryAt? q = none) :
    Extends (· = q) files d (d.set q .directory) := by
  have hnames : q.names ≠ [] := fun hn => by simp [entryAt?, hn] at hq
  intro r
  by_cases hr : r = q
  · subst hr
    exact Or.inr (Or.inl ⟨rfl, hq, by rw [entryAt?_set, if_neg hnames, if_pos rfl]⟩)
  · refine Or.inl ?_
    rw [entryAt?_set, if_neg hr]
    split
    · next hn => rw [entryAt?, if_pos hn]
    · rfl

theorem entryAt?_set_file {q : Place} (hq : d.entryAt? q ≠ some .directory) (bytes : List UInt8)
    (r : Place) :
    (d.set q (.file bytes)).entryAt? r = if r = q then some (.file bytes) else d.entryAt? r := by
  rw [entryAt?_set]
  split
  · next hn =>
    have hr : d.entryAt? r = some .directory := if_pos hn
    rw [if_neg (by rintro rfl; exact hq hr), hr]
  · rfl

theorem extends_set_file {q : Place} (hq : d.entryAt? q ≠ some .directory) (bytes : List UInt8) :
    Extends dirs (· = q) d (d.set q (.file bytes)) := by
  intro r
  rw [entryAt?_set_file hq]
  split
  · next hr => subst hr; exact Or.inr (Or.inr ⟨rfl, hq, bytes, rfl⟩)
  · exact Or.inl rfl

/-! ### The end of a path -/

theorem findFrom_name_ok {p : Place} {n : Name} {cs : List Component} {t : Target}
    (h : d.findFrom p (.name n :: cs) = .ok t) :
    n.length ≤ maxName ∧
      ((d.entryAt? (p.child n) = some .directory ∧ d.findFrom (p.child n) cs = .ok t) ∨
        (cs = [] ∧ t.place = p.child n ∧ d.entryAt? (p.child n) = t.content?)) := by
  rw [findFrom_name] at h
  split at h
  · cases h
  · next hlen =>
    refine ⟨Nat.le_of_not_lt hlen, ?_⟩
    split at h
    · next he => exact Or.inl ⟨he, h⟩
    · next he =>
      split at h
      · next hcs => cases h; exact Or.inr ⟨hcs, rfl, he⟩
      · cases h
    · next he =>
      split at h
      · next hcs => cases h; exact Or.inr ⟨hcs, rfl, he⟩
      · cases h

/-- **What is found stands where the steps lead to.**  This may fail for a directory that was come
back to from below. -/
theorem findFrom_target {p : Place} {cs : List Component} {t : Target}
    (h : d.findFrom p cs = .ok t) :
    t.place = cs.foldl Place.step p ∧ (t.HasRoom → d.entryAt? t.place = t.content?) := by
  induction cs generalizing p with
  | nil =>
    rw [findFrom_nil] at h
    cases h
    exact ⟨rfl, fun hroom => absurd rfl hroom⟩
  | cons c cs ih =>
    cases c with
    | root => exact ih h
    | here => exact ih h
    | up => rw [findFrom_up] at h; exact ih h
    | name n =>
      obtain ⟨-, ⟨-, hrest⟩ | ⟨rfl, hplace, hentry⟩⟩ := findFrom_name_ok h
      · exact ih hrest
      · exact ⟨hplace, fun _ => by rw [hplace, hentry]⟩

/-- **What stands at the end is found** where it could stand before, if the directories on the way
are still there. -/
theorem findFrom_entry
    (hdirs : ∀ q, d.entryAt? q = some .directory → d'.entryAt? q = some .directory)
    {p : Place} {cs : List Component} {t : Target} (h : d.findFrom p cs = .ok t) (ht : t.HasRoom)
    {e : Entry} (hentry : d'.entryAt? t.place = some e) :
    d'.findFrom p cs = .ok (.present t.place e) := by
  induction cs generalizing p with
  | nil =>
    rw [findFrom_nil] at h
    cases h
    exact absurd rfl ht
  | cons c cs ih =>
    cases c with
    | root => exact ih h
    | here => exact ih h
    | up => rw [findFrom_up] at h ⊢; exact ih h
    | name n =>
      obtain ⟨hlen, ⟨hdir, hrest⟩ | ⟨rfl, hplace, -⟩⟩ := findFrom_name_ok h
      · rw [findFrom_name, if_neg (Nat.not_lt.2 hlen), hdirs _ hdir]
        exact ih hrest
      · rw [hplace] at hentry ⊢
        rw [findFrom_name, if_neg (Nat.not_lt.2 hlen), hentry]
        cases e with
        | file bytes => exact if_pos rfl
        | directory => rfl

theorem findFrom_append {p q : Place} {cs : List Component}
    (h : d.findFrom p cs = .ok (.present q .directory)) (ds : List Component) :
    d.findFrom p (cs ++ ds) = d.findFrom q ds := by
  induction cs generalizing p with
  | nil =>
    rw [findFrom_nil] at h
    cases h
    rfl
  | cons c cs ih =>
    cases c with
    | root => exact ih h
    | here => exact ih h
    | up => rw [findFrom_up] at h; rw [List.cons_append, findFrom_up]; exact ih h
    | name n =>
      obtain ⟨hlen, ⟨hdir, hrest⟩ | ⟨rfl, hplace, hentry⟩⟩ := findFrom_name_ok h
      · rw [List.cons_append, findFrom_name, if_neg (Nat.not_lt.2 hlen), hdir]
        exact ih hrest
      · obtain rfl : q = p.child n := hplace
        rw [List.cons_append, findFrom_name, if_neg (Nat.not_lt.2 hlen), hentry]
        rfl

theorem route_eq_ok {p : Path} {steps : List Component} (h : route p = .ok steps) :
    steps = p.steps := by
  unfold route at h
  split at h
  · cases h
  · split at h
    · cases h
    · cases h; rfl

theorem find_eq_ok {p : Path} {t : Target} (h : d.find p = .ok t) :
    route p = .ok p.steps ∧ d.follow p.steps = .ok t := by
  unfold find at h
  split at h
  · cases h
  · next hroute =>
    obtain rfl := route_eq_ok hroute
    exact ⟨hroute, h⟩

theorem find_target {p : Path} {t : Target} (h : d.find p = .ok t) :
    t.place = p.place ∧ (t.HasRoom → d.entryAt? p.place = t.content?) := by
  obtain ⟨hplace, hentry⟩ := findFrom_target (find_eq_ok h).2
  rw [hplace] at hentry
  exact ⟨hplace, hentry⟩

theorem find_file (hext : Extends dirs files d d') {p : Path} {t : Target} (h : d.find p = .ok t)
    (ht : t.HasRoom) {bytes : List UInt8} (hfile : d'.entryAt? p.place = some (.file bytes)) :
    d'.find p = .ok (.present p.place (.file bytes)) := by
  obtain ⟨hroute, hfollow⟩ := find_eq_ok h
  have hplace := (find_target h).1
  rw [← hplace] at hfile ⊢
  rw [find, hroute]
  exact findFrom_entry (fun q => hext.directory) hfollow ht hfile

/-! ### Files -/

theorem write_eq_ok {p : Path} {bytes : List UInt8} (h : d.write p bytes = .ok d') :
    d.entryAt? p.place ≠ some .directory ∧ d' = d.set p.place (.file bytes) ∧
      p.endsInSlash = false ∧ ∃ t, d.find p = .ok t ∧ t.HasRoom := by
  -- whatever is there, it is not a directory
  have hset {t : Target} (hfind : d.find p = .ok t) (hroom : t.HasRoom)
      (hw : (if p.endsInSlash then .error .isADirectory else .ok (d.set t.place (.file bytes)))
        = (.ok d' : Except DiskFault Disk)) :
      d.entryAt? p.place ≠ some .directory ∧ d' = d.set p.place (.file bytes) ∧
        p.endsInSlash = false ∧ ∃ t, d.find p = .ok t ∧ t.HasRoom := by
    obtain ⟨hplace, hentry⟩ := find_target hfind
    split at hw
    · cases hw
    · next hslash =>
      cases hw
      refine ⟨?_, by rw [hplace], by simpa using hslash, t, hfind, hroom⟩
      rw [hentry hroom]
      exact hroom
  unfold write at h
  split at h
  · cases h
  · cases h
  · next q hfind => exact hset hfind (Target.hasRoom_vacant _) h
  · next q b hfind => exact hset hfind (Target.hasRoom_file _ _) h

theorem extends_write {p : Path} {bytes : List UInt8} (h : d.write p bytes = .ok d') :
    Extends dirs (· = p.place) d d' := by
  obtain ⟨hfree, rfl, -⟩ := write_eq_ok h
  exact extends_set_file hfree bytes

theorem read_set_file {p : Path} {t : Target} (hslash : p.endsInSlash = false)
    (hfind : d.find p = .ok t) (hroom : t.HasRoom) (bytes : List UInt8) :
    (d.set p.place (.file bytes)).read p = .ok bytes := by
  have hfree : d.entryAt? p.place ≠ some .directory := by
    rw [(find_target hfind).2 hroom]
    exact hroom
  have hext : Extends (fun _ => False) (· = p.place) d (d.set p.place (.file bytes)) :=
    extends_set_file hfree bytes
  have hfile : (d.set p.place (.file bytes)).entryAt? p.place = some (.file bytes) := by
    rw [entryAt?_set_file hfree, if_pos rfl]
  rw [read, find_file hext hfind hroom hfile]
  simp [hslash]

/-- **What is written is read back.** -/
theorem read_write {p : Path} {bytes : List UInt8} (h : d.write p bytes = .ok d') :
    d'.read p = .ok bytes := by
  obtain ⟨-, rfl, hslash, t, hfind, hroom⟩ := write_eq_ok h
  exact read_set_file hslash hfind hroom bytes

theorem read_eq_ok {p : Path} {bytes : List UInt8} (h : d.read p = .ok bytes) :
    p.endsInSlash = false ∧ ∃ q, d.find p = .ok (.present q (.file bytes)) := by
  unfold read at h
  split at h
  · cases h
  · cases h
  · cases h
  · next hfind =>
    split at h
    · cases h
    · next hslash => cases h; exact ⟨by simpa using hslash, _, hfind⟩

/-- What was read is still read from an extension that does not write it over. -/
theorem read_of_extends (hext : Extends dirs files d d') {p : Path} (hp : ¬ files p.place)
    {bytes : List UInt8} (h : d.read p = .ok bytes) : d'.read p = .ok bytes := by
  obtain ⟨hslash, q, hfind⟩ := read_eq_ok h
  have hroom := Target.hasRoom_file q bytes
  have hentry := (find_target hfind).2 hroom
  have hfile : d'.entryAt? p.place = some (.file bytes) := by
    rcases hext p.place with he | ⟨-, hnone, -⟩ | ⟨hover, -⟩
    · rw [he, hentry]; rfl
    · rw [hentry] at hnone; cases hnone
    · exact absurd hover hp
  rw [read, find_file hext hfind hroom hfile]
  simp [hslash]

/-! ### Directories -/

theorem extends_makeDir {steps : List Component} (h : d.makeDir steps = .ok d') :
    Extends (· = .ofSteps steps) files d d' := by
  unfold makeDir at h
  split at h
  · cases h
  · next q hfollow =>
    cases h
    obtain ⟨hplace, hentry⟩ := findFrom_target hfollow
    have hnone := hentry (Target.hasRoom_vacant _)
    rw [Target.place] at hplace hnone
    rw [Place.ofSteps, ← hplace]
    exact extends_set_directory hnone
  · cases h

theorem extends_makeDirsIn (d : Disk) (steps parent : List Component) :
    Extends (fun q => q = .ofSteps steps ∨ ∃ back, back <:+ parent ∧ q = .ofSteps back.reverse)
      files d (d.makeDirsIn steps parent).1 := by
  induction parent generalizing d steps with
  | nil =>
    unfold makeDirsIn
    split
    · next h => exact (extends_makeDir h).mono (fun _ => Or.inl) fun _ => id
    · exact Extends.refl
    · exact Extends.refl
  | cons c back ih =>
    have hstep {d d' : Disk} (h : d.makeDir steps = .ok d') :
        Extends (fun q => q = .ofSteps steps ∨
          ∃ back', back' <:+ c :: back ∧ q = .ofSteps back'.reverse) files d d' :=
      (extends_makeDir h).mono (fun _ => Or.inl) fun _ => id
    unfold makeDirsIn
    split
    · next h => exact hstep h
    · have hparent : Extends (fun q => q = .ofSteps steps ∨
          ∃ back', back' <:+ c :: back ∧ q = .ofSteps back'.reverse) files d
          (d.makeDirsIn (c :: back).reverse back).1 := by
        refine (ih d (c :: back).reverse).mono ?_ fun _ => id
        rintro q (rfl | ⟨back', hback, rfl⟩)
        · exact Or.inr ⟨c :: back, List.suffix_refl _, rfl⟩
        · exact Or.inr ⟨back', hback.trans (List.suffix_cons ..), rfl⟩
      dsimp only
      split
      · next he => rw [he] at hparent; exact hparent
      · next d' he =>
        rw [he] at hparent
        split
        · next hm => exact hparent.trans (hstep hm)
        · exact hparent
    · exact Extends.refl

end Disk

/-- The places that a path goes along from the working directory, its own end included. -/
def Path.Along (p : Path) (q : Place) : Prop :=
  ∃ cs, cs <+: p.components ∧ q = .ofSteps cs

/-- **Making directories** brings up directories along the path, whether or not it succeeds, and
changes nothing else. -/
theorem Disk.extends_makeDirs (files : Place → Prop) (d : Disk) (p : Path) :
    Extends p.Along files d (d.makeDirs p).1 := by
  unfold makeDirs
  split
  · exact Extends.refl
  · exact Extends.refl
  · next steps hne hroute =>
    obtain rfl := route_eq_ok hroute
    refine (extends_makeDirsIn d p.steps _).mono ?_ fun _ => id
    rintro q (rfl | ⟨back, hback, rfl⟩)
    · exact ⟨p.components, List.prefix_refl _, (Path.place_components p).symm⟩
    · refine ⟨back.reverse, ?_, rfl⟩
      have hsuffix := hback.trans (List.tail_suffix _)
      exact List.reverse_suffix.1 (by rwa [List.reverse_reverse])

end KnownIssues
