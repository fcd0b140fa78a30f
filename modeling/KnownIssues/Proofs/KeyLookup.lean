import KnownIssues.KeyLookup
import KnownIssues.Proofs.PathParent
import KnownIssues.Proofs.ProjectKey

/-! # Which key a compilation has

A file gives a key (`KeyLookup.Yields`) if it is called like the marker and, among the names of its parent,
the one behind the last root is a text that is not blank.

* `afterLast?_eq_some_iff`: what stands behind the last occurrence of an element.
* `keyOfFile?_eq_some_iff`: the key that a file gives.
* `resolve?_iff`: the option's key if it is not blank, else that of the first file that gives one.  Files
  that give none do not matter. -/

namespace KnownIssues

/-- **Behind the last occurrence:** the element itself does not follow again. -/
theorem afterLast?_eq_some_iff {α : Type} [DecidableEq α] {x y : α} {l : List α} :
    afterLast? x l = some y ↔ ∃ before after, l = before ++ x :: y :: after ∧ x ∉ y :: after := by
  induction l with
  | nil => simp [afterLast?]
  | cons z l ih =>
    rw [afterLast?]
    split
    · next hmem =>
      rw [ih]
      constructor
      · rintro ⟨before, after, rfl, hx⟩
        exact ⟨z :: before, after, rfl, hx⟩
      · rintro ⟨before, after, hl, hx⟩
        cases before with
        | nil =>
          obtain ⟨rfl, rfl⟩ := List.cons.inj hl
          exact absurd hmem hx
        | cons w before => exact ⟨before, after, (List.cons.inj hl).2, hx⟩
    · next hmem =>
      split
      · next hz =>
        subst hz
        constructor
        · intro h
          obtain ⟨after, rfl⟩ := List.head?_eq_some_iff.1 h
          exact ⟨[], after, rfl, hmem⟩
        · rintro ⟨before, after, hl, hx⟩
          cases before with
          | nil => rw [(List.cons.inj hl).2]; rfl
          | cons w before => exact absurd (by rw [(List.cons.inj hl).2]; simp) hmem
      · next hz =>
        constructor
        · nofun
        · rintro ⟨before, after, hl, -⟩
          cases before with
          | nil => exact absurd (List.cons.inj hl).1 hz
          | cons w before => exact absurd (by rw [(List.cons.inj hl).2]; simp) hmem

theorem Component.name?_eq_some_iff {c : Component} {n : Name} :
    c.name? = some n ↔ c = .name n := by
  cases c <;> simp [Component.name?]

theorem Path.fileName?_eq_some_iff {p : Path} {n : Name} :
    p.fileName? = some n ↔ p.components.getLast? = some (.name n) := by
  simp [Path.fileName?, Option.bind_eq_some_iff, Component.name?_eq_some_iff]

namespace KeyLookup

/-- The file is called like the marker, up to letter case. -/
def IsMarkerFile (l : KeyLookup) (p : Path) : Prop :=
  ∃ file, p.components.getLast? = some (.name (Text.encode file)) ∧
    Text.foldCase file = Text.foldCase l.marker

/-- Among the names of the file's parent, the one behind the last root is a text for the key. -/
def NamesKey (l : KeyLookup) (p : Path) (k : ProjectKey) : Prop :=
  ∃ before dir after,
    p.parent.components.filterMap Component.name?
      = before ++ Text.encode l.root :: Text.encode dir :: after ∧
    Text.encode l.root ∉ Text.encode dir :: after ∧ k.Pads dir

/-- The file gives the key. -/
structure Yields (l : KeyLookup) (p : Path) (k : ProjectKey) : Prop where
  isMarkerFile : l.IsMarkerFile p
  namesKey : l.NamesKey p k

theorem isMarker_iff {l : KeyLookup} {p : Path} : l.isMarker p = true ↔ l.IsMarkerFile p := by
  unfold isMarker IsMarkerFile
  constructor
  · intro h
    obtain ⟨file, hfile, hcase⟩ := (Option.any_eq_true _ _).1 h
    obtain ⟨name, hname, hbytes⟩ := Option.bind_eq_some_iff.1 hfile
    obtain rfl := Text.decode?_eq_some_iff.1 hbytes
    exact ⟨file, Path.fileName?_eq_some_iff.1 hname, Text.sameIgnoringCase_iff.1 hcase⟩
  · rintro ⟨file, hname, hcase⟩
    rw [Path.fileName?_eq_some_iff.2 hname, Option.bind_some, Text.decode?_encode]
    exact Text.sameIgnoringCase_iff.2 hcase

theorem keyBelowRoot?_eq_some_iff {l : KeyLookup} {p : Path} {k : ProjectKey} :
    l.keyBelowRoot? p = some k ↔ l.NamesKey p k := by
  rw [keyBelowRoot?, Path.directories, ← Path.components_parent]
  constructor
  · intro h
    obtain ⟨dir, hdir, hkey⟩ := Option.bind_eq_some_iff.1 h
    obtain ⟨bytes, hlast, hbytes⟩ := Option.bind_eq_some_iff.1 hdir
    obtain rfl := Text.decode?_eq_some_iff.1 hbytes
    obtain ⟨before, after, hnames, hroot⟩ := afterLast?_eq_some_iff.1 hlast
    exact ⟨before, dir, after, hnames, hroot, ProjectKey.ofString?_eq_some_iff_pads.1 hkey⟩
  · rintro ⟨before, dir, after, hnames, hroot, hkey⟩
    have hlast := afterLast?_eq_some_iff.2 ⟨before, after, hnames, hroot⟩
    rw [hlast, Option.bind_some, Text.decode?_encode, Option.bind_some]
    exact ProjectKey.ofString?_eq_some_iff_pads.2 hkey

/-- **The key that a file gives.** -/
theorem keyOfFile?_eq_some_iff {l : KeyLookup} {p : Path} {k : ProjectKey} :
    l.keyOfFile? p = some k ↔ l.Yields p k := by
  rw [keyOfFile?]
  split
  · next h =>
    rw [keyBelowRoot?_eq_some_iff]
    exact ⟨fun hk => ⟨isMarker_iff.1 h, hk⟩, fun hk => hk.namesKey⟩
  · next h => exact ⟨nofun, fun hk => absurd (isMarker_iff.2 hk.isMarkerFile) h⟩

theorem keyOfFile?_eq_none_iff {l : KeyLookup} {p : Path} :
    l.keyOfFile? p = none ↔ ∀ k, ¬ l.Yields p k := by
  rw [Option.eq_none_iff_forall_ne_some]
  exact forall_congr' fun k => not_congr keyOfFile?_eq_some_iff

/-! ### The option, or else the first file -/

/-- The option gives the key. -/
def OptionGives (l : KeyLookup) (c : Compilation) (k : ProjectKey) : Prop :=
  ∃ value, c.options.find? l.option = some value ∧ k.Pads value

/-- The option is missing or blank. -/
def OptionBlank (l : KeyLookup) (c : Compilation) : Prop :=
  ∀ value, c.options.find? l.option = some value → Text.AllBlank value.toList

theorem keyOfOption?_eq_some_iff {l : KeyLookup} {c : Compilation} {k : ProjectKey} :
    l.keyOfOption? c = some k ↔ l.OptionGives c k := by
  simp only [keyOfOption?, OptionGives, Option.bind_eq_some_iff,
    ProjectKey.ofString?_eq_some_iff_pads]

theorem keyOfOption?_eq_none_iff {l : KeyLookup} {c : Compilation} :
    l.keyOfOption? c = none ↔ l.OptionBlank c := by
  simp only [keyOfOption?, OptionBlank, Option.bind_eq_none_iff,
    ProjectKey.ofString?_eq_none_iff_blank]

/-- The first file that gives a key gives this one. -/
def FirstYields (l : KeyLookup) (files : List Path) (k : ProjectKey) : Prop :=
  ∃ before p after, files = before ++ p :: after ∧ (∀ q ∈ before, ∀ j, ¬ l.Yields q j) ∧
    l.Yields p k

theorem findSome?_keyOfFile?_eq_some_iff {l : KeyLookup} {files : List Path} {k : ProjectKey} :
    files.findSome? l.keyOfFile? = some k ↔ l.FirstYields files k := by
  rw [List.findSome?_eq_some_iff, FirstYields]
  simp only [keyOfFile?_eq_some_iff, keyOfFile?_eq_none_iff]
  constructor
  · rintro ⟨before, p, after, hfiles, hp, hbefore⟩
    exact ⟨before, p, after, hfiles, hbefore, hp⟩
  · rintro ⟨before, p, after, hfiles, hbefore, hp⟩
    exact ⟨before, p, after, hfiles, hp, hbefore⟩

theorem findSome?_keyOfFile?_eq_none_iff {l : KeyLookup} {files : List Path} :
    files.findSome? l.keyOfFile? = none ↔ ∀ p ∈ files, ∀ k, ¬ l.Yields p k := by
  simp only [List.findSome?_eq_none_iff, keyOfFile?_eq_none_iff]

/-- **Which key a compilation has.**  It is that of the option if this is there and not blank, or else that
of the first file that gives one, or else there is none.  A file gives no more than one key, and a file that
gives none changes nothing, wherever it stands. -/
theorem resolve?_iff (l : KeyLookup) (c : Compilation) :
    (∀ k, l.resolve? c = some k ↔
      l.OptionGives c k ∨ l.OptionBlank c ∧ l.FirstYields c.files k) ∧
    (l.resolve? c = none ↔ l.OptionBlank c ∧ ∀ p ∈ c.files, ∀ k, ¬ l.Yields p k) ∧
    (∀ p j k, l.Yields p j → l.Yields p k → j = k) ∧
    ∀ before p after, c.files = before ++ p :: after → (∀ k, ¬ l.Yields p k) →
      l.resolve? c = l.resolve? ⟨c.options, before ++ after⟩ := by
  refine ⟨fun k => ?_, ?_, ?_, ?_⟩
  · rw [resolve?, Option.or_eq_some_iff, keyOfOption?_eq_some_iff, keyOfOption?_eq_none_iff,
      findSome?_keyOfFile?_eq_some_iff]
  · rw [resolve?, Option.or_eq_none_iff, keyOfOption?_eq_none_iff,
      findSome?_keyOfFile?_eq_none_iff]
  · intro p j k hj hk
    have h := (keyOfFile?_eq_some_iff.2 hj).symm.trans (keyOfFile?_eq_some_iff.2 hk)
    exact Option.some.inj h
  · intro before p after hfiles hp
    rw [resolve?, resolve?, hfiles, List.findSome?_append, List.findSome?_append,
      List.findSome?_cons, keyOfFile?_eq_none_iff.2 hp]
    rfl

/-- A blank option; a directory that is no text; a root behind a root, with nothing behind it; and a file
that gives its key in spite of slashes, dots, blanks and letter case. -/
theorem resolve?_iff_hidden :
    let l := KeyLookup.default
    let k : ProjectKey := ⟨"k", by decide, by decide⟩
    let broken : Path := ⟨Text.encode "/a/.sonarlint/" ++ 0xFF :: Text.encode "/SonarLint.xml"⟩
    let empty := Path.ofString "/a/.sonarlint/j/.sonarlint/SonarLint.xml"
    let good := Path.ofString "/a//./.sonarlint/ k\t/CSharp/sonarLINT.XML/."
    let c : Compilation := ⟨.ofList [(l.option, " ")], [broken, empty, good]⟩
    l.resolve? c = some k ∧ l.OptionBlank c ∧ l.FirstYields c.files k ∧
      (∀ j, ¬ l.Yields empty j) ∧ l.resolve? c = l.resolve? ⟨c.options, [broken, good]⟩ := by
  intro l k broken empty good c
  obtain ⟨hsome, -, -, hskip⟩ := resolve?_iff l c
  have hkey : l.resolve? c = some k := by decide +kernel
  have hblank : l.OptionBlank c := keyOfOption?_eq_none_iff.1 (by decide +kernel)
  have hempty : ∀ j, ¬ l.Yields empty j := keyOfFile?_eq_none_iff.1 (by decide +kernel)
  refine ⟨hkey, hblank, ?_, hempty, hskip [broken] empty [good] rfl hempty⟩
  rcases (hsome k).1 hkey with hgives | ⟨-, hfirst⟩
  · have hnone := keyOfOption?_eq_none_iff.2 hblank
    rw [keyOfOption?_eq_some_iff.2 hgives] at hnone
    cases hnone
  · exact hfirst

end KeyLookup

end KnownIssues
