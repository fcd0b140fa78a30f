import KnownIssues.Proofs.KeyLookup

/-! # Where the directory of a key lies

The names along a path do not tell where it leads if it has steps up: the name behind the last root may be
that of a directory beside the root, or of one that the path has left.  A file whose path enters a directory
right behind the last root and does not leave it (`KeyLookup.StaysBelow`) lies where its names say
(`exists_liesBelowRoot`); others may give a key that no directory below the root is named after
(`key_beside_root`). -/

namespace KnownIssues

/-! ### Steps that stay inside -/

/-- The steps lead nowhere above the directory where they begin: up to each of them there are no more steps up
than names. -/
def Inward (steps : List Component) : Prop :=
  ∀ front, front <+: steps → front.count .up ≤ (front.filterMap Component.name?).length

theorem inward_of_not_mem {steps : List Component} (h : .up ∉ steps) : Inward steps := by
  intro front hfront
  have hnone : .up ∉ front := fun hmem => h (hfront.subset hmem)
  rw [List.count_eq_zero_of_not_mem hnone]
  exact Nat.zero_le _

namespace Place

theorem names_parent {q : Place} {n : Name} {names : List Name} (h : q.names = n :: names) :
    q.parent.names = names := by
  obtain ⟨origin, _⟩ := q
  obtain rfl : _ = n :: names := h
  cases origin <;> rfl

/-- Steps that begin some names below a directory do not leave it if they step up no more often than these
names and their own allow. -/
theorem exists_names_foldl_step {steps : List Component} (hroot : .root ∉ steps) {q : Place}
    {inner base : List Name} (hq : q.names = inner ++ base)
    (h : ∀ front, front <+: steps →
      front.count .up ≤ (front.filterMap Component.name?).length + inner.length) :
    ∃ more, (steps.foldl step q).names = more ++ base := by
  induction steps generalizing q inner with
  | nil => exact ⟨inner, hq⟩
  | cons c steps ih =>
    rw [List.mem_cons, not_or] at hroot
    have hbehind (front : List Component) (hfront : front <+: steps) :=
      h (c :: front) (List.cons_prefix_cons.2 ⟨rfl, hfront⟩)
    rw [List.foldl_cons]
    cases c with
    | root => exact absurd rfl hroot.1
    | here =>
      refine ih hroot.2 hq fun front hfront => ?_
      have hcount := hbehind front hfront
      rwa [List.count_cons_of_ne (by decide), List.filterMap_cons_none rfl] at hcount
    | name n =>
      have hchild : (q.child n).names = (n :: inner) ++ base := congrArg (n :: ·) hq
      refine ih hroot.2 hchild fun front hfront => ?_
      have hcount := hbehind front hfront
      rw [List.count_cons_of_ne (by simp),
        List.filterMap_cons_some (Component.name?_eq_some_iff.2 rfl), List.length_cons] at hcount
      rw [List.length_cons]
      omega
    | up =>
      cases inner with
      | nil => exact absurd (h [.up] (by simp)) (by decide)
      | cons n inner =>
        refine ih hroot.2 (names_parent hq) fun front hfront => ?_
        have hcount := hbehind front hfront
        rw [List.count_cons_self, List.filterMap_cons_none rfl] at hcount
        exact Nat.le_of_succ_le_succ hcount

end Place

/-! ### Names along a path -/

theorem Component.mem_filterMap_name? {cs : List Component} {n : Name} :
    n ∈ cs.filterMap Component.name? ↔ .name n ∈ cs := by
  simp [List.mem_filterMap, Component.name?_eq_some_iff]

theorem Path.WellFormed.exists_append_names {cs : List Component} (h : WellFormed cs)
    (hup : .up ∉ cs) : ∃ front, cs = front ++ (cs.filterMap Component.name?).map .name := by
  have hnames {ds : List Component} (hds : ∀ c ∈ ds, c ≠ .root ∧ c ≠ .here ∧ c ≠ .up) :
      ds = (ds.filterMap Component.name?).map .name := by
    induction ds with
    | nil => rfl
    | cons c ds ih =>
      rw [List.forall_mem_cons] at hds
      cases c with
      | root => exact absurd rfl hds.1.1
      | here => exact absurd rfl hds.1.2.1
      | up => exact absurd rfl hds.1.2.2
      | name n => exact congrArg (Component.name n :: ·) (ih hds.2)
  cases cs with
  | nil => exact ⟨[], rfl⟩
  | cons c cs =>
    rw [List.mem_cons, not_or] at hup
    have hcs : cs = (cs.filterMap Component.name?).map .name := hnames fun d hd =>
      ⟨(h.behind d hd).1, (h.behind d hd).2, fun hd' => hup.2 (hd' ▸ hd)⟩
    cases hc : c.name? with
    | none =>
      rw [List.filterMap_cons_none hc]
      exact ⟨[c], congrArg (c :: ·) hcs⟩
    | some n =>
      obtain rfl := Component.name?_eq_some_iff.1 hc
      exact ⟨[], congrArg (Component.name n :: ·) hcs⟩

namespace KeyLookup

/-- Where the file's parent leads, a root is on the way, and right below it a directory named after the key. -/
def LiesBelowRoot (l : KeyLookup) (p : Path) (k : ProjectKey) : Prop :=
  ∃ above dir below,
    p.parent.place.trail = above ++ Text.encode l.root :: Text.encode dir :: below ∧ k.Pads dir

/-- Right behind the last root the file's path enters a directory, and does not leave it again. -/
def StaysBelow (l : KeyLookup) (p : Path) : Prop :=
  ∃ front dir behind,
    p.parent.components = front ++ .name (Text.encode l.root) :: .name dir :: behind ∧
    .name (Text.encode l.root) ∉ Component.name dir :: behind ∧ Inward behind

/-- **Names and places agree** for a file that stays below the last root. -/
theorem StaysBelow.liesBelowRoot {l : KeyLookup} {p : Path} {k : ProjectKey} (h : l.StaysBelow p)
    (hk : l.NamesKey p k) : l.LiesBelowRoot p k := by
  obtain ⟨front, n, behind, hcs, hlast, hinward⟩ := h
  obtain ⟨before, dir, after, hnames, hroot, hpads⟩ := hk
  -- both name what stands behind the last root
  have hdir : n = Text.encode dir := by
    have hsplit : p.parent.components.filterMap Component.name?
        = front.filterMap Component.name? ++
          Text.encode l.root :: n :: behind.filterMap Component.name? := by
      rw [hcs, List.filterMap_append]
      rfl
    have hlast' : Text.encode l.root ∉ (.name n :: behind).filterMap Component.name? := fun hmem =>
      hlast (Component.mem_filterMap_name?.1 hmem)
    have hn := afterLast?_eq_some_iff.2 ⟨_, _, hsplit, hlast'⟩
    rw [afterLast?_eq_some_iff.2 ⟨_, _, hnames, hroot⟩] at hn
    exact (Option.some.inj hn).symm
  subst hdir
  have hbehind : .root ∉ behind := by
    intro hmem
    refine ((Path.wellFormed_components p.parent).behind .root ?_).1 rfl
    rw [hcs]
    cases front <;> simp [hmem]
  have hinside : (((Place.ofSteps front).child (Text.encode l.root)).child (Text.encode dir)).names
      = [] ++ Text.encode dir :: Text.encode l.root :: (Place.ofSteps front).names := rfl
  obtain ⟨more, hmore⟩ := Place.exists_names_foldl_step hbehind hinside hinward
  refine ⟨(Place.ofSteps front).trail, dir, more.reverse, ?_, hpads⟩
  have hplace : p.parent.place.names
      = more ++ Text.encode dir :: Text.encode l.root :: (Place.ofSteps front).names := by
    rw [← Path.place_components, hcs, Place.ofSteps_append]
    exact hmore
  simp [Place.trail, hplace]

/-- A file that gives a key stays below the last root if its path has no steps up. -/
theorem NamesKey.staysBelow {l : KeyLookup} {p : Path} {k : ProjectKey} (h : l.NamesKey p k)
    (hup : .up ∉ p.parent.components) : l.StaysBelow p := by
  obtain ⟨before, dir, after, hnames, hroot, -⟩ := h
  obtain ⟨front, hcs⟩ := (Path.wellFormed_components p.parent).exists_append_names hup
  rw [hnames] at hcs
  refine ⟨front ++ before.map .name, Text.encode dir, after.map .name, ?_, ?_, ?_⟩
  · rw [hcs]
    simp
  · intro hmem
    rw [← List.map_cons, List.mem_map] at hmem
    obtain ⟨n, hn, heq⟩ := hmem
    cases heq
    exact hroot hn
  · exact inward_of_not_mem (by simp)

/-- **Keys of files lie below the root** as long as no file that gives the key leaves the directory it enters
behind the last root. -/
theorem exists_liesBelowRoot {l : KeyLookup} {c : Compilation} {k : ProjectKey}
    (hblank : l.OptionBlank c) (hk : l.resolve? c = some k)
    (hstays : ∀ p ∈ c.files, l.Yields p k → .up ∈ p.parent.components → l.StaysBelow p) :
    ∃ p ∈ c.files, l.Yields p k ∧ l.LiesBelowRoot p k := by
  rw [resolve?, keyOfOption?_eq_none_iff.2 hblank, Option.none_or] at hk
  obtain ⟨p, hmem, hp⟩ := List.exists_of_findSome?_eq_some hk
  have hyields := keyOfFile?_eq_some_iff.1 hp
  refine ⟨p, hmem, hyields, StaysBelow.liesBelowRoot ?_ hyields.namesKey⟩
  by_cases hup : .up ∈ p.parent.components
  · exact hstays p hmem hyields hup
  · exact hyields.namesKey.staysBelow hup

/-- Steps up in front of the root and inside the key's directory. -/
theorem exists_liesBelowRoot_inside :
    let l := KeyLookup.default
    let k : ProjectKey := ⟨"k", by decide, by decide⟩
    let p := Path.ofString "../sln/x/../.sonarlint/k/a/../SonarLint.xml"
    let c : Compilation := ⟨.ofList [], [p]⟩
    l.OptionBlank c ∧ l.resolve? c = some k ∧ .up ∈ p.parent.components ∧ l.StaysBelow p ∧
      ∃ q ∈ c.files, l.Yields q k ∧ l.LiesBelowRoot q k := by
  intro l k p c
  have hblank : l.OptionBlank c := keyOfOption?_eq_none_iff.1 (by decide +kernel)
  have hkey : l.resolve? c = some k := by decide +kernel
  have hstays : l.StaysBelow p := by
    refine ⟨[.up, .name (Text.encode "sln"), .name (Text.encode "x"), .up], Text.encode "k",
      [.name (Text.encode "a"), .up], by decide +kernel, by decide +kernel, ?_⟩
    intro front hfront
    rcases List.prefix_cons_iff.1 hfront with rfl | ⟨ds, rfl, hds⟩
    · decide
    · rcases List.prefix_cons_iff.1 hds with rfl | ⟨es, rfl, hes⟩
      · decide +kernel
      · obtain rfl := List.prefix_nil.1 hes
        decide +kernel
  refine ⟨hblank, hkey, by decide +kernel, hstays,
    exists_liesBelowRoot hblank hkey fun q hq _ _ => ?_⟩
  obtain rfl := List.mem_singleton.1 hq
  exact hstays

theorem LiesBelowRoot.mem_dropLast {l : KeyLookup} {p : Path} {k : ProjectKey}
    (h : l.LiesBelowRoot p k) : Text.encode l.root ∈ p.parent.place.trail.dropLast := by
  obtain ⟨above, dir, below, htrail, -⟩ := h
  rw [htrail, List.dropLast_append_of_ne_nil (List.cons_ne_nil _ _), List.dropLast_cons_cons]
  exact List.mem_append_right _ (List.mem_cons_self ..)

/-- **A key from outside the root:** that of a directory beside it, to which the path steps up from the root,
and that of a directory below it which the path has left. -/
theorem key_beside_root :
    let l := KeyLookup.default
    let k : ProjectKey := ⟨"other", by decide, by decide⟩
    ∀ p ∈ [Path.ofString "/sln/.sonarlint/../other/SonarLint.xml",
        Path.ofString "/sln/.sonarlint/other/../SonarLint.xml"],
      let c : Compilation := ⟨.ofList [], [p]⟩
      l.OptionBlank c ∧ l.resolve? c = some k ∧ ¬ ∃ q ∈ c.files, l.LiesBelowRoot q k := by
  intro l k p hp c
  have hkey : ∀ q ∈ [Path.ofString "/sln/.sonarlint/../other/SonarLint.xml",
      Path.ofString "/sln/.sonarlint/other/../SonarLint.xml"],
      l.keyOfOption? ⟨.ofList [], [q]⟩ = none ∧ l.resolve? ⟨.ofList [], [q]⟩ = some k ∧
        Text.encode l.root ∉ q.parent.place.trail.dropLast := by decide +kernel
  obtain ⟨hnone, hk, hroot⟩ := hkey p hp
  refine ⟨keyOfOption?_eq_none_iff.1 hnone, hk, ?_⟩
  rintro ⟨q, hq, hbelow⟩
  obtain rfl := List.mem_singleton.1 hq
  exact hroot hbelow.mem_dropLast

end KeyLookup

end KnownIssues
