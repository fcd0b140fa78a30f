import KnownIssues.Place

/-! # Where paths lead

Each step leads from one place to another (`Place.step`), so a path leads to one place
(`Path.place`), whether or not anything is there.  The path of a name in a directory has the steps
of the directory and then the name (`steps_child`), so it leads to the name below the place of the
directory (`place_child`); both may be written as text (`ofString_join`).  Dots do not count for
where a path leads (`place_components`).  A path of names leads straight down from the working
directory (`place_of_names`). -/

namespace KnownIssues

/-- Where one step leads to. -/
def Place.step (p : Place) : Component → Place
  | .root => root
  | .here => p
  | .up => p.parent
  | .name n => p.child n

/-- Where steps from the working directory lead to. -/
def Place.ofSteps (steps : List Component) : Place :=
  steps.foldl Place.step .working

/-- Where a path leads to from the working directory. -/
def Path.place (p : Path) : Place :=
  .ofSteps p.steps

namespace Path

/-! ### Segments -/

/-- The bytes are a name, and stand between slashes as they are. -/
def IsName (n : Name) : Prop :=
  slash ∉ n ∧ component? n = some (.name n)

theorem segments_ne_nil (bs : List UInt8) : segments bs ≠ [] := by
  rcases bs with _ | ⟨b, bs⟩
  · simp [segments]
  · unfold segments
    split
    · simp
    · split <;> simp

theorem segments_of_not_mem {n : List UInt8} (h : slash ∉ n) : segments n = [n] := by
  induction n with
  | nil => rfl
  | cons b n ih =>
    rw [List.mem_cons, not_or] at h
    rw [segments, ih h.2]
    exact if_neg (Ne.symm h.1)

theorem segments_append_slash (bs cs : List UInt8) :
    segments (bs ++ slash :: cs) = segments bs ++ segments cs := by
  induction bs with
  | nil =>
    rcases h : segments cs with _ | ⟨s, ss⟩
    · exact absurd h (segments_ne_nil cs)
    · simp [segments, h]
  | cons b bs ih =>
    rcases h : segments bs with _ | ⟨s, ss⟩
    · exact absurd h (segments_ne_nil bs)
    · rw [List.cons_append, segments, ih, segments, h]
      by_cases hb : b = slash
      · simp [hb]
      · simp [hb]

/-- The parts of a path between slashes, as steps. -/
def walked (bs : List UInt8) : List Component :=
  (segments bs).filterMap component?

theorem walked_slash (bs : List UInt8) : walked (bs ++ [slash]) = walked bs := by
  rw [walked, segments_append_slash, List.filterMap_append, ← walked]
  exact List.append_nil _

theorem walked_name {n : Name} (hn : IsName n) : walked n = [.name n] := by
  rw [walked, segments_of_not_mem hn.1, List.filterMap_cons, hn.2]
  rfl

theorem walked_slash_name {n : Name} (hn : IsName n) (bs : List UInt8) :
    walked (bs ++ slash :: n) = walked bs ++ [.name n] := by
  rw [walked, segments_append_slash, List.filterMap_append, ← walked, ← walked, walked_name hn]

theorem steps_eq (p : Path) : p.steps = (if p.isAbsolute then [.root] else []) ++ walked p.bytes :=
  rfl

/-! ### A name in a directory -/

theorem isAbsolute_append {bs : List UInt8} (h : bs ≠ []) (cs : List UInt8) :
    isAbsolute ⟨bs ++ cs⟩ = isAbsolute ⟨bs⟩ := by
  obtain ⟨b, bs, rfl⟩ := List.exists_cons_of_ne_nil h
  rfl

theorem isAbsolute_of_not_mem {n : List UInt8} (h : slash ∉ n) : isAbsolute ⟨n⟩ = false := by
  cases n with
  | nil => rfl
  | cons b n =>
    rw [List.mem_cons, not_or] at h
    simpa [isAbsolute] using Ne.symm h.1

/-- **The path of a name in a directory** goes along the directory, and then the name. -/
theorem steps_child (dir : Path) {n : Name} (hn : IsName n) :
    (dir.child n).steps = dir.steps ++ [.name n] := by
  obtain ⟨bytes⟩ := dir
  unfold child
  split
  · next h =>
    rcases h with rfl | h
    · rw [List.nil_append, steps_eq, isAbsolute_of_not_mem hn.1, walked_name hn]
      rfl
    · have hlast : bytes.getLast? = some slash := by simpa [endsInSlash] using h
      obtain ⟨cs, rfl⟩ := List.getLast?_eq_some_iff.1 hlast
      have hne : cs ++ [slash] ≠ [] := by simp
      rw [steps_eq, steps_eq, isAbsolute_append hne, List.append_assoc, List.singleton_append,
        walked_slash_name hn, walked_slash, List.append_assoc]
  · next h =>
    rw [not_or] at h
    rw [steps_eq, steps_eq, isAbsolute_append h.1, walked_slash_name hn, List.append_assoc]

theorem endsInSlash_ofString {s : String} :
    (ofString s).endsInSlash = true ↔ s.toList.getLast? = some '/' := by
  rw [endsInSlash, beq_iff_eq, ofString, Text.encode]
  rcases List.eq_nil_or_concat s.toList with h | ⟨cs, c, h⟩
  · simp [h]
  · rw [h, List.concat_eq_append, List.flatMap_append, List.flatMap_singleton, List.getLast?_append,
      List.getLast?_eq_some_getLast String.utf8EncodeChar_ne_nil, Option.some_or, List.getLast?_concat]
    constructor
    · intro hlast
      have hmem : slash ∈ String.utf8EncodeChar c :=
        Option.some.inj hlast ▸ List.getLast_mem String.utf8EncodeChar_ne_nil
      rw [Text.mem_utf8EncodeChar_iff_eq (d := '/') (by decide) (by decide)] at hmem
      exact congrArg some hmem
    · intro hc
      obtain rfl := Option.some.inj hc
      decide

/-- The text of a directory's path with one more name, which has no slash. -/
def join (dir name : String) : String :=
  match dir.toList.getLast? with
  | none => name
  | some '/' => dir ++ name
  | some _ => dir ++ "/" ++ name

theorem ofString_join (dir name : String) :
    ofString (join dir name) = (ofString dir).child (Text.encode name) := by
  have hempty : (ofString dir).bytes = [] ↔ dir.toList = [] := by
    rw [ofString, String.toList_eq_nil_iff, ← Text.encode_inj]
    rfl
  unfold join child
  split
  · next h =>
    have hnil := hempty.2 (List.getLast?_eq_none_iff.1 h)
    rw [if_pos (Or.inl hnil), hnil]
    rfl
  · next h =>
    rw [if_pos (Or.inr (endsInSlash_ofString.2 h))]
    exact congrArg Path.mk (Text.encode_append dir name)
  · next c hc h =>
    have hslash : ¬ ((ofString dir).bytes = [] ∨ (ofString dir).endsInSlash = true) := by
      rw [hempty, endsInSlash_ofString, h]
      rintro (hnil | hlast)
      · simp [hnil] at h
      · exact hc (Option.some.inj hlast)
    rw [if_neg hslash, String.append_assoc]
    refine congrArg Path.mk ?_
    rw [Text.encode_append, Text.encode_append]
    rfl

theorem components_child (dir : Path) {n : Name} (hn : IsName n) :
    (dir.child n).components = dir.components ++ [.name n] := by
  rw [components, components, steps_child dir hn]
  cases dir.steps with
  | nil => rfl
  | cons c cs => exact congrArg (c :: ·) (List.filter_append _ _)

end Path

/-! ### Places -/

/-- The place that names lead to from a directory. -/
def Place.descend (p : Place) (names : List Name) : Place :=
  names.foldl child p

theorem Place.foldl_step_names (p : Place) (names : List Name) :
    (names.map Component.name).foldl step p = p.descend names :=
  List.foldl_map

theorem Place.names_descend (p : Place) (names : List Name) :
    (p.descend names).names = names.reverse ++ p.names := by
  induction names generalizing p with
  | nil => rfl
  | cons n names ih => exact (ih (p.child n)).trans (by simp [child])

theorem Place.ofSteps_append (cs ds : List Component) :
    ofSteps (cs ++ ds) = ds.foldl step (ofSteps cs) :=
  List.foldl_append

namespace Path

theorem place_child (dir : Path) {n : Name} (hn : IsName n) :
    (dir.child n).place = dir.place.child n := by
  rw [place, steps_child dir hn, Place.ofSteps_append]
  rfl

/-- Without its dots a path leads to the same place. -/
theorem place_components (p : Path) : Place.ofSteps p.components = p.place := by
  have hdots (cs : List Component) (q : Place) :
      (cs.filter (· != .here)).foldl Place.step q = cs.foldl Place.step q := by
    induction cs generalizing q with
    | nil => rfl
    | cons c cs ih =>
      rw [List.filter_cons]
      split
      · exact ih _
      · next hc =>
        obtain rfl : c = .here := by simpa using hc
        exact ih _
  rw [place, components]
  split
  · next h => rw [h]
  · next c cs h => rw [h]; exact hdots cs _

/-! ### Paths of names -/

/-- The path is relative and goes along names only. -/
def IsPlain (p : Path) : Prop :=
  ∃ names : List Name, p.steps = names.map .name

theorem components_of_names {p : Path} {names : List Name} (h : p.steps = names.map .name) :
    p.components = names.map .name := by
  rw [components, h]
  cases names with
  | nil => rfl
  | cons n names =>
    have hnames : (names.map Component.name).filter (· != .here) = names.map .name :=
      List.filter_eq_self.2 fun c hc => by
        obtain ⟨m, -, rfl⟩ := List.mem_map.1 hc
        rfl
    exact congrArg (Component.name n :: ·) hnames

theorem place_of_names {p : Path} {names : List Name} (h : p.steps = names.map .name) :
    p.place = Place.working.descend names := by
  rw [place, h, Place.ofSteps, Place.foldl_step_names]

end Path

end KnownIssues
