import KnownIssues.Proofs.Path

/-! # The parent of a path

A list of components that a path can have (`WellFormed`) is spelled as a path and read back as it is
(`components_ofComponents`).  So the components of a path's parent are those of the path without the last
one (`components_parent`), whatever slashes and dots the path has. -/

namespace KnownIssues.Path

/-- What the components of a path are like: its names can be told from the rest, and the root or a dot can only
be the first of them. -/
structure WellFormed (cs : List Component) : Prop where
  isName : ∀ n, .name n ∈ cs → IsName n
  behind : ∀ c ∈ cs.tail, c ≠ .root ∧ c ≠ .here

/-! ### Components of paths are well-formed -/

theorem slash_not_mem_segments {bs s : List UInt8} (h : s ∈ segments bs) : slash ∉ s := by
  induction bs generalizing s with
  | nil =>
    obtain rfl := List.mem_singleton.1 h
    exact List.not_mem_nil
  | cons b bs ih =>
    obtain ⟨t, ts, hts⟩ := List.exists_cons_of_ne_nil (segments_ne_nil bs)
    rw [segments, hts] at h
    rw [hts] at ih
    dsimp only at h
    split at h
    · rcases List.mem_cons.1 h with rfl | h
      · exact List.not_mem_nil
      · exact ih h
    · next hb =>
      rcases List.mem_cons.1 h with rfl | h
      · rw [List.mem_cons, not_or]
        exact ⟨Ne.symm hb, ih (List.mem_cons_self ..)⟩
      · exact ih (List.mem_cons_of_mem _ h)

theorem component?_eq_name {s : List UInt8} {n : Name} (h : component? s = some (.name n)) :
    s = n := by
  unfold component? at h
  split at h
  · cases h
  · split at h
    · cases h
    · split at h
      · cases h
      · cases h
        rfl

theorem component?_ne_root (s : List UInt8) : component? s ≠ some .root := by
  unfold component?
  split
  · simp
  · split
    · simp
    · split <;> simp

theorem root_not_mem_walked (bs : List UInt8) : .root ∉ walked bs := by
  intro h
  obtain ⟨s, -, hs⟩ := List.mem_filterMap.1 h
  exact component?_ne_root s hs

theorem isName_of_mem_walked {bs : List UInt8} {n : Name} (h : .name n ∈ walked bs) : IsName n := by
  obtain ⟨s, hmem, hs⟩ := List.mem_filterMap.1 h
  obtain rfl := component?_eq_name hs
  exact ⟨slash_not_mem_segments hmem, hs⟩

theorem mem_steps_of_mem_components {p : Path} {c : Component} (h : c ∈ p.components) :
    c ∈ p.steps := by
  unfold components at h
  split at h
  · cases h
  · next first rest hsteps =>
    rw [hsteps]
    rcases List.mem_cons.1 h with rfl | h
    · exact List.mem_cons_self ..
    · exact List.mem_cons_of_mem _ (List.mem_filter.1 h).1

/-- **The components of a path are well-formed.** -/
theorem wellFormed_components (p : Path) : WellFormed p.components where
  isName n hn := by
    have hmem := mem_steps_of_mem_components hn
    rw [steps_eq] at hmem
    rcases List.mem_append.1 hmem with h | h
    · split at h <;> simp at h
    · exact isName_of_mem_walked h
  behind c hc := by
    have hroot : .root ∉ p.steps.tail := by
      rw [steps_eq]
      split
      · exact root_not_mem_walked _
      · exact fun h => root_not_mem_walked _ (List.mem_of_mem_tail h)
    unfold components at hc
    split at hc
    · cases hc
    · next first rest hsteps =>
      rw [hsteps] at hroot
      obtain ⟨hmem, hhere⟩ := List.mem_filter.1 hc
      refine ⟨?_, by simpa using hhere⟩
      rintro rfl
      exact hroot hmem

theorem WellFormed.dropLast {cs : List Component} (h : WellFormed cs) : WellFormed cs.dropLast where
  isName n hn := h.isName n (List.dropLast_subset _ hn)
  behind c hc := by
    rw [List.tail_dropLast] at hc
    exact h.behind c (List.dropLast_subset _ hc)

/-! ### Well-formed components come back -/

theorem component?_segment {c : Component} (hroot : c ≠ .root) (hname : ∀ n, c = .name n → IsName n) :
    component? c.segment = some c := by
  cases c with
  | root => exact absurd rfl hroot
  | here => rfl
  | up => rfl
  | name n => exact (hname n rfl).2

theorem slash_not_mem_segment {c : Component} (hname : ∀ n, c = .name n → IsName n) :
    slash ∉ c.segment := by
  cases c with
  | root => exact List.not_mem_nil
  | here => decide
  | up => decide
  | name n => exact (hname n rfl).1

theorem segments_intercalate {s : List UInt8} {ss : List (List UInt8)}
    (h : ∀ t ∈ s :: ss, slash ∉ t) : segments ([slash].intercalate (s :: ss)) = s :: ss := by
  induction ss generalizing s with
  | nil =>
    rw [List.intercalate_singleton, segments_of_not_mem (h s (List.mem_cons_self ..))]
  | cons t ss ih =>
    rw [List.forall_mem_cons] at h
    rw [List.intercalate_cons_cons, List.append_assoc, List.singleton_append,
      segments_append_slash, segments_of_not_mem h.1, ih h.2, List.singleton_append]

theorem walked_cons_slash (bs : List UInt8) : walked (slash :: bs) = walked bs := by
  rw [walked, ← List.nil_append (slash :: bs), segments_append_slash, List.filterMap_append, ← walked]
  rfl

theorem filterMap_segment {cs : List Component}
    (h : ∀ c ∈ cs, component? c.segment = some c) :
    (cs.map Component.segment).filterMap component? = cs := by
  induction cs with
  | nil => rfl
  | cons c cs ih =>
    rw [List.forall_mem_cons] at h
    rw [List.map_cons, List.filterMap_cons_some h.1, ih h.2]

theorem walked_intercalate {cs : List Component} (hroot : .root ∉ cs)
    (hname : ∀ n, .name n ∈ cs → IsName n) :
    walked ([slash].intercalate (cs.map Component.segment)) = cs := by
  have hspelled {c : Component} (hc : c ∈ cs) : ∀ n, c = .name n → IsName n := by
    rintro n rfl
    exact hname n hc
  cases cs with
  | nil => rfl
  | cons c cs =>
    have hslash : ∀ t ∈ (c :: cs).map Component.segment, slash ∉ t := by
      intro t ht
      obtain ⟨d, hd, rfl⟩ := List.mem_map.1 ht
      exact slash_not_mem_segment (hspelled hd)
    have hread : ∀ d ∈ c :: cs, component? d.segment = some d := fun d hd =>
      component?_segment (fun h => hroot (h ▸ hd)) (hspelled hd)
    rw [List.map_cons] at hslash
    rw [walked, List.map_cons, segments_intercalate hslash, ← List.map_cons, filterMap_segment hread]

theorem components_of_steps {p : Path} {cs : List Component} (hsteps : p.steps = cs)
    (h : WellFormed cs) : p.components = cs := by
  unfold components
  rw [hsteps]
  cases cs with
  | nil => rfl
  | cons c cs =>
    have hfilter : cs.filter (· != .here) = cs :=
      List.filter_eq_self.2 fun d hd => by simpa using (h.behind d hd).2
    exact congrArg (c :: ·) hfilter

theorem isAbsolute_segment {c : Component} (bs : List UInt8) (hroot : c ≠ .root)
    (hname : ∀ n, c = .name n → IsName n) : isAbsolute ⟨c.segment ++ bs⟩ = false := by
  have hne : c.segment ≠ [] := by
    intro h
    have hread := component?_segment hroot hname
    rw [h] at hread
    cases hread
  rw [isAbsolute_append hne, isAbsolute_of_not_mem (slash_not_mem_segment hname)]

theorem steps_ofComponents_root {c : Component} {cs : List Component}
    (h : WellFormed (.root :: c :: cs)) :
    (ofComponents (.root :: c :: cs)).steps = .root :: c :: cs := by
  have hwalked : walked ([slash].intercalate ((c :: cs).map Component.segment)) = c :: cs :=
    walked_intercalate (fun hmem => (h.behind _ hmem).1 rfl)
      fun n hn => h.isName n (List.mem_cons_of_mem _ hn)
  have hbytes : (ofComponents (.root :: c :: cs)).bytes
      = slash :: [slash].intercalate ((c :: cs).map Component.segment) :=
    List.intercalate_cons_cons
  rw [steps_eq, isAbsolute, hbytes, walked_cons_slash, hwalked]
  rfl

theorem steps_ofComponents_relative {c : Component} {cs : List Component} (hc : c ≠ .root)
    (h : WellFormed (c :: cs)) : (ofComponents (c :: cs)).steps = c :: cs := by
  have hspelled : ofComponents (c :: cs)
      = ⟨[slash].intercalate ((c :: cs).map Component.segment)⟩ := by
    cases c with
    | root => exact absurd rfl hc
    | here => rfl
    | up => rfl
    | name n => rfl
  have hwalked : walked ([slash].intercalate ((c :: cs).map Component.segment)) = c :: cs := by
    refine walked_intercalate (fun hmem => ?_) h.isName
    rcases List.mem_cons.1 hmem with rfl | hmem
    · exact hc rfl
    · exact (h.behind _ hmem).1 rfl
  have hname : ∀ n, c = .name n → IsName n := by
    rintro n rfl
    exact h.isName n (List.mem_cons_self ..)
  have hrelative : isAbsolute ⟨[slash].intercalate ((c :: cs).map Component.segment)⟩ = false := by
    cases cs with
    | nil => simpa using isAbsolute_segment [] hc hname
    | cons d cs =>
      rw [List.map_cons, List.map_cons, List.intercalate_cons_cons, List.append_assoc]
      exact isAbsolute_segment _ hc hname
  rw [hspelled, steps_eq, hrelative, hwalked]
  rfl

/-- **Well-formed components come back** from the path that they spell. -/
theorem components_ofComponents {cs : List Component} (h : WellFormed cs) :
    (ofComponents cs).components = cs := by
  match cs with
  | [] => rfl
  | [.root] => rfl
  | .root :: c :: cs => exact components_of_steps (steps_ofComponents_root h) h
  | .here :: cs => exact components_of_steps (steps_ofComponents_relative (by decide) h) h
  | .up :: cs => exact components_of_steps (steps_ofComponents_relative (by decide) h) h
  | .name n :: cs => exact components_of_steps (steps_ofComponents_relative (nofun) h) h

/-- **The components of the parent** are those of the path without the last one. -/
theorem components_parent (p : Path) : p.parent.components = p.components.dropLast :=
  components_ofComponents (wellFormed_components p).dropLast

end KnownIssues.Path
