import KnownIssues.Proofs.CacheHistory
import KnownIssues.Proofs.FileName
import KnownIssues.Proofs.KeyLookup

/-! # One key for all the forms of a text

A text that is not blank has one core, which begins and ends with something else than blanks, and stands for
the key of that core.  Texts with the same core (`Text.SameCore`) differ in the blanks at their ends, and they
stand for the same key (`ProjectKey.ofString?_eq_iff`), so it does not matter which of them a project is named
by: in an option, as a directory (`KeyLookup.KeyText`) or in an action (`Session.AnswersTo`). -/

namespace KnownIssues

namespace Text

/-! ### The core of a text -/

/-- The text is the core with blanks at its ends. -/
def Padded (core text : String) : Prop :=
  ∃ left right : String, text = left ++ core ++ right ∧ AllBlank left.toList ∧ AllBlank right.toList

/-- The texts differ only in the blanks at their ends. -/
def SameCore (a b : String) : Prop :=
  ∃ core, Padded core a ∧ Padded core b

/-- The text begins and ends with a character that is not blank. -/
def Bare (text : String) : Prop :=
  (∃ c, text.toList.head? = some c ∧ isBlank c = false) ∧
    ∃ c, text.toList.getLast? = some c ∧ isBlank c = false

theorem AllBlank.append {cs ds : List Char} (hc : AllBlank cs) (hd : AllBlank ds) :
    AllBlank (cs ++ ds) := by
  intro c h
  rcases List.mem_append.1 h with h | h
  · exact hc c h
  · exact hd c h

theorem padded_iff_toList {core text : String} :
    Padded core text ↔ ∃ left right, text.toList = left ++ (core.toList ++ right) ∧
      AllBlank left ∧ AllBlank right := by
  constructor
  · rintro ⟨left, right, rfl, hl, hr⟩
    refine ⟨left.toList, right.toList, ?_, hl, hr⟩
    rw [String.toList_append, String.toList_append, List.append_assoc]
  · rintro ⟨left, right, htext, hl, hr⟩
    refine ⟨.ofList left, .ofList right, String.toList_inj.1 ?_, ?_, ?_⟩
    · rw [String.toList_append, String.toList_append, String.toList_ofList, String.toList_ofList,
        htext, List.append_assoc]
    · rwa [String.toList_ofList]
    · rwa [String.toList_ofList]

theorem padded_trim (text : String) : Padded (trim text) text := by
  rw [padded_iff_toList, toList_trim]
  exact exists_trimList text.toList

/-- **Blanks at the ends are not seen** once a text is trimmed, also if there are more of them behind. -/
theorem Padded.trim_eq {core text : String} (h : Padded core text) : trim text = trim core := by
  obtain ⟨left, right, htext, hl, hr⟩ := padded_iff_toList.1 h
  obtain ⟨left', right', hcore, hl', hr'⟩ := exists_trimList core.toList
  have hboth : text.toList = (left ++ left') ++ (trimList core.toList ++ (right' ++ right)) := by
    calc text.toList = left ++ (core.toList ++ right) := htext
      _ = left ++ ((left' ++ (trimList core.toList ++ right')) ++ right) := by rw [← hcore]
      _ = (left ++ left') ++ (trimList core.toList ++ (right' ++ right)) := by
        simp only [List.append_assoc]
  rw [trim, hboth, trimList_append (hl.append hl') (hr'.append hr) (trimmed_trimList _), ← trim]

theorem trim_eq_trim_iff {a b : String} : trim a = trim b ↔ SameCore a b := by
  constructor
  · intro h
    refine ⟨trim a, padded_trim a, ?_⟩
    rw [h]
    exact padded_trim b
  · rintro ⟨core, ha, hb⟩
    rw [ha.trim_eq, hb.trim_eq]

theorem Bare.trim_eq {text : String} (h : Bare text) : trim text = text := by
  obtain ⟨⟨first, hfirst, hfirst'⟩, last, hlast, hlast'⟩ := h
  have htrimmed : Trimmed text.toList := by
    constructor
    · intro c hc
      obtain rfl := Option.some.inj (hfirst.symm.trans hc)
      exact hfirst'
    · intro c hc
      obtain rfl := Option.some.inj (hlast.symm.trans hc)
      exact hlast'
  rw [trim, trimList_eq_self htrimmed, String.ofList_toList]

end Text

namespace ProjectKey

/-! ### The key of a text -/

theorem bare_text (k : ProjectKey) : Text.Bare k.text := by
  have hne : k.text.toList ≠ [] := fun h => k.nonempty (String.toList_eq_nil_iff.1 h)
  obtain ⟨hfirst, hlast⟩ := k.trimmed_toList
  constructor
  · have hhead := List.head?_eq_some_head hne
    exact ⟨_, hhead, hfirst _ hhead⟩
  · have hend := List.getLast?_eq_some_getLast hne
    exact ⟨_, hend, hlast _ hend⟩

/-- **The core is the key's text,** and there is no other. -/
theorem core_iff {text core : String} {k : ProjectKey} (hk : ofString? text = some k) :
    Text.Padded core text ∧ Text.Bare core ↔ core = k.text := by
  have htrim := ofString?_eq_some_iff.1 hk
  constructor
  · rintro ⟨hpad, hbare⟩
    rw [← htrim, hpad.trim_eq, hbare.trim_eq]
  · rintro rfl
    refine ⟨?_, k.bare_text⟩
    rw [← htrim]
    exact Text.padded_trim text

/-- **When two texts stand for the same.** -/
theorem ofString?_eq_iff {a b : String} : ofString? a = ofString? b ↔ Text.SameCore a b := by
  rw [← Text.trim_eq_trim_iff]
  constructor
  · intro h
    rcases hb : ofString? b with _ | k
    · rw [ofString?_eq_none_iff.1 hb, ofString?_eq_none_iff.1 (h.trans hb)]
    · rw [ofString?_eq_some_iff.1 hb, ofString?_eq_some_iff.1 (h.trans hb)]
  · intro h
    ext k
    rw [ofString?_eq_some_iff, ofString?_eq_some_iff, h]

theorem eq_iff_sameCore {a b : String} {j k : ProjectKey} (ha : ofString? a = some j)
    (hb : ofString? b = some k) : j = k ↔ Text.SameCore a b := by
  rw [← ofString?_eq_iff, ha, hb, Option.some.injEq]

theorem exists_of_not_blank {text : String} (h : ¬ Text.AllBlank text.toList) :
    ∃ k, ofString? text = some k := by
  rw [← ofString?_eq_none_iff_blank] at h
  exact Option.ne_none_iff_exists'.1 h

end ProjectKey

namespace KeyLookup

/-! ### The text for a key -/

/-- The text is the name of the directory behind the last root above the file. -/
def BelowRoot (l : KeyLookup) (p : Path) (text : String) : Prop :=
  ∃ before after,
    p.parent.components.filterMap Component.name?
      = before ++ Text.encode l.root :: Text.encode text :: after ∧
    Text.encode l.root ∉ Text.encode text :: after

/-- The text by which a compilation names its project: that of the option or, if this is missing or blank, the
name of a directory above a marker file, in front of which no file gives a key. -/
inductive KeyText (l : KeyLookup) (c : Compilation) (text : String) : Prop where
  | option : c.options.find? l.option = some text → KeyText l c text
  | directory {before : List Path} {p : Path} {after : List Path} :
    l.OptionBlank c → c.files = before ++ p :: after → (∀ q ∈ before, ∀ j, ¬ l.Yields q j) →
      l.IsMarkerFile p → l.BelowRoot p text → KeyText l c text

/-- **The key of a compilation** is that of its text. -/
theorem resolve?_eq_some_iff_keyText {l : KeyLookup} {c : Compilation} {k : ProjectKey} :
    l.resolve? c = some k ↔ ∃ text, l.KeyText c text ∧ ProjectKey.ofString? text = some k := by
  rw [resolve?, Option.or_eq_some_iff, keyOfOption?_eq_some_iff, keyOfOption?_eq_none_iff,
    findSome?_keyOfFile?_eq_some_iff]
  simp only [ProjectKey.ofString?_eq_some_iff_pads]
  constructor
  · rintro (⟨text, hoption, hpads⟩ | ⟨hblank, before, p, after, hfiles, hbefore, hp⟩)
    · exact ⟨text, .option hoption, hpads⟩
    · obtain ⟨front, dir, rest, hnames, hroot, hpads⟩ := hp.namesKey
      exact ⟨dir, .directory hblank hfiles hbefore hp.isMarkerFile ⟨front, rest, hnames, hroot⟩, hpads⟩
  · rintro ⟨text, hoption | ⟨hblank, hfiles, hbefore, hmarker, front, rest, hnames, hroot⟩, hpads⟩
    · exact Or.inl ⟨text, hoption, hpads⟩
    · exact Or.inr ⟨hblank, _, _, _, hfiles, hbefore, hmarker, front, text, rest, hnames, hroot, hpads⟩

end KeyLookup

/-! ### Projects named by texts -/

theorem Action.keyed_of_some {text : String} {k : ProjectKey} (h : ProjectKey.ofString? text = some k)
    (act : ProjectKey → Action) : keyed act text = act k := by
  rw [keyed, h]

namespace Session

/-- The session answers with this list whoever names a project by the text: in an action that asks for issues
or keeps them, or in the option or the directories of a compilation. -/
structure AnswersTo (s : Session) (text : String) (l : List Issue) : Prop where
  issues : (s.step (.keyed .issues text)).answer = .issues l
  hold : ∀ name, (s.step (.keyed (.hold · name) text)).session.held.find? name = some l
  report : ∀ c batch, s.lookup.KeyText c text →
    (s.step (.report c batch)).answer
      = .report ((givenSuppressor s.lookup s.registry l).report c batch ()).1

variable {s : Session} {a b : String} {j k : ProjectKey} {l : List Issue}

theorem HandsOut.answersTo (h : s.HandsOut k l) (hb : ProjectKey.ofString? b = some k) :
    s.AnswersTo b l where
  issues := by
    rw [Action.keyed_of_some hb]
    exact h.issues
  hold name := by
    rw [Action.keyed_of_some hb]
    exact h.hold name
  report c batch hc := h.report c batch (KeyLookup.resolve?_eq_some_iff_keyText.2 ⟨b, hc, hb⟩)

theorem handsOut_step_update (ha : ProjectKey.ofString? a = some j) (s : Session) (l : List Issue) :
    (s.step (.keyed (.update · l) a)).session.HandsOut j l := by
  rw [Action.keyed_of_some ha]
  exact handsOut_of_known? (known?_step_update s j l)

theorem handsOut_iff :
    s.HandsOut k l ↔ l = ((s.known? k).or (s.cache.store.map (·.listOn s.disk k))).getD [] := by
  have hout := handsOut_issues s k
  rw [IssueCache.issues_issues] at hout
  constructor
  · intro h
    exact Answer.issues.inj (h.issues.symm.trans hout.issues)
  · rintro rfl
    exact hout

/-- **Handing over the issues of one project** changes nothing for another. -/
theorem HandsOut.step_update_of_ne (h : s.HandsOut k l) (hjk : j ≠ k) (l' : List Issue) :
    (s.step (.update j l')).session.HandsOut k l := by
  have hsettles : ¬ (Action.update j l').Settles k := by
    rintro (⟨_, hupdate⟩ | hforgets)
    · exact hjk (Action.update.inj hupdate).1
    · exact hforgets
  have hknown : (s.step (.update j l')).session.known? k = s.known? k := by
    rw [known?_step s hsettles]
    rfl
  rw [handsOut_iff] at h ⊢
  rw [hknown]
  exact h

theorem eq_of_answersTo_update (ha : ProjectKey.ofString? a = some j)
    (hb : ProjectKey.ofString? b = some k)
    (h : ∀ (s : Session) l, (s.step (.keyed (.update · l) a)).session.AnswersTo b l) : j = k := by
  by_contra hjk
  have hempty : (start .default .empty none).HandsOut k [] := handsOut_iff.2 rfl
  have hnone := hempty.step_update_of_ne hjk [⟨"", none, ""⟩]
  have hone := (h (start .default .empty none) [⟨"", none, ""⟩]).issues
  rw [Action.keyed_of_some ha, Action.keyed_of_some hb, hnone.issues] at hone
  cases hone

end Session

namespace ProjectKey

/-- **There is one form for each key.**  A blank text stands for no key.  Any other text has just one core,
between blanks, that begins and ends with something else; it stands for the key with that text, and so does
the core.  Two such texts stand for the same key just if they differ only in the blanks at their ends.  Then it
does not matter by which of them a project is named, in whatever action or compilation: the path of its file is
the same, and so is what the cache holds for it.  Else the paths differ, and what is handed over under the one
changes nothing for the other. -/
theorem ofString?_canonical :
    (∀ text, ofString? text = none ↔ Text.AllBlank text.toList) ∧
    (∀ text, ¬ Text.AllBlank text.toList → ∃ k, ofString? text = some k ∧ ofString? k.text = some k ∧
      ∀ core, Text.Padded core text ∧ Text.Bare core ↔ core = k.text) ∧
    (∀ (l : KeyLookup) c k,
      l.resolve? c = some k ↔ ∃ text, l.KeyText c text ∧ ofString? text = some k) ∧
    ∀ a b, ¬ Text.AllBlank a.toList → ¬ Text.AllBlank b.toList →
      (ofString? a = ofString? b ↔ Text.SameCore a b) ∧
      (Text.SameCore a b →
        (∀ act, Action.keyed act a = Action.keyed act b) ∧
        (∀ (l : KeyLookup) c d, l.KeyText c a → l.KeyText d b → l.resolve? c = l.resolve? d)) ∧
      ∃ j k, ofString? a = some j ∧ ofString? b = some k ∧
        (∀ st : IssueStore, st.pathFor j = st.pathFor k ↔ Text.SameCore a b) ∧
        (Text.SameCore a b → ∀ (s : Session) l, s.HandsOut j l → s.AnswersTo b l) ∧
        ((∀ (s : Session) l, (s.step (.keyed (.update · l) a)).session.AnswersTo b l) ↔
          Text.SameCore a b) ∧
        (¬ Text.SameCore a b → ∀ (s : Session) l l', s.HandsOut k l →
          (s.step (.keyed (.update · l') a)).session.HandsOut k l) := by
  refine ⟨fun text => ofString?_eq_none_iff_blank, fun text htext => ?_,
    fun l c k => KeyLookup.resolve?_eq_some_iff_keyText, fun a b hna hnb => ?_⟩
  · obtain ⟨k, hk⟩ := exists_of_not_blank htext
    exact ⟨k, hk, ofString?_text k, fun core => core_iff hk⟩
  · obtain ⟨j, ha⟩ := exists_of_not_blank hna
    obtain ⟨k, hb⟩ := exists_of_not_blank hnb
    have hsame := eq_iff_sameCore ha hb
    refine ⟨ofString?_eq_iff, fun h => ?_, j, k, ha, hb, fun st => ?_, fun h s l hout => ?_, ?_,
      fun h s l l' hout => ?_⟩
    · obtain rfl := hsame.2 h
      constructor
      · intro act
        rw [Action.keyed_of_some ha, Action.keyed_of_some hb]
      · intro l c d hc hd
        rw [KeyLookup.resolve?_eq_some_iff_keyText.2 ⟨a, hc, ha⟩,
          KeyLookup.resolve?_eq_some_iff_keyText.2 ⟨b, hd, hb⟩]
    · rw [IssueStore.pathFor_inj, hsame]
    · obtain rfl := hsame.2 h
      exact hout.answersTo hb
    · rw [← hsame]
      constructor
      · exact Session.eq_of_answersTo_update ha hb
      · rintro rfl s l
        exact (Session.handsOut_step_update ha s l).answersTo hb
    · rw [Action.keyed_of_some ha]
      exact hout.step_update_of_ne (fun hjk => h (hsame.1 hjk)) l'

/-- A key with a blank in it, padded in an action, in an option and in the name of a directory. -/
theorem ofString?_canonical_padded :
    let a := " my key\t"
    let b := "my key\u3000"
    let l := KeyLookup.default
    let c : Compilation := ⟨.ofList [(l.option, a)], []⟩
    let p := Path.ofString ("/x/.sonarlint/" ++ b ++ "/VB/SonarLint.xml")
    let d : Compilation := ⟨.ofList [(l.option, "\u00a0")], [p]⟩
    ¬ Text.AllBlank a.toList ∧ ¬ Text.AllBlank b.toList ∧ Text.SameCore a b ∧
      ofString? a = ofString? b ∧ l.KeyText c a ∧ l.KeyText d b ∧ l.resolve? c = l.resolve? d ∧
      ∀ (s : Session) issues, (s.step (.keyed (.update · issues) a)).session.AnswersTo b issues := by
  intro a b l c p d
  obtain ⟨hblank, -, hresolve, htwo⟩ := ofString?_canonical
  have hna : ¬ Text.AllBlank a.toList := (hblank a).not.1 (by decide)
  have hnb : ¬ Text.AllBlank b.toList := (hblank b).not.1 (by decide)
  obtain ⟨heq, hsame, j, k, -, -, -, -, hupdate, -⟩ := htwo a b hna hnb
  have hab : ofString? a = ofString? b := by decide
  have hcore := heq.1 hab
  have hc : l.KeyText c a := .option (by decide)
  have hd : l.KeyText d b :=
    .directory (p := p) (KeyLookup.keyOfOption?_eq_none_iff.1 (by decide)) (List.nil_append _).symm
      (fun q hq => nomatch hq) (KeyLookup.isMarker_iff.1 (by decide +kernel))
      ⟨[Text.encode "x"], [Text.encode "VB"], by decide +kernel, by decide +kernel⟩
  exact ⟨hna, hnb, hcore, hab, hc, hd, (hsame hcore).2 l c d hc hd, hupdate.2 hcore⟩

end ProjectKey

end KnownIssues
