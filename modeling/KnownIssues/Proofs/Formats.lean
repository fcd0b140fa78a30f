import KnownIssues.Issue.Format
import KnownIssues.KeyLookup
import KnownIssues.Proofs.Json.RoundTrip
import KnownIssues.Registry

/-! # What is written is read back

Ranges, issues, files of issues and the two configurations are records of texts, words and lists, so
each of them is read back once its members fill the draft.  An issue without a range is written
without that member, and is read back without one.  Nothing is lost in any of the five written forms
(`lossless_formats`). -/

namespace KnownIssues

open Json Shape

theorem LineRange.readsBack_format : format.ReadsBack := by
  refine readsBack_record fun {style} hs level r => ?_
  have hword (n : UInt64) := readsBack_word.takes hs (level + 1) n
  exact ⟨⟨some r.first, some r.last⟩,
    .cons rfl rfl (hword r.first) (.cons rfl rfl (hword r.last) (.nil _)), rfl⟩

theorem Issue.readsBack_format : format.ReadsBack := by
  refine readsBack_record fun {style} hs level i => ?_
  obtain ⟨rule, range, hash⟩ := i
  have htext (s : String) := readsBack_text.takes hs (level + 1) s
  rcases range with _ | r
  · exact ⟨⟨some rule, none, some hash⟩,
      .cons rfl rfl (htext rule) (.cons rfl rfl (htext hash) (.nil _)), rfl⟩
  · have hrange := (LineRange.readsBack_format.takes hs (level + 1) r).orNull
      (LineRange.readsBack_format.starts style (level + 1) r)
    exact ⟨⟨some rule, some (some r), some hash⟩,
      .cons rfl rfl (htext rule) (.cons rfl rfl hrange (.cons rfl rfl (htext hash) (.nil _))), rfl⟩

theorem IssueFile.readsBack_format : format.ReadsBack := by
  refine readsBack_record fun {style} hs level file => ?_
  have hlist := (readsBack_list Issue.readsBack_format).takes hs (level + 1) file.issues
  exact ⟨⟨some file.issues⟩, .cons rfl rfl hlist (.nil _), rfl⟩

theorem KeyLookup.readsBack_format : format.ReadsBack := by
  refine readsBack_record fun {style} hs level l => ?_
  have htext (s : String) := readsBack_text.takes hs (level + 1) s
  exact ⟨⟨some l.option, some l.marker, some l.root⟩,
    .cons rfl rfl (htext l.option)
      (.cons rfl rfl (htext l.marker) (.cons rfl rfl (htext l.root) (.nil _))), rfl⟩

theorem RegistryConfig.readsBack_format : format.ReadsBack := by
  refine readsBack_record fun {style} hs level c => ?_
  have htext := readsBack_text.takes hs (level + 1) c.justification
  exact ⟨⟨some c.justification⟩, .cons rfl rfl htext (.nil _), rfl⟩

/-- **Nothing is lost in writing**, in either style: every value of the five kinds is read back from
its text.  What an issue without a range leaves out of its text is the range. -/
theorem lossless_formats :
    LineRange.format.Lossless ∧ Issue.format.Lossless ∧ IssueFile.format.Lossless ∧
      KeyLookup.format.Lossless ∧ RegistryConfig.format.Lossless ∧
      ∀ style level rule hash,
        Issue.format.write style level ⟨rule, none, hash⟩
          = style.object level [("ruleId", quote rule), ("hash", quote hash)] :=
  ⟨LineRange.readsBack_format.lossless, Issue.readsBack_format.lossless,
    IssueFile.readsBack_format.lossless, KeyLookup.readsBack_format.lossless,
    RegistryConfig.readsBack_format.lossless, fun _ _ _ _ => rfl⟩

end KnownIssues
