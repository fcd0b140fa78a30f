import KnownIssues.Proofs.Digest.Recurrence
import KnownIssues.Proofs.Matching

/-! # The form of fingerprints

A fingerprint is the digest of the visible characters of a line in thirty-two lower-case hexadecimal
digits (`toList_fingerprint`, `isFingerprintForm_fingerprint`).  A hash of another form is the
fingerprint of no line, so issues with such hashes match by the line that they start on, or not at all
(`isSettled_of_not_form`). -/

namespace KnownIssues

namespace Text

/-! ### Visible characters -/

/-- The code points of the blanks, one by one. -/
def blanks : List ℕ :=
  [0x09, 0x0A, 0x0B, 0x0C, 0x0D, 0x20, 0x85, 0xA0, 0x1680, 0x2000, 0x2001, 0x2002, 0x2003, 0x2004,
    0x2005, 0x2006, 0x2007, 0x2008, 0x2009, 0x200A, 0x2028, 0x2029, 0x202F, 0x205F, 0x3000]

/-- The characters of a text that are not blank, in order. -/
def visible (s : String) : List Char :=
  s.toList.filter (·.toNat ∉ blanks)

theorem isBlank_iff {c : Char} : isBlank c = true ↔ c.toNat ∈ blanks := by
  simp only [isBlank, blankRanges, blanks, List.any_cons, List.any_nil, Bool.or_eq_true,
    Bool.and_eq_true, Bool.false_eq_true, decide_eq_true_eq, List.mem_cons,
    List.not_mem_nil, or_false]
  omega

theorem withoutBlanks_eq (s : String) : withoutBlanks s = .ofList (visible s) := by
  rw [withoutBlanks, visible]
  congr 2
  funext c
  rw [Bool.eq_iff_iff, Bool.not_eq_true', ← Bool.not_eq_true, isBlank_iff, decide_eq_true_iff]

namespace Hex

/-! ### Digits -/

/-- The lower-case digits. -/
def lowerDigits : List Char :=
  ['0', '1', '2', '3', '4', '5', '6', '7', '8', '9', 'a', 'b', 'c', 'd', 'e', 'f']

/-- Two digits for each byte, the one of the higher half in front. -/
def digitsOf (bytes : List UInt8) : List Char :=
  bytes.flatMap fun b => [lowerDigits.getD (b.toNat / 16) '0', lowerDigits.getD (b.toNat % 16) '0']

theorem digitChar_eq : ∀ n < 16, Nat.digitChar n = lowerDigits.getD n '0' := by
  decide

theorem lowerDigits_mem : ∀ n < 16, lowerDigits.getD n '0' ∈ lowerDigits := by
  decide

theorem flatMap_lower (bytes : List UInt8) : bytes.flatMap lower = digitsOf bytes := by
  rw [digitsOf]
  congr 1
  funext b
  have hb := b.toNat_lt
  rw [lower, digitChar_eq (b.toNat / 16) (by omega), digitChar_eq (b.toNat % 16) (by omega)]

theorem length_digitsOf (bytes : List UInt8) : (digitsOf bytes).length = 2 * bytes.length := by
  induction bytes with
  | nil => rfl
  | cons b bytes ih =>
    have hcons : digitsOf (b :: bytes) = lowerDigits.getD (b.toNat / 16) '0'
        :: lowerDigits.getD (b.toNat % 16) '0' :: digitsOf bytes := rfl
    rw [hcons, List.length_cons, List.length_cons, ih, List.length_cons]
    omega

theorem mem_digitsOf {bytes : List UInt8} {c : Char} (h : c ∈ digitsOf bytes) :
    c ∈ lowerDigits := by
  obtain ⟨b, -, hc⟩ := List.mem_flatMap.1 h
  have hb := b.toNat_lt
  rcases List.mem_cons.1 hc with rfl | hc
  · exact lowerDigits_mem _ (by omega)
  · rw [List.mem_singleton.1 hc]
    exact lowerDigits_mem _ (by omega)

end Hex

end Text

open Text (visible foldCase)
open Text.Hex (lowerDigits digitsOf)

/-! ### Fingerprints -/

/-- Thirty-two lower-case digits. -/
def IsFingerprintForm (h : String) : Prop :=
  h.length = 32 ∧ ∀ c ∈ h.toList, c ∈ lowerDigits

instance (h : String) : Decidable (IsFingerprintForm h) :=
  @instDecidableAnd _ _ _ (List.decidableBAll _ h.toList)

theorem toList_fingerprint (s : String) :
    (fingerprint s).toList = digitsOf (Digest.Md5.digest (Text.encode (.ofList (visible s)))) := by
  rw [fingerprint, String.toList_ofList, Digest.Md5.hexDigest, Text.Hex.flatMap_lower,
    Text.withoutBlanks_eq]

theorem isFingerprintForm_fingerprint (s : String) : IsFingerprintForm (fingerprint s) := by
  constructor
  · rw [← String.length_toList, toList_fingerprint, Text.Hex.length_digitsOf,
      Digest.Md5.length_digest]
  · intro c hc
    rw [toList_fingerprint] at hc
    exact Text.Hex.mem_digitsOf hc

/-- **Issues without fingerprints** match by the line that they start on. -/
theorem isSettled_of_not_form {issues : List Issue} {d : Diagnostic}
    (hd : d.span ≠ ⟨⟨0, 0⟩, ⟨0, 0⟩⟩) (hlt : d.endLine < d.source.lineCount)
    (hform : ∀ i ∈ issues, ¬ IsFingerprintForm i.hash) :
    isSettled issues d = .ok (decide (∃ i ∈ issues, foldCase i.rule = foldCase d.id ∧
      ∃ r, i.range = some r ∧ r.first = d.span.start.line)) := by
  have hrange : d.isFileLevel = false := Bool.eq_false_iff.2 fun h => hd (isFileLevel_iff.1 h)
  obtain ⟨line, hline⟩ := Option.ne_none_iff_exists'.1 fun h =>
    absurd (Source.line?_eq_none_iff.1 h) (Nat.not_le.2 hlt)
  have hhash : ∀ i ∈ issues, fingerprint line ≠ i.hash := by
    intro i hi h
    exact hform i hi (h ▸ isFingerprintForm_fingerprint line)
  rw [isSettled, verdict_judge_of_line fingerprint issues hrange hline]
  congr 1
  rw [Bool.eq_iff_iff, List.any_eq_true, decide_eq_true_iff]
  constructor
  · rintro ⟨i, hi, hmatch⟩
    obtain ⟨hmem, hrule⟩ := List.mem_filter.1 hi
    have hstart : i.startsAt d.startLine = true := by
      simpa [hhash i hmem] using hmatch
    exact ⟨i, hmem, (Text.sameIgnoringCase_iff.1 hrule).symm, startsAt_iff.1 hstart⟩
  · rintro ⟨i, hmem, hrule, hstart⟩
    have hconcerns : i.concerns d = true := Text.sameIgnoringCase_iff.2 hrule.symm
    have hat : i.startsAt d.startLine = true := startsAt_iff.2 hstart
    exact ⟨i, List.mem_filter.2 ⟨hmem, hconcerns⟩, by rw [hat]; rfl⟩

/-- **The form of fingerprints.**  A fingerprint is the one digest that the visible characters of the line
have, in digits: two for each of its sixteen bytes, so thirty-two in all.  Lines with the same visible
characters have the same one.  And if no hash among the issues has that form, a diagnostic that ends in its
source is settled just by the issues of its rule that start on its line. -/
theorem fingerprint_form :
    (∀ s, ∃ bytes, (∀ out, Digest.Md5.IsDigest (Text.encode (.ofList (visible s))) out ↔ out = bytes) ∧
      bytes.length = 16 ∧ (fingerprint s).toList = digitsOf bytes ∧
      (fingerprint s).length = 32 ∧ ∀ c ∈ (fingerprint s).toList, c ∈ lowerDigits) ∧
    (∀ s t, visible s = visible t → fingerprint s = fingerprint t) ∧
    ∀ (d : Diagnostic) (issues : List Issue), d.span ≠ ⟨⟨0, 0⟩, ⟨0, 0⟩⟩ →
      d.endLine < d.source.lineCount → (∀ i ∈ issues, ¬ IsFingerprintForm i.hash) →
        isSettled issues d = .ok (decide (∃ i ∈ issues, foldCase i.rule = foldCase d.id ∧
          ∃ r, i.range = some r ∧ r.first = d.span.start.line)) := by
  refine ⟨fun s => ?_, fun s t h => ?_, fun d issues => isSettled_of_not_form⟩
  · obtain ⟨hlength, hdigits⟩ := isFingerprintForm_fingerprint s
    exact ⟨_, fun out => Digest.Md5.isDigest_iff, Digest.Md5.length_digest _, toList_fingerprint s,
      hlength, hdigits⟩
  · refine fingerprint_eq_of_withoutBlanks ?_
    rw [Text.withoutBlanks_eq, Text.withoutBlanks_eq, h]

/-- Blanks of one, two and three bytes in a line; a hash with capital letters and one that is a digit short,
to which the fingerprint of the line is compared in vain. -/
theorem fingerprint_form_capitals :
    let line := "\u3000a\tb\u00A0c"
    let d : Diagnostic := ⟨"S1", ⟨⟨1, 0⟩, ⟨1, 5⟩⟩, ⟨"x\r\n" ++ line⟩⟩
    let issues : List Issue := [⟨"s1", some ⟨0, 1⟩, "900150983CD24FB0D6963F7D28E17F72"⟩,
      ⟨"S1", none, "900150983cd24fb0d6963f7d28e17f7"⟩]
    fingerprint line = fingerprint "abc" ∧ (fingerprint line).length = 32 ∧
      (∀ i ∈ issues, ¬ IsFingerprintForm i.hash) ∧ isSettled issues d = .ok false ∧
      isSettled (issues ++ [⟨"s1", some ⟨1, 7⟩, ""⟩]) d = .ok true := by
  intro line d issues
  obtain ⟨hform, hsame, hsettled⟩ := fingerprint_form
  obtain ⟨bytes, -, -, -, hlength, -⟩ := hform line
  have hissues : ∀ i ∈ issues ++ [⟨"s1", some ⟨1, 7⟩, ""⟩], ¬ IsFingerprintForm i.hash := by
    decide +kernel
  have hfew : ∀ i ∈ issues, ¬ IsFingerprintForm i.hash := fun i hi =>
    hissues i (List.mem_append_left _ hi)
  have hspan : d.span ≠ ⟨⟨0, 0⟩, ⟨0, 0⟩⟩ := by decide
  have hlt : d.endLine < d.source.lineCount := by decide +kernel
  exact ⟨hsame _ _ (by decide +kernel), hlength, hfew,
    (hsettled d issues hspan hlt hfew).trans (congrArg Except.ok (by decide +kernel)),
    (hsettled d _ hspan hlt hissues).trans (congrArg Except.ok (by decide +kernel))⟩

end KnownIssues
