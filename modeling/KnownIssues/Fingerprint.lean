import KnownIssues.Digest.Md5
import KnownIssues.Text.Blank
import KnownIssues.Text.Utf8

/-!
# Fingerprints of lines

An issue remembers the line it was found on by a fingerprint: the MD5 digest of the line without
its blanks, in hexadecimal digits.  Two lines that differ in blanks only have the same fingerprint
(`fingerprint_eq_of_withoutBlanks`), so an edit that only indents a line does not lose its issues.
-/

namespace KnownIssues

/-- The fingerprint of a line. -/
def fingerprint (line : String) : String :=
  .ofList (Digest.Md5.hexDigest (Text.encode (Text.withoutBlanks line)))

theorem fingerprint_eq_of_withoutBlanks {l m : String}
    (h : Text.withoutBlanks l = Text.withoutBlanks m) : fingerprint l = fingerprint m := by
  rw [fingerprint, h, fingerprint]

end KnownIssues
