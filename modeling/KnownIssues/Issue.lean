/-!
# Issues

An issue that the server has settled: the rule that found it, the lines it was found on, and the
fingerprint of its line at that time.  An issue without lines is about its file as a whole.
-/

namespace KnownIssues

/-- From line `first` to line `last`, both counted from 0. -/
structure LineRange where
  first : UInt64
  last : UInt64
  deriving DecidableEq, Repr

/-- An issue that the server has settled. -/
structure Issue where
  rule : String
  range : Option LineRange
  hash : String
  deriving DecidableEq, Repr

namespace Issue

/-- The issue is about the file as a whole. -/
def isFileLevel (i : Issue) : Bool :=
  i.range.isNone

/-- The issue was found from line `n` on. -/
def startsAt (i : Issue) (n : UInt64) : Bool :=
  i.range.any (·.first == n)

end Issue

end KnownIssues
