import KnownIssues.Source

/-!
# Diagnostics

A live diagnostic of the compiler: its id, the span it is shown at, and the source text it was found
in, as the compiler sees that text now.  Lines and columns are words of 64 bits and count from 0.
The span whose four coordinates are 0 stands for the whole file.
-/

namespace KnownIssues

/-- A place in a text. -/
structure Position where
  line : UInt64
  column : UInt64
  deriving DecidableEq, Repr

/-- The order of two places: by line, then by column. -/
def Position.compare (p q : Position) : Ordering :=
  (Ord.compare p.line q.line).then (Ord.compare p.column q.column)

/-- From `start` to `stop`. -/
structure Span where
  start : Position
  stop : Position
  deriving DecidableEq, Repr

namespace Span

/-- The span that stands for the whole file. -/
def file : Span :=
  ⟨⟨0, 0⟩, ⟨0, 0⟩⟩

/-- The span stands for the whole file. -/
def isFileLevel (s : Span) : Bool :=
  s == file

end Span

/-- A live diagnostic. -/
structure Diagnostic where
  id : String
  span : Span
  source : Source
  deriving DecidableEq, Repr

namespace Diagnostic

/-- The diagnostic is about the file as a whole. -/
def isFileLevel (d : Diagnostic) : Bool :=
  d.span.isFileLevel

/-- The line on which the diagnostic starts. -/
def startLine (d : Diagnostic) : UInt64 :=
  d.span.start.line

/-- The number of the line on which the diagnostic ends. -/
def endLine (d : Diagnostic) : Nat :=
  d.span.stop.line.toNat

/-- The text of the line on which the diagnostic ends, if the source has that line. -/
def endLineText? (d : Diagnostic) : Option String :=
  d.source.line? d.endLine

end Diagnostic

end KnownIssues
