import ChangeImpact.CallGraph.Build

/-!
# Changed lines

A change is known by the lines it touches in the new text of each file. The methods whose lines
meet them are the changed methods.
-/

namespace ChangeImpact

/-- Lines `start` to `stop`, both included, counted from 1. -/
structure LineRange where
  start : Nat
  stop : Nat
deriving DecidableEq, Repr

/-- The lines of a hunk on the new side. A deletion stands for the line before it. Lines are
numbered by words of 32 bits, so the end of a hunk that goes beyond them wraps round. -/
def LineRange.ofHunk (start length : Nat) : LineRange :=
  let start := max start 1
  ⟨start, if length = 0 then start else (start + length - 1) % 4294967296⟩

/-- Whether a span and a range have a line in common. -/
def MethodSpan.overlaps (s : MethodSpan) (r : LineRange) : Bool :=
  s.startLine ≤ r.stop && r.start ≤ s.endLine

/-- The changed lines of a file. -/
structure LineChanges where
  path : String
  ranges : List LineRange
deriving DecidableEq, Repr

/-- The changed lines recorded for a path; the last entry counts. -/
def LineChanges.lookup (changes : List LineChanges) (path : String) : Option LineChanges :=
  changes.reverse.find? (·.path == path)

/-- Whether the change touches the span. -/
def MethodSpan.touchedBy (s : MethodSpan) (changes : List LineChanges) : Bool :=
  (LineChanges.lookup changes s.file).any fun c => c.ranges.any s.overlaps

/-- The methods that a change touches, ascending. -/
def Build.changedMethods (b : Build) (changes : List LineChanges) : List Method :=
  sortedSet ((b.spans.filter (·.touchedBy changes)).map (·.method))

end ChangeImpact
