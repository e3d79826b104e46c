/-!
# Classes of characters as lists of ranges

A class of characters is a list of closed ranges of code points in ascending order.
`inRanges` asks whether a character lies in one of them.
-/

namespace ChangeImpact.Text

/-- Whether the character lies in one of the closed ranges. -/
def inRanges (ranges : List (Nat × Nat)) (c : Char) : Bool :=
  ranges.any fun (lo, hi) => lo ≤ c.toNat && c.toNat ≤ hi

end ChangeImpact.Text
