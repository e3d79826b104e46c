import ChangeImpact.Coverage.Gap
import ChangeImpact.Text.Lowercase
import ChangeImpact.Word

/-!
# The risk of a commit
-/

namespace ChangeImpact

/-- Points for a gap. -/
def gapPoints : Coverage.RiskLevel → Nat
  | .high => 15
  | .medium => 8
  | .low => 3

/-- Whether a path looks like code that many others use. -/
def isSharedPath (path : String) : Bool :=
  let lower := Text.lowercase path
  Text.hasInfix "util" lower || Text.hasInfix "common" lower

/-- Changed files and methods, impacted methods, missing tests, shared code and gaps, summed up. -/
def commitRisk (paths : List String) (changed impacted tests : Nat)
    (gaps : List Coverage.RiskLevel) : Nat :=
  min maxWord32 <|
    paths.length + changed * 2 + impacted * 3
      + (if tests = 0 then 10 else 0)
      + (if paths.any isSharedPath then 5 else 0)
      + gaps.foldr (gapPoints · + ·) 0

end ChangeImpact
