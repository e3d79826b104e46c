import ChangeImpact.CallGraph.Callers
import ChangeImpact.Coverage.Risk

/-!
# Coverage gaps

A business method that a change touches or reaches, and that no test reaches, is a gap.

* `relatedTests` — the tests among the callers of a method;
* `analyze` — the gaps of a change, most urgent first, and their counts.
-/

namespace ChangeImpact.Coverage

/-- A business method that no test reaches. -/
structure Gap where
  method : Method
  riskLevel : RiskLevel
  riskScore : Nat
  /-- Direct callers, ascending. -/
  callers : List Method
  reason : String
deriving DecidableEq, Repr

/-- Coverage of the business methods of one change. -/
structure Stats where
  business : Nat
  covered : Nat
  highGaps : Nat
  mediumGaps : Nat
  lowGaps : Nat
deriving DecidableEq, Repr

/-- All gaps. -/
def Stats.gapCount (s : Stats) : Nat :=
  s.highGaps + s.mediumGaps + s.lowGaps

/-- Covered methods over business methods; 1 when there are none. -/
def Stats.rate (s : Stats) : Float :=
  if s.business = 0 then 1 else s.covered.toFloat / s.business.toFloat

/-- The tests that call a method, directly or through others, within the depth. -/
def relatedTests (g : CallGraph) (tests : List Method) (depth : Option Nat) (m : Method) :
    List Method :=
  (g.transitiveCallers [m] (depth.getD CallGraph.unbounded)).filter tests.contains

/-- The gap that a method without tests is. -/
def gapOf (g : CallGraph) (m : Method) : Gap :=
  let callers := sortedSet (g.callers m)
  let score := riskScore m callers.length
  { method := m
    riskLevel := .ofScore score
    riskScore := score
    callers := callers
    reason := gapReason m callers.length }

/-- Whether a gap is reported before another: higher level, then more callers, then the method. -/
def Gap.before (a b : Gap) : Bool :=
  match compare b.riskLevel.rank a.riskLevel.rank with
  | .lt => true
  | .gt => false
  | .eq =>
    match compare b.callers.length a.callers.length with
    | .lt => true
    | .gt => false
    | .eq => (compare a.method b.method).isLE

/-- The gaps among changed and impacted methods, most urgent first, with their counts. -/
def analyze (g : CallGraph) (tests : List Method) (depth : Option Nat)
    (changed impacted : List Method) : List Gap × Stats :=
  let business := sortedSet ((changed ++ impacted).filter (isBusiness tests))
  let (untested, covered) := business.partition fun m => (relatedTests g tests depth m).isEmpty
  let gaps := (untested.map (gapOf g)).mergeSort Gap.before
  (gaps,
    { business := business.length
      covered := covered.length
      highGaps := gaps.countP (·.riskLevel = .high)
      mediumGaps := gaps.countP (·.riskLevel = .medium)
      lowGaps := gaps.countP (·.riskLevel = .low) })

end ChangeImpact.Coverage
