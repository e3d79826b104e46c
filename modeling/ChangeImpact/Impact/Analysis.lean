import ChangeImpact.Config.Analysis
import ChangeImpact.Coverage.Gap
import ChangeImpact.Impact.LineRange
import ChangeImpact.TestMethod

/-!
# What a change reaches

* `impact` — the callers of the changed methods within the depth, and the tests among them;
* `allCallers` — the callers of one method at any depth;
* `report` — the same with the coverage gaps;
* `Prepared` — the graph and the tests of a unit, made once and asked about any number of changes.
-/

namespace ChangeImpact.Impact

/-- Names grouped by owner: owners ascending, the names of each ascending. -/
abbrev ByOwner := List (String × List String)

/-- Groups methods by owner. -/
def groupByOwner (ms : List Method) : ByOwner :=
  (sortedSet (ms.map (·.owner))).map fun owner =>
    (owner, sortedSet ((ms.filter (·.owner == owner)).map (·.name)))

/-- What a change reaches. -/
structure Result where
  /-- Callers of changed methods, ascending. -/
  impacted : List Method
  tests : ByOwner
deriving DecidableEq, Repr

/-- How many tests there are. -/
def testCount (tests : ByOwner) : Nat :=
  tests.foldr (·.2.length + ·) 0

/-- What a change reaches, and which of it lacks tests. -/
structure Report where
  result : Result
  gaps : List Coverage.Gap
  coverage : Coverage.Stats
deriving DecidableEq, Repr

/-- Callers within the depth, and the tests among them. Tests that call a changed method directly
belong to it at any depth. -/
def impact (g : CallGraph) (tests : List Method) (config : Config.Analysis)
    (changed : List Method) : Result :=
  let impacted := sortedSet (g.transitiveCallers changed config.maxDepth)
  { impacted := impacted
    tests := groupByOwner ((impacted ++ changed.flatMap g.callers).filter tests.contains) }

/-- All callers of a method, however far, ascending. -/
def allCallers (g : CallGraph) (m : Method) : List Method :=
  sortedSet (g.transitiveCallers [m] CallGraph.unbounded)

/-- Impact and coverage gaps of a set of changed methods. -/
def report (g : CallGraph) (tests : List Method) (config : Config.Analysis)
    (changed : List Method) : Report :=
  let result := impact g tests config changed
  let (gaps, coverage) :=
    Coverage.analyze g tests config.gapSearchDepth changed result.impacted
  ⟨result, gaps, coverage⟩

/-- A unit made ready to be asked about changes. -/
structure Prepared where
  build : Build
  tests : List Method

/-- Builds the graph of a unit and finds its tests. -/
def Prepared.ofUnit (u : SourceUnit) : Prepared :=
  ⟨u.build, u.tests⟩

/-- Impact and coverage gaps of a set of changed methods. -/
def Prepared.report (p : Prepared) (config : Config.Analysis) (changed : List Method) : Report :=
  Impact.report p.build.graph p.tests config changed

end ChangeImpact.Impact
