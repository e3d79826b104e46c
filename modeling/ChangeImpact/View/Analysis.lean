import ChangeImpact.Commit.Encoding
import ChangeImpact.Json.Access
import ChangeImpact.View.Error

/-!
# Methods, graphs and impacts as JSON
-/

namespace ChangeImpact.View

open Json

/-- A method, as its signature or as its two names. -/
def asMethod? : Json → Option Method
  | .str s => some (.ofSignature s)
  | j => do return ⟨← need asStr? j "owner", ← need asStr? j "method"⟩

/-- Two methods. -/
def asPair? (j : Json) : Option (Method × Method) := do
  match ← asArr? j with
  | [a, b] => return (← asMethod? a, ← asMethod? b)
  | _ => none

/-- A kind of declaration. -/
def asKind? : Json → Option Declaration.Kind
  | .str "Method" => some .method
  | .str "Lambda" => some .closure
  | j => do return .anonymousMethod (← need asU32? (← field? j "AnonymousMethod") "body")

/-- A declaration. -/
def asDeclaration? (j : Json) : Option Declaration := do
  return {
    owner := ← need asStr? j "owner_name"
    name := ← need asStr? j "method_name"
    startLine := ← need asU32? j "start_line"
    endLine := ← need asU32? j "end_line"
    kind := ← need asKind? j "kind"
    annotations := ← need (asListOf asStr?) j "annotations"
    targets := ← need (asListOf asStr?) j "invocation_targets" }

/-- The declarations of a file. -/
def asFacts? (j : Json) : Option SourceFacts := do
  return ⟨← need asStr? j "path", ← listOf asDeclaration? j "declarations", 0⟩

/-- A range of lines as its two ends. -/
def asRange? : Json → Option LineRange
  | .arr [a, b] => do return .ofHunk (← asU32? a) (← asU32? b)
  | .arr _ => none
  | j => do return ⟨← need asU32? j "start", ← need asU32? j "end"⟩

/-- The changed lines of a file. -/
def asLineChanges? (j : Json) : Option LineChanges := do
  return ⟨← need asStr? j "path", ← listOf asRange? j "ranges"⟩

/-- The changed lines of several files. -/
def asChange? (j : Json) : Option (List LineChanges) :=
  listOf asLineChanges? j "lines"

/-- The lines of a method. -/
def asSpan? (j : Json) : Option MethodSpan := do
  return {
    method := .ofSignature (← need asStr? j "method")
    file := ← need asStr? j "file"
    startLine := ← need asU32? j "start_line"
    endLine := ← need asU32? j "end_line"
    synthetic := ← need asBool? j "synthetic" }

/-- A gap in coverage. -/
def asGap? (j : Json) : Option Coverage.Gap := do
  return {
    method := .ofSignature (← need asStr? j "method")
    riskLevel := ← Coverage.RiskLevel.ofName? (← need asStr? j "risk_level")
    riskScore := ← need asU32? j "risk_score"
    callers := (← need (asListOf asStr?) j "impacted_callers").map .ofSignature
    reason := ← need asStr? j "reason" }

/-- Figures about coverage. -/
def asStats? (j : Json) : Option Coverage.Stats := do
  return {
    business := ← need asU64? j "business_methods"
    covered := ← need asU64? j "covered_methods"
    highGaps := ← need asU64? j "high_risk_gaps"
    mediumGaps := ← need asU64? j "medium_risk_gaps"
    lowGaps := ← need asU64? j "low_risk_gaps" }

/-- An edge as the signatures of its ends. -/
def edgeJson (e : Method × Method) : Json := .arr [.str e.1.signature, .str e.2.signature]

/-- The methods and tests that a change reaches. -/
def resultJson (r : Impact.Result) : Json :=
  .obj [("impacted_methods", Method.listJson r.impacted),
    ("impacted_tests_by_owner", Impact.ByOwner.toJson r.tests)]

/-- A report on a change. -/
def reportJson (r : Impact.Report) : Json :=
  .obj [("result", resultJson r.result), ("gaps", .arr (r.gaps.map Coverage.Gap.toJson)),
    ("coverage", Coverage.Stats.toJson r.coverage)]

/-- The lines of a method. -/
def spanJson (s : MethodSpan) : Json :=
  .obj [("method", .str s.method.signature), ("file", .str s.file),
    ("start_line", .nat s.startLine), ("end_line", .nat s.endLine),
    ("synthetic", .bool s.synthetic)]

/-- A range of lines. -/
def rangeJson (r : LineRange) : Json :=
  .obj [("start", .nat r.start), ("end", .nat r.stop)]

/-- The name of a way to resolve a call. -/
def strategyName : Resolution.Strategy → String
  | .qualified => "Qualified"
  | .receiverType => "ReceiverType"
  | .sameOwner => "SameOwner"
  | .uniqueName => "UniqueName"

/-- Figures about the building of a graph. -/
def buildStatsJson (s : BuildStats) : Json :=
  .obj [("total_methods", .nat s.totalMethods), ("total_edges", .nat s.totalEdges),
    ("synthetic_methods", .nat s.syntheticMethods), ("files_analyzed", .nat s.filesAnalyzed),
    ("files_skipped", .nat s.filesSkipped), ("files_truncated", .nat s.filesTruncated),
    ("resolution_counts", .obj (s.resolved.map fun (k, n) => (k.name, .nat n))),
    ("unresolved_calls", .nat s.unresolved), ("resolution_rate", floatJson s.resolutionRate)]

/-- A graph with its tests, and what changes do in it. -/
def preparedMembers (p : Impact.Prepared) (config : Config.Analysis)
    (changes : List (List LineChanges)) : List (String × Json) :=
  let impacts := changes.map fun lines =>
    let changed := p.build.changedMethods lines
    let report := p.report config changed
    Json.obj [("changed", Method.listJson changed), ("report", reportJson report),
      ("test_count", .nat (Impact.testCount report.result.tests))]
  [("methods", Method.listJson p.build.graph.methods),
    ("edges", .arr (p.build.graph.edges.map edgeJson)),
    ("spans", .arr (p.build.spans.map spanJson)), ("stats", buildStatsJson p.build.stats),
    ("tests", Method.listJson (sortedSet p.tests)),
    ("reverse_edges", .nat p.build.graph.reverse.edges.length), ("impacts", .arr impacts)]

/-- A kind of declaration. -/
def kindJson : Declaration.Kind → Json
  | .method => .str "Method"
  | .closure => .str "Lambda"
  | .anonymousMethod n => .obj [("AnonymousMethod", .obj [("body", .nat n)])]

/-- A declaration. -/
def declarationJson (d : Declaration) : Json :=
  .obj [("owner_name", .str d.owner), ("method_name", .str d.name),
    ("start_line", .nat d.startLine), ("end_line", .nat d.endLine), ("kind", kindJson d.kind),
    ("annotations", Json.strs d.annotations), ("invocation_targets", Json.strs d.targets)]

/-- The files that were loaded, and what went wrong on the way. -/
def unitJson (r : Outcome SourceUnit) : Json :=
  .obj [("files", .arr (r.data.files.map fun f =>
      .arr [.str f.path, .nat f.declarations.length, .nat f.faults])),
    ("skipped", .nat r.data.skipped), ("truncated", .nat r.data.truncated),
    ("errors", .arr (r.errors.map pipelineErrorJson)), ("clean", .bool r.isClean),
    ("error_count", .nat r.errors.length)]

end ChangeImpact.View
