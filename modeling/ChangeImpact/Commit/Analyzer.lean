import ChangeImpact.Commit.Record
import ChangeImpact.Commit.Risk
import ChangeImpact.History
import ChangeImpact.SourceModel

/-!
# Analysis of a commit

A commit is compared with its first parent: the changed files are read, a call graph is built over
them, and the impact of the changed lines is found.

* `CommitAnalyzer.between` — the analysis of a pair of revisions;
* `CommitAnalyzer.assemble` — the record of a commit;
* `CommitAnalyzer.analyze`, `CommitAnalyzer.range` — the record of a commit, or of a range under the
  name of its end.
-/

namespace ChangeImpact

/-- Says something about a record, under a name. -/
structure Classifier where
  name : String
  classify : CommitRecord → Option Json

/-- Everything that the analysis of a commit depends on. -/
structure CommitAnalyzer where
  history : History
  model : SourceModel
  config : Config.Analysis
  classifiers : List Classifier

/-- The impact between two revisions. -/
structure RangeAnalysis where
  paths : List String
  skippedFiles : Nat
  changed : List Method
  report : Impact.Report
deriving DecidableEq, Repr

/-- The changed lines of files. -/
def FileDiff.lineChanges (d : FileDiff) : LineChanges :=
  ⟨d.path, d.hunks.map fun h => .ofHunk h.newStart h.newLength⟩

/-- The first seven characters of a commit's name. -/
def shortId (id : String) : String :=
  String.ofList (id.toList.take 7)

namespace CommitAnalyzer

variable (a : CommitAnalyzer)

/-- The contents of changed files at a revision; none for a file that is missing there. -/
def contents (target : String) (diffs : List FileDiff) :
    Except HistoryError (List (String × Option ByteArray)) :=
  diffs.mapM fun d => do return (d.path, ← a.history.content target d.path)

/-- The impact between two revisions. -/
def between (source target : String) : Except PipelineError RangeAnalysis := do
  let diffs ← (a.history.diff source target a.model.supports).mapError .history
  let contents ← (a.contents target diffs).mapError .history
  let files := contents.filterMap fun (path, content) => content.map (⟨path, ·⟩ : _ → SourceFile)
  let missing := contents.countP (·.2.isNone)
  let unit := (SourceUnit.load a.model a.config files).data
  let prepared := Impact.Prepared.ofUnit unit
  let changed := prepared.build.changedMethods (diffs.map (·.lineChanges))
  return {
    paths := diffs.map (·.path)
    skippedFiles := missing + unit.skipped + unit.truncated
    changed := changed
    report := prepared.report a.config changed }

/-- The record of a commit before it is classified. -/
def unclassified (c : Commit) (r : RangeAnalysis) : CommitRecord :=
  let result := r.report.result
  { id := c.id
    shortId := shortId c.id
    message := c.message
    author := c.author
    timestamp := c.timestamp
    changedFiles := r.paths.length
    changedMethods := r.changed
    skippedFiles := r.skippedFiles
    impactedMethods := result.impacted
    impactedTests := result.tests
    gaps := r.report.gaps
    coverage := r.report.coverage
    risk := commitRisk r.paths r.changed.length result.impacted.length
      (Impact.testCount result.tests) (r.report.gaps.map (·.riskLevel))
    classifications := [] }

/-- What the classifiers say about a record, under their names; the last word counts. -/
def classifications (r : CommitRecord) : List (String × Json) :=
  a.classifiers.foldl (fun said c =>
    match c.classify r with
    | some value => Json.putMember c.name value said
    | none => said) []

/-- The record of a commit. -/
def assemble (c : Commit) (r : RangeAnalysis) : CommitRecord :=
  let record := unclassified c r
  { record with classifications := a.classifications record }

/-- The record of a commit against its first parent. A failure names the commit. -/
def analyze (c : Commit) : Except PipelineError CommitRecord :=
  let run : Except PipelineError CommitRecord := do
    match c.firstParent with
    | none => .error (.history (.noParent c.id))
    | some parent => return a.assemble c (← a.between parent c.id)
  run.mapError (·.forCommit c.id)

/-- The record of the change from one revision to another, under the name of the second. -/
def range (source target : String) : Except PipelineError CommitRecord :=
  let run : Except PipelineError CommitRecord := do
    let base ← (a.history.resolve source).mapError .history
    let tip ← (a.history.resolve target).mapError .history
    let c ← (a.history.commit tip).mapError .history
    return a.assemble c (← a.between base tip)
  run.mapError (·.forCommit target)

end CommitAnalyzer

end ChangeImpact
