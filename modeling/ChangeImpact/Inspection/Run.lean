import ChangeImpact.Commit.Analyzer
import ChangeImpact.Commit.Encoding
import ChangeImpact.CommitCache
import ChangeImpact.Config.Inspect
import ChangeImpact.Event
import ChangeImpact.Inspection.Report
import ChangeImpact.WorkerPool

/-!
# The run of an inspection

The commits of a branch are analysed by a pool of workers, each commit from the cache if the cache
knows it. The run is deterministic given the schedule of the pool:

* `Session` — what the workers share: the files and the audience;
* `task` — what a worker does with a commit, in small steps;
* `runWith` — the run under a schedule; `runIn` — in a pool that may not come about; `run` — with a
  single worker.
-/

namespace ChangeImpact.Inspection

/-- What workers share. -/
structure Session where
  files : FileTree
  audience : Audience
  /-- Everything that was told to the audience. -/
  events : List Event

/-- Everything that an inspection depends on. -/
structure Monitor where
  analyzer : CommitAnalyzer
  config : Config.Inspect
  /-- Numbers of the observers in the audience that are told about this inspection. -/
  dispatcher : Dispatcher Nat
  /-- The number of the process. -/
  process : Nat

/-- What became of a commit. -/
inductive Verdict where
  /-- The cache knew its record. -/
  | cached (r : CommitRecord)
  /-- Its record was computed. -/
  | analyzed (r : CommitRecord)

/-- The record of a commit. -/
def Verdict.record : Verdict → CommitRecord
  | .cached r => r
  | .analyzed r => r

/-- How far a worker has come with a commit. -/
inductive Stage where
  | lookUp (c : Commit)
  | compute (c : Commit)
  | save (c : Commit) (r : CommitRecord) (s : CommitCache.StoreStage)
  | announce (c : Commit) (v : Verdict)

/-- The event that reports a verdict. -/
def Verdict.event (c : Commit) : Verdict → Event
  | .cached _ => .cacheHit c.id
  | .analyzed r =>
    .commitAnalyzed c.id r.changedMethods.length r.impactedMethods.length r.risk

namespace Monitor

variable (m : Monitor)

/-- Tells the audience of an event. -/
def tell (e : Event) (s : Session) : Session :=
  { s with audience := m.dispatcher.emit Audience.offer e s.audience, events := s.events ++ [e] }

/-- One step of a worker. That a record cannot be kept is no failure. -/
def step (cache : CommitCache) (s : Session) :
    Stage → Session × (Stage ⊕ Except PipelineError Verdict)
  | .lookUp c =>
    match cache.load CommitRecord.decode c.id s.files with
    | .error e => (s, .inr (.error ((PipelineError.storage e).forCommit c.id)))
    | .ok (some r) => (s, .inl (.announce c (.cached r)))
    | .ok none => (s, .inl (.compute c))
  | .compute c =>
    match m.analyzer.analyze c with
    | .error e => (s, .inr (.error e))
    | .ok r => (s, .inl (.save c r .makeSlot))
  | .save c r stage =>
    match cache.storeStep c.id (cache.documentBytes c.id r.toJson) s.files stage with
    | (files, .inl stage) => ({ s with files }, .inl (.save c r stage))
    | (files, .inr _) => ({ s with files }, .inl (.announce c (.analyzed r)))
  | .announce c v => (m.tell (v.event c) s, .inr (.ok v))

/-- How many steps a commit takes at most. -/
def stepsPerCommit : Nat := 3 + CommitCache.storeSteps

/-- What a worker does with a commit. -/
def task (cache : CommitCache) : PoolTask Session Commit Stage (Except PipelineError Verdict) where
  start := .lookUp
  step := m.step cache
  cancelled s := s.audience.cancelled
  cancel s := { s with audience := { s.audience with cancelled := true } }

/-- What a run does before its first event: the commits that are selected, the cache, and the files
with the directory of the cache. -/
def prepare (s : Session) : Except PipelineError (List Commit × CommitCache × FileTree) := do
  match m.config.fault? with
  | some e => .error (.config e)
  | none =>
    if s.audience.cancelled then .error .cancelled
    else
      let history := m.analyzer.history
      let head ← (history.resolve m.config.branch).mapError .history
      let commits ← (history.list head ⟨m.config.commits, m.config.since⟩).mapError .history
      let (cache, files) ← (CommitCache.open m.config.cacheDir m.analyzer.config.fingerprint
        m.process s.files).mapError .storage
      return (commits, cache, files)

/-- The files when a run ends before its first event. Where its cache cannot be opened, the
directories on the way to it that could be made are there. -/
def refusedFiles (s : Session) : PipelineError → FileTree
  | .storage _ => s.files.makeHalfway (.ofText m.config.cacheDir)
  | _ => s.files

/-- The newest first, equal times by name. -/
def precedes (a b : CommitRecord) : Bool :=
  match compare b.timestamp a.timestamp with
  | .lt => true
  | .gt => false
  | .eq => (compare a.id b.id).isLE

/-- The failures of a run in the order of the commits. -/
def failures (outcomes : List (Commit × Option (Except PipelineError Verdict))) :
    List (Commit × PipelineError) :=
  outcomes.filterMap fun
    | (c, some (.error e)) => some (c, e)
    | _ => none

/-- The verdicts of a run in the order of the commits. -/
def verdicts (outcomes : List (Commit × Option (Except PipelineError Verdict))) : List Verdict :=
  outcomes.filterMap fun
    | (_, some (.ok v)) => some v
    | _ => none

/-- The report on what became of the commits. -/
def report (outcomes : List (Commit × Option (Except PipelineError Verdict))) : Report :=
  let vs := verdicts outcomes
  let isCached : Verdict → Bool
    | .cached _ => true
    | .analyzed _ => false
  { impacts := (vs.map (·.record)).mergeSort precedes
    failures := (failures outcomes).map fun (c, e) => .ofError c.id e
    selected := outcomes.length
    analyzed := vs.countP (!isCached ·)
    cacheHits := vs.countP isCached
    cancelled := outcomes.any (·.2.isNone) }

/-- Runs an inspection; the pool acts by the schedule that is given for the number of commits. -/
def runWith (schedule : Nat → List PoolAction) (s : Session) :
    Session × Except PipelineError Report :=
  match m.prepare s with
  | .error e => ({ s with files := m.refusedFiles s e }, .error e)
  | .ok (commits, cache, files) =>
    let s := m.tell (.inspectionStarted m.config.branch commits.length) { s with files }
    let done := Pool.run (m.task cache) commits (schedule commits.length) (Pool.init s commits)
    let outcomes := commits.zip done.results
    let failed := failures outcomes
    let s := failed.foldl (fun s (c, e) => m.tell (.commitFailed c.id e.message) s) done.shared
    let r := report outcomes
    (m.tell (.inspectionComplete r.analyzed r.cacheHits r.failed r.cancelled) s, .ok r)

/-- Runs an inspection in a pool that the system may fail to provide. It asks for the pool last,
when the directory of the cache has been made. -/
def runIn (pool : Except String (Nat → List PoolAction)) (s : Session) :
    Session × Except PipelineError Report :=
  match pool with
  | .ok schedule => m.runWith schedule s
  | .error message =>
    match m.prepare s with
    | .error e => ({ s with files := m.refusedFiles s e }, .error e)
    | .ok (_, _, files) => ({ s with files }, .error (.workerPool message))

/-- Runs an inspection with a single worker. -/
def run (s : Session) : Session × Except PipelineError Report :=
  m.runIn (.ok (Pool.inOrder · stepsPerCommit)) s

end Monitor

end ChangeImpact.Inspection
