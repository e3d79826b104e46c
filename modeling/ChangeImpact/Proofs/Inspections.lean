import ChangeImpact.Inspection.Run
import ChangeImpact.Proofs.PoolRuns

/-!
# Inspections one after the other

Inspections follow one another on the same files, each with settings, an audience and a schedule of
its own.

* `Call` — an inspection with everything that is its own; `Call.perform` — the files that it leaves,
  and its report;
* `Call.batch` — the state of its pool after some actions;
* `filesAfter` — the files after any number of inspections; `filesAfter_induction` — what each of
  them keeps.
-/

namespace ChangeImpact

/-- The history lists the commit for some name and some filter. -/
def History.Lists (h : History) (c : Commit) : Prop :=
  ∃ head filter commits, h.list head filter = .ok commits ∧ c ∈ commits

namespace Inspection

/-- The cache can be read for all of these commits. -/
def Readable (cache : CommitCache) (commits : List Commit) (s : Session) : Prop :=
  ∀ c ∈ commits, ∃ found, cache.load CommitRecord.decode c.id s.files = .ok found

/-- An inspection with everything that is its own: the settings, who is told, and the schedule of
its pool for the number of commits. -/
structure Call where
  config : Config.Inspect
  dispatcher : Dispatcher Nat
  process : Nat
  audience : Audience
  schedule : Nat → List PoolAction

namespace Call

variable (a : CommitAnalyzer) (call : Call) (files : FileTree)

def monitor : Monitor := ⟨a, call.config, call.dispatcher, call.process⟩

def session : Session := ⟨files, call.audience, []⟩

/-- The files that an inspection leaves, and its report. -/
def perform : FileTree × Except PipelineError Report :=
  let done := (call.monitor a).runWith call.schedule (call.session files)
  (done.1.files, done.2)

/-- The commits that the settings select. -/
def selection : Except HistoryError (List Commit) := do
  a.history.list (← a.history.resolve call.config.branch) ⟨call.config.commits, call.config.since⟩

/-- The state of the pool after some actions. -/
def batch (commits : List Commit) (cache : CommitCache) (opened : FileTree)
    (actions : List PoolAction) : Pool Session Stage (Except PipelineError Verdict) :=
  Pool.run ((call.monitor a).task cache) commits actions
    (Pool.init ((call.monitor a).tell (.inspectionStarted call.config.branch commits.length)
      (call.session opened)) commits)

/-- Whenever a worker could read the cache, it can. -/
def ReadsSucceed : Prop :=
  ∀ commits cache opened,
    (call.monitor a).prepare (call.session files) = .ok (commits, cache, opened) →
      ∀ first, first <+: call.schedule commits.length →
        Readable cache commits (call.batch a commits cache opened first).shared

/-- The inspection gets through with its commits and is not cancelled before. -/
def Completes : Prop :=
  ∃ commits cache opened,
    (call.monitor a).prepare (call.session files) = .ok (commits, cache, opened) ∧
    let done := call.batch a commits cache opened (call.schedule commits.length)
    done.Settled commits ∧ done.shared.audience.cancelled = false

instance : Decidable (call.Completes a files) :=
  match hprepare : (call.monitor a).prepare (call.session files) with
  | .error e => .isFalse fun ⟨_, _, _, hok, _⟩ => by simp [hprepare] at hok
  | .ok (commits, cache, opened) =>
    let done := call.batch a commits cache opened (call.schedule commits.length)
    decidable_of_iff (done.Settled commits ∧ done.shared.audience.cancelled = false)
      ⟨fun h => ⟨commits, cache, opened, hprepare, h⟩, fun ⟨_, _, _, hok, h⟩ => by
        obtain ⟨rfl, rfl, rfl⟩ : _ ∧ _ ∧ _ := by simpa [hprepare] using hok
        exact h⟩

end Call

/-- The files after inspections, one after the other. -/
def filesAfter (a : CommitAnalyzer) (calls : List Call) (files : FileTree) : FileTree :=
  calls.foldl (fun files call => (call.perform a files).1) files

variable {a : CommitAnalyzer} {call : Call} {files opened : FileTree} {commits : List Commit}
  {cache : CommitCache}

/-- A run that gets as far as its pool has selected its commits and opened its cache. -/
theorem prepare_ok
    (h : (call.monitor a).prepare (call.session files) = .ok (commits, cache, opened)) :
    call.selection a = .ok commits ∧
      CommitCache.open call.config.cacheDir a.config.fingerprint call.process files =
        .ok (cache, opened) := by
  unfold Monitor.prepare at h
  split at h
  · simp at h
  · split at h
    · simp at h
    · cases hhead : a.history.resolve call.config.branch with
      | error e => simp [Call.monitor, hhead, Except.mapError, bind, Except.bind] at h
      | ok head =>
        cases hlist : a.history.list head ⟨call.config.commits, call.config.since⟩ with
        | error e => simp [Call.monitor, hhead, hlist, Except.mapError, bind, Except.bind] at h
        | ok listed =>
          cases hopen : CommitCache.open call.config.cacheDir a.config.fingerprint call.process
              files with
          | error e =>
            simp [Call.monitor, Call.session, hhead, hlist, hopen, Except.mapError, bind,
              Except.bind] at h
          | ok found =>
            simp only [Call.monitor, Call.session, hhead, hlist, hopen, Except.mapError, bind,
              Except.bind, pure, Except.pure, Except.ok.injEq, Prod.mk.injEq] at h
            obtain ⟨rfl, rfl, rfl⟩ := h
            exact ⟨by simp [Call.selection, hhead, hlist, bind, Except.bind], rfl⟩

/-- The commits of a selection are listed. -/
theorem lists_of_selection (h : call.selection a = .ok commits) :
    ∀ c ∈ commits, a.history.Lists c := by
  intro c hc
  cases hhead : a.history.resolve call.config.branch with
  | error e => simp [Call.selection, hhead, bind, Except.bind] at h
  | ok head =>
    simp only [Call.selection, hhead, bind, Except.bind] at h
    exact ⟨head, _, commits, h, hc⟩

/-- Telling of failures changes no file. -/
theorem files_tellFailures (m : Monitor) (failed : List (Commit × PipelineError)) (s : Session) :
    (failed.foldl (fun s (c, e) => m.tell (.commitFailed c.id e.message) s) s).files = s.files := by
  induction failed generalizing s with
  | nil => rfl
  | cons failure failed ih =>
    rw [List.foldl_cons, ih]
    rfl

/-- What an inspection leaves and reports is what its pool leaves and its outcomes give. -/
theorem perform_ok
    (h : (call.monitor a).prepare (call.session files) = .ok (commits, cache, opened)) :
    (call.perform a files).1 =
        (call.batch a commits cache opened (call.schedule commits.length)).shared.files ∧
      (call.perform a files).2 = .ok (Monitor.report (commits.zip
        (call.batch a commits cache opened (call.schedule commits.length)).results)) := by
  have hsession : { call.session files with files := opened } = call.session opened := rfl
  have hbranch : (call.monitor a).config.branch = call.config.branch := rfl
  unfold Call.perform Monitor.runWith Call.batch
  rw [h]
  dsimp only
  rw [hsession, hbranch]
  exact ⟨files_tellFailures (call.monitor a) _ _, rfl⟩

theorem perform_error {e : PipelineError}
    (h : (call.monitor a).prepare (call.session files) = .error e) :
    call.perform a files = ((call.monitor a).refusedFiles (call.session files) e, .error e) := by
  unfold Call.perform Monitor.runWith
  rw [h]

/-- What a run leaves that is refused: the files as they were, or with some directories on the way
to its cache. -/
theorem refusedFiles_induction {Q : FileTree → Prop} (hsame : Q files)
    (hhalfway : Q (files.makeHalfway (.ofText call.config.cacheDir))) (e : PipelineError) :
    Q ((call.monitor a).refusedFiles (call.session files) e) := by
  unfold Monitor.refusedFiles
  split
  · exact hhalfway
  · exact hsame

/-- What every inspection keeps of the files, all of them keep. -/
theorem filesAfter_induction {Q : FileTree → Prop} {calls : List Call}
    (h : ∀ call ∈ calls, ∀ files, Q files → Q (call.perform a files).1) (hfiles : Q files) :
    Q (filesAfter a calls files) := by
  induction calls generalizing files with
  | nil => exact hfiles
  | cons call calls ih =>
    rw [filesAfter, List.foldl_cons]
    exact ih (fun call hcall => h call (List.mem_cons_of_mem _ hcall))
      (h call List.mem_cons_self files hfiles)

end Inspection

end ChangeImpact
