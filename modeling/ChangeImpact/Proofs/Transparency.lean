import ChangeImpact.Proofs.CacheDocument
import ChangeImpact.Proofs.CacheReads
import ChangeImpact.Proofs.CommitAnalysis
import ChangeImpact.Proofs.RecordEncoding
import ChangeImpact.Repository.History
import Mathlib.Data.List.Forall2
import Mathlib.Data.List.Nodup

/-!
# Caches and schedules change no report

Inspections follow one another on one cache directory, each under a schedule of its own and
cancelled at any time or never. Every file below the directory is the document of a listed commit
with its true record, so that what a worker finds there is what it would have computed.

* `History.Identified` — commits are told apart by their ids; `Repository.identified_history` —
  those of a repository are;
* `Genuine` — the bytes of a true document; `Agrees` — how far a worker has come is in accord with
  the analysis without a cache;
* `Monitor.sound_batch` — the invariant holds in every state of a run;
* `reports_transparent` — reports are those of the sequential analysis without a cache.
-/

namespace ChangeImpact

/-! ## Histories -/

/-- Commits are told apart by their ids. -/
def History.Identified (h : History) : Prop :=
  ∀ c c', h.Lists c → h.Lists c' → c.id = c'.id → c = c'

/-- The commits of a walk are those that the repository finds under their ids. -/
theorem Repository.find?_of_mem_listFrom {r : Repository} {filter : CommitFilter} {taken : Nat}
    {ids : List String} {commits : List Commit} (h : r.listFrom filter taken ids = .ok commits)
    {c : Commit} (hc : c ∈ commits) : (r.find? c.id).map (·.commit) = some c := by
  induction ids generalizing taken commits with
  | nil =>
    obtain rfl := Except.ok.inj h
    simp at hc
  | cons id ids ih =>
    unfold listFrom at h
    split at h
    · simp at h
    · rename_i stored hstored
      split at h
      · obtain rfl := Except.ok.inj h
        simp at hc
      · cases hrest : r.listFrom filter (taken + 1) ids with
        | error e => simp [hrest, bind, Except.bind] at h
        | ok rest =>
          simp only [hrest, bind, Except.bind, pure, Except.pure, Except.ok.injEq] at h
          subst h
          rcases List.mem_cons.1 hc with rfl | hmem
          · have hid : stored.commit.id = id := by simpa using List.find?_some hstored
            rw [hid, hstored]
            rfl
          · exact ih hrest hmem

theorem Repository.find?_of_lists {r : Repository} {c : Commit} (h : r.history.Lists c) :
    (r.find? c.id).map (·.commit) = some c := by
  obtain ⟨head, filter, commits, hlist, hc⟩ := h
  have hwalk : r.list head filter = .ok commits := hlist
  unfold Repository.list at hwalk
  split at hwalk
  · simp at hwalk
  · split at hwalk
    · simp at hwalk
    · exact find?_of_mem_listFrom hwalk hc

/-- A repository knows its commits by their ids. -/
theorem Repository.identified_history (r : Repository) : r.history.Identified := by
  intro c c' hc hc' hid
  have hfound := find?_of_lists hc
  rw [hid, find?_of_lists hc'] at hfound
  exact (Option.some.inj hfound).symm

theorem CommitFilter.mem_of_mem_selectFrom {f : CommitFilter} {taken : Nat} {cs : List Commit}
    {c : Commit} (h : c ∈ f.selectFrom taken cs) : c ∈ cs := by
  induction cs generalizing taken with
  | nil => exact h
  | cons d cs ih =>
    unfold selectFrom at h
    split at h
    · simp at h
    · rcases List.mem_cons.1 h with rfl | hmem
      · exact List.mem_cons_self
      · exact List.mem_cons_of_mem _ (ih hmem)

theorem RecordedHistory.mem_of_lists {h : RecordedHistory} {c : Commit} (hc : h.history.Lists c) :
    c ∈ h.commits := by
  obtain ⟨head, filter, commits, hlist, hmem⟩ := hc
  have hfound : h.list head filter = .ok commits := hlist
  unfold RecordedHistory.list at hfound
  split at hfound
  · simp at hfound
  · split at hfound
    · simp at hfound
    · obtain rfl := Except.ok.inj hfound
      exact (List.dropWhile_sublist _).subset (CommitFilter.mem_of_mem_selectFrom hmem)

/-- A history that is written down is identified if no id stands in it twice. -/
theorem RecordedHistory.identified_history {h : RecordedHistory}
    (hnodup : (h.commits.map (·.id)).Nodup) : h.history.Identified := by
  intro c c' hc hc' hid
  exact List.inj_on_of_nodup_map hnodup (mem_of_lists hc) (mem_of_lists hc') hid

/-! ## Records -/

theorem CommitAnalyzer.id_of_analyze {a : CommitAnalyzer} {c : Commit} {r : CommitRecord}
    (h : a.analyze c = .ok r) : r.id = c.id := by
  obtain ⟨diffs, contents, -, rfl⟩ := analyze_ok_iff.1 h
  rfl

/-- A record that is read back from the document of a listed commit is the one that was written. -/
def CommitAnalyzer.RoundTrips (a : CommitAnalyzer) : Prop :=
  ∀ (cache : CommitCache) c r doc, cache.fingerprint = a.config.fingerprint → a.history.Lists c →
    a.analyze c = .ok r →
    CommitCache.Document.parse? CommitRecord.decode (cache.documentBytes c.id r.toJson) = some doc →
    doc.impact = r

theorem CommitAnalyzer.roundTrips_of_rereadable {a : CommitAnalyzer}
    (h : ∀ c r, a.history.Lists c → a.analyze c = .ok r → r.Rereadable) : a.RoundTrips := by
  intro cache c r doc _ hc hanalyze hdoc
  have hread := CommitCache.spelled_of_rereadable cache c.id (h c r hc hanalyze)
  rw [CommitCache.spelled, hdoc] at hread
  exact Option.some.inj hread

/-- The bytes are those of the document of a listed commit with its true record. -/
def Genuine (a : CommitAnalyzer) (bytes : ByteArray) : Prop :=
  ∃ (cache : CommitCache) (c : Commit) (r : CommitRecord),
    cache.fingerprint = a.config.fingerprint ∧ a.history.Lists c ∧ a.analyze c = .ok r ∧
      bytes = cache.documentBytes c.id r.toJson

/-- What genuine bytes say about a commit is true. -/
theorem Genuine.accept {a : CommitAnalyzer} {cache : CommitCache} {c : Commit} {r : CommitRecord}
    {bytes : ByteArray} (hids : a.history.Identified) (hround : a.RoundTrips)
    (hc : a.history.Lists c) (hbytes : Genuine a bytes)
    (h : cache.accept? CommitRecord.decode c.id bytes = some r) : a.analyze c = .ok r := by
  obtain ⟨cache', c', r', hfingerprint, hc', hanalyze, rfl⟩ := hbytes
  simp only [CommitCache.accept?, Option.bind_eq_bind, Option.bind_eq_some_iff] at h
  obtain ⟨doc, hdoc, h⟩ := h
  split at h
  · rename_i hheader
    obtain ⟨hcommit, -⟩ := hheader
    obtain rfl := Option.some.inj h
    have hid : c'.id = c.id := by
      rw [← hcommit, (CommitCache.header_of_parse hdoc).2]
    obtain rfl : c' = c := hids c' c hc' hc hid
    rw [hround cache' c' r' doc hfingerprint hc hanalyze hdoc]
    exact hanalyze
  · simp at h

theorem load_genuine {a : CommitAnalyzer} {cache : CommitCache} {c : Commit} {r : CommitRecord}
    {files : FileTree} (hids : a.history.Identified) (hround : a.RoundTrips)
    (hc : a.history.Lists c) (hfiles : files.FilesBelow (.ofText cache.root) (Genuine a))
    (h : cache.load CommitRecord.decode c.id files = .ok (some r)) : a.analyze c = .ok r := by
  unfold CommitCache.load at h
  split at h
  · rename_i bytes hread
    have hbytes : Genuine a bytes :=
      hfiles _ bytes (cache.below_entryPath c.id) (FileTree.read_ok_iff.1 hread).2
    exact hbytes.accept hids hround hc (Except.ok.inj h)
  · simp at h
  · simp at h

namespace Inspection

/-! ## One step of a worker -/

/-- How far a worker has come with a commit is in accord with the analysis without a cache. -/
def Stage.Agrees (a : CommitAnalyzer) (c : Commit) : Stage → Prop
  | .lookUp c' => c' = c
  | .compute c' => c' = c
  | .save c' r _ => c' = c ∧ a.analyze c = .ok r
  | .announce c' v => c' = c ∧ a.analyze c = .ok v.record

/-- What became of a commit is what the analysis without a cache gives; for failures, as long as the
cache can be read. -/
def Settles (a : CommitAnalyzer) (readable : Prop) (c : Commit) :
    Except PipelineError Verdict → Prop
  | .ok v => a.analyze c = .ok v.record
  | .error e => readable → a.analyze c = .error e

namespace Monitor

variable {m : Monitor} {cache : CommitCache} {s s' : Session} {c : Commit} {stage stage' : Stage}
  {readable : Prop}

/-- All files below the directory of the cache are genuine. -/
def Honest (m : Monitor) (cache : CommitCache) (s : Session) : Prop :=
  s.files.FilesBelow (.ofText cache.root) (Genuine m.analyzer)

/-- A step of a worker keeps the files genuine, and it stays in accord with the analysis. -/
theorem step_agrees (hids : m.analyzer.history.Identified) (hround : m.analyzer.RoundTrips)
    (hcache : cache.fingerprint = m.analyzer.config.fingerprint) (hc : m.analyzer.history.Lists c)
    (hread : readable → ∃ found, cache.load CommitRecord.decode c.id s.files = .ok found)
    (hs : m.Honest cache s) (hstage : stage.Agrees m.analyzer c) :
    m.Honest cache (m.step cache s stage).1 ∧
      Sum.elim (Stage.Agrees m.analyzer c) (Settles m.analyzer readable c)
        (m.step cache s stage).2 := by
  unfold step
  cases stage with
  | lookUp c' =>
    obtain rfl : c' = c := hstage
    dsimp only
    split
    · -- the cache cannot be read
      rename_i e hload
      refine ⟨hs, fun hreadable => ?_⟩
      obtain ⟨found, hfound⟩ := hread hreadable
      simp [hload] at hfound
    · -- the cache knows the commit
      rename_i r hload
      exact ⟨hs, rfl, load_genuine hids hround hc hs hload⟩
    · exact ⟨hs, rfl⟩
  | compute c' =>
    obtain rfl : c' = c := hstage
    dsimp only
    split
    · rename_i e hanalyze
      exact ⟨hs, fun _ => hanalyze⟩
    · rename_i r hanalyze
      exact ⟨hs, rfl, hanalyze⟩
  | save c' r store =>
    obtain ⟨rfl, hanalyze⟩ := hstage
    have hbytes : Genuine m.analyzer (cache.documentBytes c'.id r.toJson) :=
      ⟨cache, c', r, hcache, hc, hanalyze, rfl⟩
    have hfiles : (cache.storeStep c'.id (cache.documentBytes c'.id r.toJson) s.files
        store).1.FilesBelow (.ofText cache.root) (Genuine m.analyzer) :=
      CommitCache.filesBelow_storeStep hs hbytes
    dsimp only
    split
    · rename_i files next hstore
      rw [hstore] at hfiles
      exact ⟨hfiles, rfl, hanalyze⟩
    · rename_i files result hstore
      rw [hstore] at hfiles
      exact ⟨hfiles, rfl, hanalyze⟩
  | announce c' v =>
    dsimp only
    exact ⟨hs, hstage.2⟩

/-! ## A batch -/

/-- Who asked for cancellation does not take it back. -/
theorem cancelled_offer {i : Nat} {e : Event} {au : Audience} (h : au.cancelled = true) :
    (Audience.offer i e au).state.cancelled = true := by
  unfold Audience.offer
  split
  · exact h
  · exact h
  · split
    · exact h
    · simp [Reaction.state, h]

theorem cancelled_tell {e : Event} (h : s.audience.cancelled = true) :
    (m.tell e s).audience.cancelled = true := by
  show (m.dispatcher.observers.foldl (fun au i => (Audience.offer i e au).state)
    s.audience).cancelled = true
  generalize s.audience = au at h
  generalize m.dispatcher.observers = observers
  induction observers generalizing au with
  | nil => exact h
  | cons i observers ih => exact ih _ (cancelled_offer h)

theorem cancelled_step (h : s.audience.cancelled = true) :
    (m.step cache s stage).1.audience.cancelled = true := by
  unfold step
  cases stage with
  | lookUp c => dsimp only; split <;> exact h
  | compute c => dsimp only; split <;> exact h
  | save c r store => dsimp only; split <;> exact h
  | announce c v =>
    dsimp only
    exact cancelled_tell h

/-- In every state of a run the files are genuine, and what became of the commits is in accord with
the analysis. -/
theorem sound_batch {commits : List Commit} {schedule : List PoolAction}
    (hids : m.analyzer.history.Identified) (hround : m.analyzer.RoundTrips)
    (hcache : cache.fingerprint = m.analyzer.config.fingerprint)
    (hcommits : ∀ c ∈ commits, m.analyzer.history.Lists c) (hs : m.Honest cache s)
    (hread : ∀ first, first <+: schedule → readable →
      Readable cache commits (Pool.run (m.task cache) commits first (Pool.init s commits)).shared) :
    Pool.Sound (m.Honest cache) (Stage.Agrees m.analyzer) (Settles m.analyzer readable) commits
      (Pool.run (m.task cache) commits schedule (Pool.init s commits)) := by
  refine Pool.Sound.run (W := fun s _ => readable → Readable cache commits s) (Pool.sound_init hs)
    (fun first _ _ hfirst _ => hread first hfirst) (fun _ => id) (fun c _ => rfl) ?_
  intro c hc s stage hs hW hstage
  exact step_agrees hids hround hcache (hcommits c hc) (fun hreadable => hW hreadable c hc) hs
    hstage

/-- A batch only gives commits up if it is cancelled. -/
theorem steady_batch (m : Monitor) (cache : CommitCache) (commits : List Commit)
    (schedule : List PoolAction) (s : Session) :
    Pool.Steady (fun s => s.audience.cancelled) commits
      (Pool.run (m.task cache) commits schedule (Pool.init s commits)) := by
  have hinit : Pool.Steady (m.task cache).cancelled commits
      (Pool.init s commits : Pool Session Stage (Except PipelineError Verdict)) :=
    Pool.steady_init s
  have hstep : ∀ s stage, (m.task cache).cancelled s = true →
      (m.task cache).cancelled ((m.task cache).step s stage).1 = true := by
    intro s stage hcancelled
    show (m.step cache s stage).1.audience.cancelled = true
    have hs : s.audience.cancelled = true := hcancelled
    exact cancelled_step hs
  have hcancel : ∀ s, (m.task cache).cancelled ((m.task cache).cancel s) = true := fun s => rfl
  exact hinit.run hcancel hstep

end Monitor

/-! ## Reports -/

/-- The records of the commits that can be analysed, the newest first, and the failures of the
others: one commit after the other, and no cache. -/
def sequential (a : CommitAnalyzer) (commits : List Commit) :
    List CommitRecord × List CommitFailure :=
  ((commits.filterMap fun c => (a.analyze c).toOption).mergeSort Monitor.precedes,
    commits.filterMap fun c =>
      match a.analyze c with
      | .ok _ => none
      | .error e => some (.ofError c.id e))

namespace Monitor

variable {a : CommitAnalyzer} {commits : List Commit}
  {results : List (Option (Except PipelineError Verdict))}

theorem mem_impacts_report {outcomes : List (Commit × Option (Except PipelineError Verdict))}
    {r : CommitRecord} (h : r ∈ (report outcomes).impacts) :
    ∃ c v, (c, some (.ok v)) ∈ outcomes ∧ v.record = r := by
  have hmem : r ∈ (verdicts outcomes).map (·.record) := List.mem_mergeSort.1 h
  obtain ⟨v, hv, hr⟩ := List.mem_map.1 hmem
  obtain ⟨⟨c, x⟩, hc, hx⟩ := List.mem_filterMap.1 hv
  refine ⟨c, v, ?_, hr⟩
  split at hx
  · obtain ⟨rfl, rfl⟩ := Prod.mk.inj ‹_›
    obtain rfl := Option.some.inj hx
    exact hc
  · simp at hx

theorem cancelled_report_iff {outcomes : List (Commit × Option (Except PipelineError Verdict))} :
    (report outcomes).cancelled = false ↔ ∀ x ∈ outcomes, x.2.isSome := by
  simp [report, Option.isSome_iff_ne_none]

/-- A commit for which the analysis and the outcome are in accord. -/
def Matches (a : CommitAnalyzer) (c : Commit) (x : Option (Except PipelineError Verdict)) : Prop :=
  ∃ b, x = some b ∧ Settles a True c b

theorem records_of_matches (h : List.Forall₂ (Matches a) commits results) :
    (verdicts (commits.zip results)).map (·.record) =
      commits.filterMap fun c => (a.analyze c).toOption := by
  induction h with
  | nil => rfl
  | @cons c x commits results hx _ ih =>
    obtain ⟨b, rfl, hb⟩ := hx
    simp only [verdicts] at ih
    cases b with
    | ok v =>
      have hanalyze : a.analyze c = .ok v.record := hb
      simp [verdicts, hanalyze, Except.toOption, ih]
    | error e =>
      have hanalyze : a.analyze c = .error e := hb trivial
      simp [verdicts, hanalyze, Except.toOption, ih]

theorem failures_of_matches (h : List.Forall₂ (Matches a) commits results) :
    (failures (commits.zip results)).map (fun (c, e) => CommitFailure.ofError c.id e) =
      (sequential a commits).2 := by
  induction h with
  | nil => rfl
  | @cons c x commits results hx _ ih =>
    obtain ⟨b, rfl, hb⟩ := hx
    simp only [failures, sequential] at ih
    cases b with
    | ok v =>
      have hanalyze : a.analyze c = .ok v.record := hb
      simp [failures, sequential, hanalyze, ih]
    | error e =>
      have hanalyze : a.analyze c = .error e := hb trivial
      simp [failures, sequential, hanalyze, ih]

/-- A report on outcomes that are in accord with the analysis is the sequential one. -/
theorem report_of_matches (h : List.Forall₂ (Matches a) commits results) :
    (report (commits.zip results)).impacts = (sequential a commits).1 ∧
      (report (commits.zip results)).failures = (sequential a commits).2 := by
  refine ⟨?_, failures_of_matches h⟩
  show ((verdicts (commits.zip results)).map (·.record)).mergeSort precedes = _
  rw [records_of_matches h]
  rfl

end Monitor

/-! ## Inspections one after the other -/

variable {a : CommitAnalyzer} {call : Call} {files opened : FileTree} {commits : List Commit}
  {cache : CommitCache}

/-- The invariant of the batch of an inspection, for the commits of its selection. -/
theorem sound_of_prepare {readable : Prop} (hids : a.history.Identified) (hround : a.RoundTrips)
    (hfiles : files.FilesBelow (.ofText call.config.cacheDir) (Genuine a))
    (hprepare : (call.monitor a).prepare (call.session files) = .ok (commits, cache, opened))
    (hread : readable → call.ReadsSucceed a files) :
    Pool.Sound ((call.monitor a).Honest cache) (Stage.Agrees a) (Settles a readable) commits
        (call.batch a commits cache opened (call.schedule commits.length)) ∧
      cache.root = call.config.cacheDir := by
  obtain ⟨hselection, hopen⟩ := prepare_ok hprepare
  obtain ⟨hmake, hcache⟩ := CommitCache.open_ok hopen
  have hanalyzer : (call.monitor a).analyzer = a := rfl
  have hfingerprint : cache.fingerprint = (call.monitor a).analyzer.config.fingerprint := by
    rw [hcache, hanalyzer]
  have hroot : cache.root = call.config.cacheDir := by rw [hcache]
  have hstart : (call.monitor a).Honest cache ((call.monitor a).tell
      (.inspectionStarted call.config.branch commits.length) (call.session opened)) := by
    show opened.FilesBelow (.ofText cache.root) (Genuine a)
    rw [hroot]
    exact hfiles.makeDirs hmake
  have hlists : ∀ c ∈ commits, (call.monitor a).analyzer.history.Lists c :=
    lists_of_selection hselection
  have hreadable : ∀ first, first <+: call.schedule commits.length → readable →
      Readable cache commits (call.batch a commits cache opened first).shared :=
    fun first hfirst h => hread h commits cache opened hprepare first hfirst
  exact ⟨Monitor.sound_batch hids hround hfingerprint hlists hstart hreadable, hroot⟩

/-- An inspection keeps the files of its cache genuine. -/
theorem genuine_perform (hids : a.history.Identified) (hround : a.RoundTrips)
    (hfiles : files.FilesBelow (.ofText call.config.cacheDir) (Genuine a)) :
    (call.perform a files).1.FilesBelow (.ofText call.config.cacheDir) (Genuine a) := by
  cases hprepare : (call.monitor a).prepare (call.session files) with
  | error e =>
    rw [perform_error hprepare]
    exact refusedFiles_induction hfiles (hfiles.makeHalfway _) e
  | ok found =>
    obtain ⟨commits, cache, opened⟩ := found
    -- nothing need be known about reads here
    obtain ⟨hsound, hroot⟩ := sound_of_prepare hids hround hfiles hprepare False.elim
    rw [(perform_ok hprepare).1, ← hroot]
    exact hsound.shared

/-- Any number of inspections keep the files of their cache genuine. -/
theorem genuine_filesAfter {root : String} {calls : List Call} (hids : a.history.Identified)
    (hround : a.RoundTrips) (hroot : ∀ call ∈ calls, call.config.cacheDir = root)
    (hfiles : files.FilesBelow (.ofText root) (Genuine a)) :
    (filesAfter a calls files).FilesBelow (.ofText root) (Genuine a) := by
  refine filesAfter_induction ?_ hfiles
  intro call hcall files hfiles
  rw [← hroot call hcall] at hfiles ⊢
  exact genuine_perform hids hround hfiles

theorem steady_call (a : CommitAnalyzer) (call : Call) (commits : List Commit)
    (cache : CommitCache) (opened : FileTree) (actions : List PoolAction) :
    Pool.Steady (fun s => s.audience.cancelled) commits
      (call.batch a commits cache opened actions) :=
  Monitor.steady_batch (call.monitor a) cache commits actions _

/-- The outcomes of a sound batch are in accord with the analysis. -/
theorem settles_of_mem_zip {I : Session → Prop} {R : Commit → Stage → Prop} {readable : Prop}
    {p : Pool Session Stage (Except PipelineError Verdict)} {c : Commit}
    {b : Except PipelineError Verdict} (h : Pool.Sound I R (Settles a readable) commits p)
    (hmem : (c, some b) ∈ commits.zip p.results) : Settles a readable c b :=
  h.of_mem_zip hmem

/-- Reports depend neither on what earlier inspections left in the cache nor on the schedule. Every
record of a report is what the analysis of its commit gives without a cache. A report that is not
cancelled has exactly the records and failures of the sequential analysis, and a run that is not
cancelled before it gets through has such a report. -/
theorem reports_transparent (a : CommitAnalyzer) (root : String) (earlier : List Call) (call : Call)
    (files : FileTree) (hids : a.history.Identified) (hround : a.RoundTrips)
    (hroot : ∀ other ∈ call :: earlier, other.config.cacheDir = root)
    (hempty : ∀ p, FilePath.ofText root <+: p → files.isFile p = false)
    (hreads : call.ReadsSucceed a (filesAfter a earlier files)) :
    (∀ report, (call.perform a (filesAfter a earlier files)).2 = .ok report →
      ∃ commits, call.selection a = .ok commits ∧
        (∀ r ∈ report.impacts, ∃ c ∈ commits, r.id = c.id ∧ a.analyze c = .ok r) ∧
        (report.cancelled = false →
          report.impacts = (sequential a commits).1 ∧
            report.failures = (sequential a commits).2)) ∧
    (call.Completes a (filesAfter a earlier files) →
      ∃ report, (call.perform a (filesAfter a earlier files)).2 = .ok report ∧
        report.cancelled = false) := by
  have hnone : files.FilesBelow (.ofText root) (Genuine a) := by
    intro p bytes hp hget
    have hfile := hempty p hp
    simp [FileTree.isFile, hget] at hfile
  have hbefore : (filesAfter a earlier files).FilesBelow (.ofText call.config.cacheDir)
      (Genuine a) := by
    rw [hroot call List.mem_cons_self]
    exact genuine_filesAfter hids hround
      (fun other h => hroot other (List.mem_cons_of_mem _ h)) hnone
  constructor
  · intro report hreport
    cases hprepare : (call.monitor a).prepare (call.session (filesAfter a earlier files)) with
    | error e =>
      rw [perform_error hprepare] at hreport
      simp at hreport
    | ok found =>
      obtain ⟨commits, cache, opened⟩ := found
      obtain ⟨hsound, -⟩ := sound_of_prepare hids hround hbefore hprepare (fun _ : True => hreads)
      rw [(perform_ok hprepare).2] at hreport
      obtain rfl := Except.ok.inj hreport
      refine ⟨commits, (prepare_ok hprepare).1, ?_, ?_⟩
      · intro r hr
        obtain ⟨c, v, hmem, rfl⟩ := Monitor.mem_impacts_report hr
        have hanalyze : a.analyze c = .ok v.record := settles_of_mem_zip hsound hmem
        exact ⟨c, (List.of_mem_zip hmem).1, CommitAnalyzer.id_of_analyze hanalyze, hanalyze⟩
      · intro hcancelled
        have hlength : commits.length =
            (call.batch a commits cache opened (call.schedule commits.length)).results.length := by
          rw [Pool.results, List.length_map, hsound.length_slots]
        apply Monitor.report_of_matches
        refine List.forall₂_iff_zip.2 ⟨hlength, fun {c x} hmem => ?_⟩
        obtain ⟨b, rfl⟩ := Option.isSome_iff_exists.1
          (Monitor.cancelled_report_iff.1 hcancelled (c, x) hmem)
        exact ⟨b, rfl, settles_of_mem_zip hsound hmem⟩
  · rintro ⟨commits, cache, opened, hprepare, hsettled, hgo⟩
    refine ⟨_, (perform_ok hprepare).2, Monitor.cancelled_report_iff.2 ?_⟩
    rintro ⟨c, x⟩ hmem
    exact Pool.results_of_settled (steady_call a call commits cache opened _) hsettled hgo x
      (List.of_mem_zip hmem).2

/-! ## Two inspections of a small history -/

/-- Three commits: two whose ids start with the same seven characters, and one without a parent. -/
def twins : RecordedHistory where
  commits :=
    [⟨"abcdefg2", ["abcdefg1"], "two", ⟨"dev", "dev@x"⟩, .ofSeconds 86400, .ofSeconds 86400⟩,
      ⟨"abcdefg1", ["0123456"], "one", ⟨"dev", "dev@x"⟩, .ofSeconds 0, .ofSeconds 0⟩,
      ⟨"0123456", [], "start", ⟨"dev", "dev@x"⟩, .ofSeconds 0, .ofSeconds 0⟩]
  refs := [("main", "abcdefg2")]
  diffs := [⟨"0123456", "abcdefg1", []⟩, ⟨"abcdefg1", "abcdefg2", []⟩]
  files := []
  walkError := none
  unreadable := []

def twinAnalyzer : CommitAnalyzer :=
  ⟨twins.history, ⟨fun _ => true, fun f => .ok ⟨f.path, [], 0⟩⟩, .default, []⟩

/-- An inspection of all three commits. -/
def twinCall (schedule : Nat → List PoolAction) : Call :=
  ⟨⟨"main", some 3, none, "cache", none⟩, .empty, 1, .empty, schedule⟩

/-- Two workers store into one slot, step by step in turn; cancellation stops the third commit. -/
def inTurn (_ : Nat) : List PoolAction :=
  [.submit, .submit, .submit, .start 0, .start 1] ++
    (List.replicate 8 [.advance 0, .advance 1]).flatten ++ [.cancel, .start 2]

theorem twins_fileNames (c : Commit) (hc : twinAnalyzer.history.Lists c) :
    IsFileName (slotName c.id) := by
  have hall : ∀ c ∈ twins.commits, slotName c.id ≠ "" ∧ slotName c.id ≠ "." ∧
      '/' ∉ (slotName c.id).toList := by decide +kernel
  exact hall c (RecordedHistory.mem_of_lists hc)

theorem twins_short (c : Commit) (hc : twinAnalyzer.history.Lists c) :
    nameFits (slotName c.id) := by
  have hall : ∀ c ∈ twins.commits, nameFits (slotName c.id) := by decide +kernel
  exact hall c (RecordedHistory.mem_of_lists hc)

theorem rereadable_twins {c : Commit} {r : CommitRecord} (hc : twinAnalyzer.history.Lists c)
    (h : twinAnalyzer.analyze c = .ok r) : r.Rereadable := by
  have hall : ∀ c ∈ twins.commits,
      (twinAnalyzer.analyze c).toOption.all (fun r => decide r.Rereadable) := by
    decide +kernel
  have hchecked := hall c (RecordedHistory.mem_of_lists hc)
  rw [h, Except.toOption, Option.all_some] at hchecked
  exact of_decide_eq_true hchecked

/-- The second inspection finds in the cache what two workers of the first, which was cancelled,
stored into one slot. -/
theorem reports_transparent_twins :
    ∃ report, ((twinCall (Pool.inOrder · Monitor.stepsPerCommit)).perform twinAnalyzer
        (filesAfter twinAnalyzer [twinCall inTurn] .empty)).2 = .ok report ∧
      report.cancelled = false ∧ report.impacts = (sequential twinAnalyzer twins.commits).1 ∧
      report.failures = (sequential twinAnalyzer twins.commits).2 := by
  have hroot : ∀ other ∈ [twinCall (Pool.inOrder · Monitor.stepsPerCommit), twinCall inTurn],
      other.config.cacheDir = "cache" := by
    intro other hother
    rcases List.mem_cons.1 hother with rfl | hmem
    · rfl
    · rw [List.mem_singleton.1 hmem]
      rfl
  have hempty : ∀ p, FilePath.ofText "cache" <+: p → FileTree.empty.isFile p = false := by
    intro p _
    unfold FileTree.isFile FileTree.get?
    by_cases hp : p = []
    · rw [if_pos hp]
    · rw [if_neg hp]
      rfl
  have hshelved : FileTree.empty.Shelved (.ofText "cache") := by
    constructor <;> intro p <;> by_cases hp : p = [] <;> simp [FileTree.get?, FileTree.empty, hp]
  have hreads := readsSucceed_of_fileNames (a := twinAnalyzer) twins_fileNames twins_short hroot
    hshelved
  have hcompletes : (twinCall (Pool.inOrder · Monitor.stepsPerCommit)).Completes twinAnalyzer
      (filesAfter twinAnalyzer [twinCall inTurn] .empty) := by
    decide +kernel
  obtain ⟨htrue, hdone⟩ := reports_transparent twinAnalyzer "cache" [twinCall inTurn]
    (twinCall (Pool.inOrder · Monitor.stepsPerCommit)) .empty
    (RecordedHistory.identified_history (by decide))
    (CommitAnalyzer.roundTrips_of_rereadable fun _ _ => rereadable_twins) hroot hempty hreads
  obtain ⟨report, hreport, hgo⟩ := hdone hcompletes
  obtain ⟨commits, hselection, -, hexact⟩ := htrue report hreport
  obtain rfl : twins.commits = commits := Except.ok.inj hselection
  exact ⟨report, hreport, hgo, hexact hgo⟩

end Inspection

end ChangeImpact
