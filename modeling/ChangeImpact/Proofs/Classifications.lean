import ChangeImpact.Proofs.FailureAttribution
import ChangeImpact.Proofs.Reuse

/-!
# Classifications from the cache

A document of a cache bears the fingerprint of the settings and the id of its commit. Nothing in it
tells which classifiers were at work, and a load does not ask. So inspections that share a directory
serve each other's classifications: a record that is found there says what the classifiers of the
inspection said that stored it.

* `Run` — an inspection with classifiers of its own; `Run.filesAfter` — the files after any number
  of them; `Run.Ended` — each of them came to its end;
* `CommitAnalyzer.analyze_classified` — classifiers change nothing of a record but what they say;
* `Call.Makes` — the bytes are the document of a record that an inspection has computed;
  `analyzed_of_save` — what a worker begins to store is computed in the end;
* `Verdict.Backed`, `backed_perform` — what an inspection reports is computed, or a file says it,
  and files that were not there before are documents that it makes;
* `Origin`, `reports_have_origin` — which inspection the classifications in a report come from;
* `hit_serves_other_classifications` — they need not be those of the inspection that reports them.
-/

namespace ChangeImpact

/-! ## Classifiers -/

/-- A record with what the classifiers say about it. -/
def CommitAnalyzer.classified (a : CommitAnalyzer) (bare : CommitRecord) : CommitRecord :=
  { bare with classifications := a.classifications bare }

/-- Classifiers change nothing of a record but what they say about it. -/
theorem CommitAnalyzer.analyze_classified (a : CommitAnalyzer) (c : Commit) :
    a.analyze c = ({ a with classifiers := [] }.analyze c).map a.classified := by
  have hbetween (parent : String) :
      { a with classifiers := [] }.between parent c.id = a.between parent c.id := rfl
  unfold analyze
  cases c.firstParent with
  | none => rfl
  | some parent =>
    dsimp only
    rw [hbetween]
    cases a.between parent c.id with
    | error e => rfl
    | ok found => rfl

namespace Inspection

/-! ## Runs -/

/-- If an inspection gets as far as its pool, its workers have returned in the end, and nothing is
left for them to do. -/
def Call.Ends (a : CommitAnalyzer) (call : Call) (files : FileTree) : Prop :=
  ∀ commits cache opened,
    (call.monitor a).prepare (call.session files) = .ok (commits, cache, opened) →
      (call.batch a commits cache opened (call.schedule commits.length)).Settled commits

instance Call.decidableEnds (a : CommitAnalyzer) (call : Call) (files : FileTree) :
    Decidable (call.Ends a files) :=
  match hprepare : (call.monitor a).prepare (call.session files) with
  | .error e => .isTrue fun _ _ _ hok => by simp [hprepare] at hok
  | .ok (commits, cache, opened) =>
    decidable_of_iff
      ((call.batch a commits cache opened (call.schedule commits.length)).Settled commits)
      ⟨fun h _ _ _ hok => by
        obtain ⟨rfl, rfl, rfl⟩ : _ ∧ _ ∧ _ := by simpa [hprepare] using hok
        exact h, fun h => h commits cache opened hprepare⟩

/-- An inspection with classifiers of its own. -/
structure Run where
  classifiers : List Classifier
  call : Call

namespace Run

/-- The analyser of a run: all runs share history, source model and settings. -/
def analyzer (a : CommitAnalyzer) (run : Run) : CommitAnalyzer :=
  { a with classifiers := run.classifiers }

/-- The files that a run leaves, and its report. -/
def perform (a : CommitAnalyzer) (run : Run) (files : FileTree) :
    FileTree × Except PipelineError Report :=
  run.call.perform (run.analyzer a) files

/-- The files after runs, one after the other. -/
def filesAfter (a : CommitAnalyzer) (runs : List Run) (files : FileTree) : FileTree :=
  runs.foldl (fun files run => (run.perform a files).1) files

theorem filesAfter_concat (a : CommitAnalyzer) (runs : List Run) (run : Run) (files : FileTree) :
    filesAfter a (runs ++ [run]) files = (run.perform a (filesAfter a runs files)).1 := by
  rw [filesAfter, List.foldl_append]
  rfl

/-- Runs one after the other, each of which comes to its end. -/
def Ended (a : CommitAnalyzer) : List Run → FileTree → Prop
  | [], _ => True
  | run :: runs, files =>
    run.call.Ends (run.analyzer a) files ∧ Ended a runs (run.perform a files).1

instance decidableEnded (a : CommitAnalyzer) :
    (runs : List Run) → (files : FileTree) → Decidable (Ended a runs files)
  | [], _ => .isTrue trivial
  | run :: runs, files =>
    @instDecidableAnd _ _ (Call.decidableEnds (run.analyzer a) run.call files)
      (decidableEnded a runs (run.perform a files).1)

theorem ended_concat_iff {a : CommitAnalyzer} {runs : List Run} {run : Run} {files : FileTree} :
    Ended a (runs ++ [run]) files ↔
      Ended a runs files ∧ run.call.Ends (run.analyzer a) (filesAfter a runs files) := by
  induction runs generalizing files with
  | nil => simp [Ended, filesAfter]
  | cons first runs ih => simp only [List.cons_append, Ended, ih, and_assoc, filesAfter,
      List.foldl_cons]

end Run

/-! ## What a report is backed by -/

/-- A record was computed, or some bytes of which `P` holds say it. -/
def Verdict.Backed (a : CommitAnalyzer) (cache : CommitCache) (P : ByteArray → Prop) (c : Commit) :
    Verdict → Prop
  | .analyzed r => a.analyze c = .ok r
  | .cached r => ∃ bytes, P bytes ∧ cache.accept? CommitRecord.decode c.id bytes = some r

/-- A worker is busy with its commit, and the record that it has is backed. -/
def Stage.Backed (a : CommitAnalyzer) (cache : CommitCache) (P : ByteArray → Prop) (c : Commit) :
    Stage → Prop
  | .lookUp c' | .compute c' => c' = c
  | .save c' r _ => c' = c ∧ a.analyze c = .ok r
  | .announce c' v => c' = c ∧ v.Backed a cache P c

/-- A verdict that a worker returns is backed. -/
def Backed (a : CommitAnalyzer) (cache : CommitCache) (P : ByteArray → Prop) (c : Commit)
    (b : Except PipelineError Verdict) : Prop :=
  ∀ v, b = .ok v → v.Backed a cache P c

variable {a : CommitAnalyzer} {cache : CommitCache} {P : ByteArray → Prop} {c : Commit}
  {files opened : FileTree} {commits : List Commit} {call : Call}

/-- What a load returns, a file below the directory says. -/
theorem backed_load {r : CommitRecord} (hfiles : files.FilesBelow (.ofText cache.root) P)
    (hload : cache.load CommitRecord.decode c.id files = .ok (some r)) :
    (Verdict.cached r).Backed a cache P c := by
  obtain ⟨-, bytes, hbytes, haccept⟩ := CommitCache.load_some_iff.1 hload
  have hbelow := cache.below_entryPath c.id
  rw [CommitCache.entryPath_eq] at hbelow
  exact ⟨bytes, hfiles _ bytes hbelow (FileTree.bytesAt_eq_some_iff.1 hbytes), haccept⟩

theorem Monitor.step_backed (m : Monitor) (cache : CommitCache) (s : Session) {stage : Stage}
    (hdocument : ∀ r store, stage = .save c r store → P (cache.documentBytes c.id r.toJson))
    (hs : s.files.FilesBelow (.ofText cache.root) P)
    (hstage : stage.Backed m.analyzer cache P c) :
    (m.step cache s stage).1.files.FilesBelow (.ofText cache.root) P ∧
      Sum.elim (Stage.Backed m.analyzer cache P c) (Backed m.analyzer cache P c)
        (m.step cache s stage).2 := by
  cases stage with
  | lookUp c' =>
    obtain rfl : c' = c := hstage
    unfold step
    dsimp only
    cases hload : cache.load CommitRecord.decode c'.id s.files with
    | error e => exact ⟨hs, by rintro v ⟨⟩⟩
    | ok found =>
      cases found with
      | none => exact ⟨hs, rfl⟩
      | some r => exact ⟨hs, rfl, backed_load hs hload⟩
  | compute c' =>
    obtain rfl : c' = c := hstage
    unfold step
    dsimp only
    cases hanalyze : m.analyzer.analyze c' with
    | error e => exact ⟨hs, by rintro v ⟨⟩⟩
    | ok r => exact ⟨hs, rfl, hanalyze⟩
  | save c' r store =>
    obtain ⟨rfl, hanalyze⟩ := hstage
    have hfiles : (cache.storeStep c'.id (cache.documentBytes c'.id r.toJson) s.files
        store).1.FilesBelow (.ofText cache.root) P :=
      CommitCache.filesBelow_storeStep hs (hdocument r store rfl)
    obtain ⟨t', next, hstore⟩ : ∃ t' next, cache.storeStep c'.id
      (cache.documentBytes c'.id r.toJson) s.files store = (t', next) := ⟨_, _, rfl⟩
    rw [hstore] at hfiles
    rw [m.step_save cache s c' r store hstore]
    cases next with
    | inl store' => exact ⟨hfiles, rfl, hanalyze⟩
    | inr result => exact ⟨hfiles, rfl, hanalyze⟩
  | announce c' v =>
    refine ⟨hs, ?_⟩
    rintro v' ⟨⟩
    exact hstage.2

/-! ## Documents of a run -/

/-- A worker has computed this record for its commit. -/
def Stage.Computed (c : Commit) (r : CommitRecord) : Stage → Prop
  | .lookUp _ | .compute _ => False
  | .save c' r' _ => c' = c ∧ r' = r
  | .announce c' v => c' = c ∧ v = .analyzed r

/-- A worker that has computed a record goes on with it to the end. -/
theorem Monitor.step_computed (m : Monitor) (cache : CommitCache) {r : CommitRecord} (s : Session)
    (stage : Stage) (h : stage.Computed c r) :
    Sum.elim (Stage.Computed c r) (· = .ok (.analyzed r)) (m.step cache s stage).2 := by
  cases stage with
  | lookUp | compute => cases h
  | save c' r' store =>
    obtain ⟨rfl, rfl⟩ := h
    unfold step
    dsimp only
    split
    · exact ⟨rfl, rfl⟩
    · exact ⟨rfl, rfl⟩
  | announce c' v =>
    obtain ⟨rfl, rfl⟩ := h
    rfl

/-- The bytes are the document of a record that an inspection has computed. -/
def Call.Makes (a : CommitAnalyzer) (call : Call) (files : FileTree) (bytes : ByteArray) : Prop :=
  ∃ c r, (c, some (.ok (.analyzed r))) ∈ call.outcomes a files ∧ a.analyze c = .ok r ∧
    ∃ cache : CommitCache, cache.fingerprint = a.config.fingerprint ∧
      bytes = cache.documentBytes c.id r.toJson

/-- What a worker begins to store is computed, and an inspection that ends says so. -/
theorem analyzed_of_save (hends : call.Ends a files)
    (hprepare : (call.monitor a).prepare (call.session files) = .ok (commits, cache, opened))
    {first : List PoolAction} {i : Nat} {r : CommitRecord} {store : CommitCache.StoreStage}
    (hfirst : first <+: call.schedule commits.length)
    (hslot : (call.batch a commits cache opened first).slots[i]? =
      some (.running (.save c r store))) :
    (c, some (.ok (.analyzed r))) ∈ call.outcomes a files ∧ a.analyze c = .ok r := by
  have hsound : Pool.Sound
      (fun s : Session => s.files.FilesBelow (.ofText cache.root) fun _ => True)
      (Stage.Backed a cache fun _ => True) (Backed a cache fun _ => True) commits
      (call.batch a commits cache opened first) := by
    refine Pool.Sound.run_of_step (Pool.sound_init fun _ _ _ _ => trivial) (fun _ => id)
      (fun c _ => rfl) ?_
    intro c _ s stage hs hstage
    exact (call.monitor a).step_backed cache s (fun _ _ _ => trivial) hs hstage
  have hi : i < commits.length := hsound.length_slots ▸ (List.getElem?_eq_some_iff.1 hslot).1
  obtain ⟨rfl, hanalyze⟩ := hsound.running i _ _ (List.getElem?_eq_getElem hi) hslot
  refine ⟨?_, hanalyze⟩
  obtain ⟨rest, hrest⟩ := hfirst
  obtain ⟨x, hx, hpast⟩ := Pool.past_run (R := Stage.Computed commits[i] r)
    ((call.monitor a).step_computed cache) ⟨_, hslot, rfl, rfl⟩ rest
  rw [hrest] at hx
  -- no worker is under way in the end, so this one has returned what it had computed
  have hidle := (hends commits cache opened hprepare).2 x (List.mem_of_getElem? hx)
  cases x with
  | done b =>
    obtain rfl : b = .ok (.analyzed r) := hpast
    simp only [Call.outcomes, hprepare]
    refine List.mem_iff_getElem?.2
      ⟨i, List.getElem?_zip_eq_some.2 ⟨List.getElem?_eq_getElem hi, ?_⟩⟩
    exact (List.getElem?_map ..).trans (congrArg _ hx)
  | running stage => cases hidle
  | unsubmitted | queued | dropped => cases hpast

/-- Whatever holds of all files below the directory holds of all of them in the end, but for the
documents that the inspection makes, and its verdicts are backed by such files. -/
theorem backed_perform {root : String} (hroot : call.config.cacheDir = root)
    (hends : call.Ends a files) (hfiles : files.FilesBelow (.ofText root) P) :
    (call.perform a files).1.FilesBelow (.ofText root)
        (fun bytes => P bytes ∨ call.Makes a files bytes) ∧
      ∃ cache : CommitCache, cache.fingerprint = a.config.fingerprint ∧
        ∀ c v, (c, some (.ok v)) ∈ call.outcomes a files →
          v.Backed a cache (fun bytes => P bytes ∨ call.Makes a files bytes) c := by
  subst hroot
  have hbefore : files.FilesBelow (.ofText call.config.cacheDir)
      (fun bytes => P bytes ∨ call.Makes a files bytes) :=
    fun p bytes hp hget => .inl (hfiles p bytes hp hget)
  cases hprepare : (call.monitor a).prepare (call.session files) with
  | error e =>
    rw [perform_error hprepare]
    refine ⟨refusedFiles_induction hbefore (hbefore.makeHalfway _) e, ⟨"", _, 0⟩, rfl, ?_⟩
    intro c v hmem
    simp [Call.outcomes, hprepare] at hmem
  | ok found =>
    obtain ⟨commits, cache, opened⟩ := found
    obtain ⟨hmake, hcache⟩ := CommitCache.open_ok (prepare_ok hprepare).2
    have hroot : call.config.cacheDir = cache.root := by rw [hcache]
    have hfingerprint : cache.fingerprint = a.config.fingerprint := by rw [hcache]
    have hsound : Pool.Sound
        (fun s => s.files.FilesBelow (.ofText cache.root) fun bytes =>
          P bytes ∨ call.Makes a files bytes)
        (Stage.Backed a cache fun bytes => P bytes ∨ call.Makes a files bytes)
        (Backed a cache fun bytes => P bytes ∨ call.Makes a files bytes) commits
        (call.batch a commits cache opened (call.schedule commits.length)) := by
      refine Pool.Sound.run (W := fun _ stage => ∀ c r store, stage = .save c r store →
          call.Makes a files (cache.documentBytes c.id r.toJson))
        (Pool.sound_init (hroot ▸ hbefore.makeDirs hmake)) ?_ (fun _ => id) (fun c _ => rfl) ?_
      · rintro first i _ hfirst hslot c r store rfl
        obtain ⟨hmem, hanalyze⟩ := analyzed_of_save hends hprepare hfirst hslot
        exact ⟨c, r, hmem, hanalyze, cache, hfingerprint, rfl⟩
      · intro c _ s stage hs hmakes hstage
        exact (call.monitor a).step_backed cache s
          (fun r store hsave => .inr (hmakes c r store hsave)) hs hstage
    rw [(perform_ok hprepare).1, hroot]
    refine ⟨hsound.shared, cache, hfingerprint, ?_⟩
    intro c v hmem
    simp only [Call.outcomes, hprepare] at hmem
    exact hsound.of_mem_zip hmem v rfl

/-! ## Where classifications come from -/

/-- A run has computed a record for a commit of this id, and the bytes are its document. The record
has the classifications of the run's own classifiers; the rest of it is what every run computes. -/
inductive Run.Wrote (a : CommitAnalyzer) (run : Run) (files : FileTree) (id : String)
    (bytes : ByteArray) : Prop where
  | intro (c : Commit) (hid : c.id = id) (bare : CommitRecord)
    (hbare : ∀ other : Run,
      (other.analyzer a).analyze c = .ok ((other.analyzer a).classified bare))
    (hanalyzed : (c, some (.ok (.analyzed ((run.analyzer a).classified bare)))) ∈
      run.call.outcomes (run.analyzer a) files)
    (writer : CommitCache) (hwriter : writer.fingerprint = a.config.fingerprint)
    (hbytes : bytes = writer.documentBytes id ((run.analyzer a).classified bare).toJson)

/-- A file below the directory holds these bytes. -/
def Holds (root : String) (files : FileTree) (bytes : ByteArray) : Prop :=
  ∃ p, FilePath.ofText root <+: p ∧ files.bytesAt p = some bytes

/-- Where a record comes from that a run has found in a directory for a commit, after earlier runs
that began with these files. -/
inductive Origin (a : CommitAnalyzer) (root : String) (earlier : List Run) (last : Run)
    (files : FileTree) (c : Commit) (r : CommitRecord) : Prop where
  /-- An earlier run has computed it and left its document in the directory. -/
  | stored (before : List Run) (run : Run) (after : List Run)
    (hearlier : earlier = before ++ run :: after) (bytes : ByteArray)
    (hwrote : run.Wrote a (Run.filesAfter a before files) c.id bytes)
    (hleft : Holds root (Run.filesAfter a (before ++ [run]) files) bytes)
    (hread : CommitCache.spelled CommitRecord.decode bytes = some r)
  /-- Another worker of the same run has computed it, as the run has two commits of one id. -/
  | shared (bytes : ByteArray) (hwrote : last.Wrote a (Run.filesAfter a earlier files) c.id bytes)
    (htwice : ¬((last.call.outcomes (last.analyzer a)
      (Run.filesAfter a earlier files)).map (·.1.id)).Nodup)
    (hread : CommitCache.spelled CommitRecord.decode bytes = some r)
  /-- It was there before the first run. -/
  | before (bytes : ByteArray) (hbytes : Holds root files bytes) (reader : CommitCache)
    (hreader : reader.fingerprint = a.config.fingerprint)
    (hread : reader.accept? CommitRecord.decode c.id bytes = some r)

/-- A document that is accepted for a commit was made for its id, and what is found is what it
spells. -/
theorem Call.Makes.wrote {run : Run} {bytes : ByteArray} {r : CommitRecord}
    (h : run.call.Makes (run.analyzer a) files bytes)
    (haccept : cache.accept? CommitRecord.decode c.id bytes = some r) :
    run.Wrote a files c.id bytes ∧ CommitCache.spelled CommitRecord.decode bytes = some r := by
  obtain ⟨c', made, hmem, hanalyze, writer, hwriter, rfl⟩ := h
  obtain ⟨hid, -, hspelled⟩ := CommitCache.accept?_documentBytes.1 haccept
  refine ⟨?_, hspelled⟩
  -- of the record, only the classifications depend on the run
  rw [CommitAnalyzer.analyze_classified] at hanalyze
  cases hbare : { a with classifiers := [] }.analyze c' with
  | error e =>
    have hbare' : { run.analyzer a with classifiers := [] }.analyze c' = .error e := hbare
    rw [hbare'] at hanalyze
    cases hanalyze
  | ok bare =>
    have hother (other : Run) :
        (other.analyzer a).analyze c' = .ok ((other.analyzer a).classified bare) := by
      have hbare' : { other.analyzer a with classifiers := [] }.analyze c' = .ok bare := hbare
      rw [CommitAnalyzer.analyze_classified, hbare']
      rfl
    have hbare' : { run.analyzer a with classifiers := [] }.analyze c' = .ok bare := hbare
    rw [hbare'] at hanalyze
    obtain rfl := Except.ok.inj hanalyze
    exact ⟨c', hid, bare, hother, hmem, writer, hwriter, hid ▸ rfl⟩

/-- The bytes were there before, or one of the runs has made them and left them there. -/
def Known (a : CommitAnalyzer) (root : String) (runs : List Run) (files : FileTree)
    (bytes : ByteArray) : Prop :=
  Holds root files bytes ∨ ∃ before run after, runs = before ++ run :: after ∧
    run.call.Makes (run.analyzer a) (Run.filesAfter a before files) bytes ∧
      Holds root (Run.filesAfter a (before ++ [run]) files) bytes

theorem Known.concat {root : String} {runs : List Run} {bytes : ByteArray} (run : Run)
    (h : Known a root runs files bytes) : Known a root (runs ++ [run]) files bytes := by
  rcases h with hold | ⟨before, other, after, rfl, hmakes⟩
  · exact .inl hold
  · exact .inr ⟨before, other, after ++ [run], by simp, hmakes⟩

/-- In a directory that runs share there are no other files. -/
theorem filesBelow_known {root : String} {runs : List Run}
    (hroot : ∀ run ∈ runs, run.call.config.cacheDir = root) (hended : Run.Ended a runs files) :
    (Run.filesAfter a runs files).FilesBelow (.ofText root) (Known a root runs files) := by
  induction runs using List.reverseRecOn with
  | nil => exact fun p bytes hp hget => .inl ⟨p, hp, FileTree.bytesAt_eq_some_iff.2 hget⟩
  | append_singleton runs run ih =>
    obtain ⟨hbefore, hends⟩ := Run.ended_concat_iff.1 hended
    have hknown := ih (fun run hrun => hroot run (List.mem_append_left _ hrun)) hbefore
    have hrun : run.call.config.cacheDir = root := hroot run (by simp)
    intro p bytes hp hget
    have hleft : Holds root (Run.filesAfter a (runs ++ [run]) files) bytes :=
      ⟨p, hp, FileTree.bytesAt_eq_some_iff.2 hget⟩
    rw [Run.filesAfter_concat] at hget
    rcases (backed_perform hrun hends hknown).1 p bytes hp hget with hold | hmakes
    · exact hold.concat run
    · exact .inr ⟨runs, run, [], rfl, hmakes, hleft⟩

/-- Runs follow one another on one directory, each with classifiers of its own. A record that a run
has computed has the classifications of its own classifiers. One that it has found in the cache is
what reads back from a document, with the classifications of the classifiers of the run that has
computed the record and stored the document. That is an earlier run or, where it has two commits of
one id, the run itself. Or else the document was there before the first run. -/
theorem reports_have_origin (a : CommitAnalyzer) (root : String) (earlier : List Run) (last : Run)
    (files : FileTree) (report : Report)
    (hroot : ∀ run ∈ earlier ++ [last], run.call.config.cacheDir = root)
    (hended : Run.Ended a (earlier ++ [last]) files)
    (hreport : (last.perform a (Run.filesAfter a earlier files)).2 = .ok report) :
    ∃ commits, last.call.selection a = .ok commits ∧ ∀ r ∈ report.impacts, ∃ c ∈ commits,
      (c, some (.ok (.analyzed r))) ∈
          last.call.outcomes (last.analyzer a) (Run.filesAfter a earlier files) ∧
        (last.analyzer a).analyze c = .ok r ∨
      (c, some (.ok (.cached r))) ∈
          last.call.outcomes (last.analyzer a) (Run.filesAfter a earlier files) ∧
        Origin a root earlier last files c r := by
  obtain ⟨hbefore, hends⟩ := Run.ended_concat_iff.1 hended
  have hknown : (Run.filesAfter a earlier files).FilesBelow (.ofText root)
      (Known a root earlier files) :=
    filesBelow_known (fun run hrun => hroot run (List.mem_append_left _ hrun)) hbefore
  have hlast : last.call.config.cacheDir = root := hroot last (by simp)
  obtain ⟨-, cache, hcache, hbacked⟩ := backed_perform hlast hends hknown
  obtain ⟨hresult, hselection⟩ := report_of_perform hreport
  refine ⟨_, hselection, ?_⟩
  intro r hr
  rw [hresult] at hr
  obtain ⟨c, v, hmem, rfl⟩ := Monitor.mem_impacts_report hr
  refine ⟨c, List.mem_map_of_mem hmem, ?_⟩
  have hv := hbacked c v hmem
  cases v with
  | analyzed r => exact .inl ⟨hmem, hv⟩
  | cached r =>
    obtain ⟨bytes, hsource, haccept⟩ := hv
    refine .inr ⟨hmem, ?_⟩
    rcases hsource with (hold | ⟨before, run, after, hearlier, hmakes, hleft⟩) | hmakes
    · exact .before bytes hold cache hcache haccept
    · obtain ⟨hwrote, hread⟩ := hmakes.wrote haccept
      exact .stored before run after hearlier bytes hwrote hleft hread
    · obtain ⟨hwrote, hread⟩ := hmakes.wrote haccept
      refine .shared bytes hwrote ?_ hread
      intro hnodup
      obtain ⟨c', hid, bare, -, hanalyzed, -⟩ := hwrote
      cases List.inj_on_of_nodup_map hnodup hanalyzed hmem hid

/-! ## Two runs with different classifiers -/

theorem ok_of_any {ε α : Type} {result : Except ε α} {check : α → Bool}
    (h : result.toOption.any check = true) : ∃ value, result = .ok value ∧ check value = true := by
  cases result with
  | error e => cases h
  | ok value => exact ⟨value, rfl, h⟩

/-- A run with a classifier that calls every commit reviewed. -/
def labelling : Run :=
  ⟨[⟨"review", fun _ => some (.str "done")⟩], twinCall (Pool.inOrder · Monitor.stepsPerCommit)⟩

/-- A run without classifiers. -/
def plain : Run := ⟨[], twinCall (Pool.inOrder · Monitor.stepsPerCommit)⟩

/-- A commit was found in the cache without what the classifiers of the run say about it. -/
def unlabelled (a : CommitAnalyzer) (run : Run) :
    Commit × Option (Except PipelineError Verdict) → Bool
  | (c, some (.ok (.cached r))) => r.id == c.id && r.classifications.isEmpty &&
    ((run.analyzer a).analyze c).toOption.any fun own => !own.classifications.isEmpty
  | _ => false

theorem Monitor.mem_impacts {outcomes : Outcomes} {v : Verdict} (h : (c, some (.ok v)) ∈ outcomes) :
    v.record ∈ (report outcomes).impacts := by
  have hverdict : v ∈ verdicts outcomes := List.mem_filterMap.2 ⟨_, h, rfl⟩
  exact (perm_impacts outcomes).mem_iff.2 (List.mem_map_of_mem hverdict)

/-- Where there are outcomes, there is a report on them. -/
theorem perform_of_mem_outcomes {x : Commit × Option (Except PipelineError Verdict)}
    (h : x ∈ call.outcomes a files) :
    (call.perform a files).2 = .ok (Monitor.report (call.outcomes a files)) := by
  cases hperform : (call.perform a files).2 with
  | error e =>
    unfold Call.outcomes at h
    split at h
    · cases h
    · rename_i commits cache opened hprepare
      rw [(perform_ok hprepare).2] at hperform
      cases hperform
  | ok report => rw [(report_of_perform hperform).1]

/-- Of two runs on one directory, neither of them cancelled, the second reports a record without
classifications, as the first had no classifiers, although its own classifier has something to say
about it. -/
theorem hit_serves_other_classifications :
    (∃ report, (plain.perform siblingAnalyzer .empty).2 = .ok report ∧ report.cancelled = false) ∧
    ∃ report, (labelling.perform siblingAnalyzer
        (Run.filesAfter siblingAnalyzer [plain] .empty)).2 = .ok report ∧
      report.cancelled = false ∧
      ∃ r ∈ report.impacts, ∃ c ∈ siblings.commits, r.id = c.id ∧ ∃ own,
        (labelling.analyzer siblingAnalyzer).analyze c = .ok own ∧
          r.classifications ≠ own.classifications := by
  have hfirst : (plain.perform siblingAnalyzer .empty).2.toOption.any
      (fun report => !report.cancelled) = true := by
    decide +kernel
  -- the outcomes are evaluated, not the report: the order of its records does not matter here
  have hsecond : (fun outcomes : Outcomes => outcomes.all (·.2.isSome) &&
      outcomes.any (unlabelled siblingAnalyzer labelling))
        (labelling.call.outcomes (labelling.analyzer siblingAnalyzer)
          (Run.filesAfter siblingAnalyzer [plain] .empty)) = true := by
    decide +kernel
  constructor
  · obtain ⟨report, hreport, hgo⟩ := ok_of_any hfirst
    exact ⟨report, hreport, by simpa using hgo⟩
  · obtain ⟨hall, hlacks⟩ := Bool.and_eq_true_iff.1 hsecond
    obtain ⟨⟨c, x⟩, hmem, hx⟩ := List.any_eq_true.1 hlacks
    have hreport := perform_of_mem_outcomes hmem
    have hselection := (report_of_perform hreport).2
    rcases x with _ | e | r | r
    · cases hx
    · cases hx
    · obtain ⟨hbare, hown⟩ := Bool.and_eq_true_iff.1 hx
      obtain ⟨hid, hempty⟩ := Bool.and_eq_true_iff.1 hbare
      obtain ⟨own, hanalyze, hsays⟩ := ok_of_any hown
      rw [List.isEmpty_iff] at hempty
      rw [Bool.not_eq_true', List.isEmpty_eq_false_iff] at hsays
      have hc : c ∈ siblings.commits :=
        (Except.ok.inj hselection : siblings.commits = _) ▸ List.mem_map_of_mem hmem
      refine ⟨_, hreport, Monitor.cancelled_report_iff.2 (List.all_eq_true.1 hall), r,
        Monitor.mem_impacts hmem, c, hc, by simpa using hid, own, hanalyze, ?_⟩
      rw [hempty]
      exact hsays.symm
    · cases hx

/-- The two records that the second run finds come from the first. -/
theorem reports_have_origin_labelling :
    Run.Ended siblingAnalyzer [plain, labelling] .empty ∧
    ∃ report, (labelling.perform siblingAnalyzer
        (Run.filesAfter siblingAnalyzer [plain] .empty)).2 = .ok report ∧
      (report.analyzed, report.cacheHits) = (0, 2) ∧
      ∀ r ∈ report.impacts, ∃ c ∈ siblings.commits,
        (c, some (.ok (.analyzed r))) ∈ labelling.call.outcomes (labelling.analyzer siblingAnalyzer)
            (Run.filesAfter siblingAnalyzer [plain] .empty) ∧
          (labelling.analyzer siblingAnalyzer).analyze c = .ok r ∨
        (c, some (.ok (.cached r))) ∈ labelling.call.outcomes (labelling.analyzer siblingAnalyzer)
            (Run.filesAfter siblingAnalyzer [plain] .empty) ∧
          Origin siblingAnalyzer "cache" [plain] labelling .empty c r := by
  -- evaluated together, as the files that the first run leaves are the same
  have hruns : Run.Ended siblingAnalyzer ([plain] ++ [labelling]) .empty ∧
      (labelling.perform siblingAnalyzer
        (Run.filesAfter siblingAnalyzer [plain] .empty)).2.toOption.any (fun report =>
          (report.analyzed, report.cacheHits) = (0, 2)) = true := by
    decide +kernel
  obtain ⟨hended, hcounts⟩ := hruns
  obtain ⟨report, hreport, hcounts⟩ := ok_of_any hcounts
  have hroot : ∀ run ∈ [plain] ++ [labelling], run.call.config.cacheDir = "cache" := by
    intro run hrun
    rcases List.mem_append.1 hrun with hmem | hmem
    · rw [List.mem_singleton.1 hmem]
      rfl
    · rw [List.mem_singleton.1 hmem]
      rfl
  obtain ⟨commits, hselection, horigin⟩ :=
    reports_have_origin siblingAnalyzer "cache" [plain] labelling .empty report hroot hended hreport
  obtain rfl : siblings.commits = commits := Except.ok.inj hselection
  exact ⟨hended, report, hreport, by simpa using hcounts, horigin⟩

end Inspection

end ChangeImpact
