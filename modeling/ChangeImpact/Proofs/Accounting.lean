import ChangeImpact.Proofs.Transparency

/-!
# The accounts of an inspection

Every commit that is selected ends up as a record, as a failure, or without a result. The counts of
a report say how many of each there are, and its lists are ordered.

* `CommitRecord.Newer` — the order of records; `Monitor.precedes_iff` — records are sorted by it;
* `Outcomes` — what became of the commits of a run; `Monitor.records`, `Monitor.left` — the records,
  and the commits without a result;
* `Stage.Faithful`, `faithful_batch` — a computed record bears the id of its commit, and an error
  names it, in every state of a run;
* `Accounts`, `inspection_accounts` — what every report satisfies.
-/

namespace ChangeImpact

/-! ## The order of records -/

/-- One point in time is before another. -/
def Instant.Before (t u : Instant) : Prop :=
  t.seconds < u.seconds ∨ t.seconds = u.seconds ∧ t.nanos < u.nanos

theorem Instant.compare_eq_lt {t u : Instant} : compare t u = .lt ↔ t.Before u := by
  show (compare t.seconds u.seconds).then (compare t.nanos u.nanos) = .lt ↔ _
  rw [Ordering.then_eq_lt, Int.compare_eq_lt, Int.compare_eq_eq, Nat.compare_eq_lt, Before]

theorem Instant.compare_eq_eq {t u : Instant} : compare t u = .eq ↔ t = u := by
  show (compare t.seconds u.seconds).then (compare t.nanos u.nanos) = .eq ↔ _
  rw [Ordering.then_eq_eq, Int.compare_eq_eq, Nat.compare_eq_eq]
  cases t
  cases u
  simp

theorem Instant.before_trichotomy (t u : Instant) : t.Before u ∨ t = u ∨ u.Before t := by
  obtain ⟨s, n⟩ := t
  obtain ⟨s', n'⟩ := u
  simp only [Before, Instant.mk.injEq]
  omega

theorem Instant.Before.trans {t u v : Instant} (h : t.Before u) (h' : u.Before v) : t.Before v := by
  unfold Before at *
  omega

theorem Instant.Before.irrefl (t : Instant) : ¬t.Before t := by
  unfold Before
  omega

/-- The later record first, and of records of one time the one with the lesser id. -/
def CommitRecord.Newer (r s : CommitRecord) : Prop :=
  s.timestamp.Before r.timestamp ∨ r.timestamp = s.timestamp ∧ r.id < s.id

namespace CommitRecord

variable {r s u : CommitRecord}

theorem Newer.trans (h : r.Newer s) (h' : s.Newer u) : r.Newer u := by
  rcases h with hlater | ⟨hsame, hid⟩
  · rcases h' with hlater' | ⟨hsame', -⟩
    · exact .inl (hlater'.trans hlater)
    · exact .inl (hsame' ▸ hlater)
  · rcases h' with hlater' | ⟨hsame', hid'⟩
    · exact .inl (hsame ▸ hlater')
    · exact .inr ⟨hsame.trans hsame', String.lt_trans hid hid'⟩

theorem Newer.irrefl (r : CommitRecord) : ¬r.Newer r := by
  rintro (hlater | ⟨-, hid⟩)
  · exact Instant.Before.irrefl _ hlater
  · exact String.lt_irrefl _ hid

/-- Of two records one is newer, unless time and id agree. -/
theorem newer_total (r s : CommitRecord) :
    r.Newer s ∨ (r.timestamp = s.timestamp ∧ r.id = s.id) ∨ s.Newer r := by
  rcases Instant.before_trichotomy r.timestamp s.timestamp with hbefore | hsame | hafter
  · exact .inr (.inr (.inl hbefore))
  · by_cases hlt : r.id < s.id
    · exact .inl (.inr ⟨hsame, hlt⟩)
    by_cases hgt : s.id < r.id
    · exact .inr (.inr (.inr ⟨hsame.symm, hgt⟩))
    · exact .inr (.inl ⟨hsame, String.le_antisymm (String.not_lt.1 hgt) (String.not_lt.1 hlt)⟩)
  · exact .inl (.inl hafter)

end CommitRecord

namespace Inspection

/-- What became of the commits of a run, in the order of the commits. -/
abbrev Outcomes := List (Commit × Option (Except PipelineError Verdict))

namespace Monitor

variable {r s : CommitRecord} {outcomes outcomes' : Outcomes}

/-- Records are sorted by time and id. -/
theorem precedes_iff :
    precedes r s = true ↔ r.Newer s ∨ (r.timestamp = s.timestamp ∧ r.id = s.id) := by
  unfold precedes
  cases hcompare : compare s.timestamp r.timestamp with
  | lt => exact iff_of_true rfl (.inl (.inl (Instant.compare_eq_lt.1 hcompare)))
  | eq =>
    have hsame := Instant.compare_eq_eq.1 hcompare
    have hnot : ¬s.timestamp.Before r.timestamp := by
      rw [hsame]
      exact Instant.Before.irrefl _
    have hlt : compare r.id s.id = .lt ↔ r.id < s.id := compareOfLessAndEq_eq_lt
    rw [CommitRecord.Newer, Ordering.isLE_iff_eq_lt_or_eq_eq, hlt, Std.compare_eq_iff_eq,
      or_iff_right hnot, and_iff_right hsame.symm, and_iff_right hsame.symm]
  | gt =>
    -- the time of `r` is before that of `s`
    have hbefore : r.timestamp.Before s.timestamp := by
      rcases Instant.before_trichotomy r.timestamp s.timestamp with hbefore | hsame | hafter
      · exact hbefore
      · rw [Instant.compare_eq_eq.2 hsame.symm] at hcompare
        cases hcompare
      · rw [Instant.compare_eq_lt.2 hafter] at hcompare
        cases hcompare
    refine iff_of_false (by simp) ?_
    rintro ((hafter | ⟨hsame, -⟩) | ⟨hsame, -⟩)
    · exact Instant.Before.irrefl _ (hbefore.trans hafter)
    · exact Instant.Before.irrefl _ (hsame ▸ hbefore)
    · exact Instant.Before.irrefl _ (hsame ▸ hbefore)

theorem precedes_trans (r s u : CommitRecord) (h : precedes r s = true)
    (h' : precedes s u = true) : precedes r u = true := by
  rw [precedes_iff] at *
  rcases h with hnewer | ⟨htime, hid⟩
  · rcases h' with hnewer' | ⟨htime', hid'⟩
    · exact .inl (hnewer.trans hnewer')
    · rw [CommitRecord.Newer, htime', hid'] at hnewer
      exact .inl hnewer
  · rw [CommitRecord.Newer, htime, hid]
    exact h'

theorem precedes_total (r s : CommitRecord) : (precedes r s || precedes s r) = true := by
  rw [Bool.or_eq_true, precedes_iff, precedes_iff]
  rcases CommitRecord.newer_total r s with hnewer | hsame | hnewer
  · exact .inl (.inl hnewer)
  · exact .inl (.inr hsame)
  · exact .inr (.inl hnewer)

/-- Records with different ids have one arrangement in which every record is newer than those after
it, and sorting finds it. -/
theorem pairwise_sort {records : List CommitRecord} (hids : (records.map (·.id)).Nodup) :
    (records.mergeSort precedes).Pairwise CommitRecord.Newer := by
  have hperm : ((records.mergeSort precedes).map (·.id)).Nodup :=
    ((List.mergeSort_perm records precedes).map _).nodup_iff.2 hids
  have hdistinct : (records.mergeSort precedes).Pairwise fun r s => r.id ≠ s.id :=
    List.pairwise_map.1 hperm
  refine (hdistinct.and (List.pairwise_mergeSort precedes_trans precedes_total records)).imp ?_
  rintro r s ⟨hne, hprecedes⟩
  rcases precedes_iff.1 hprecedes with hnewer | ⟨-, hid⟩
  · exact hnewer
  · exact absurd hid hne

theorem eq_of_pairwise_newer {l l' : List CommitRecord} (hl : l.Pairwise CommitRecord.Newer)
    (hl' : l'.Pairwise CommitRecord.Newer) (hperm : l.Perm l') : l = l' := by
  refine hperm.eq_of_pairwise ?_ hl hl'
  intro r s _ _ hrs hsr
  exact absurd (hrs.trans hsr) (CommitRecord.Newer.irrefl r)

/-! ## Counts -/

/-- The records of the commits that have one. -/
def records (outcomes : Outcomes) : List CommitRecord := (verdicts outcomes).map (·.record)

/-- The commits without a result. -/
def left (outcomes : Outcomes) : List Commit :=
  outcomes.filterMap fun
    | (c, none) => some c
    | _ => none

theorem length_outcomes (outcomes : Outcomes) :
    outcomes.length =
      (verdicts outcomes).length + (failures outcomes).length + (left outcomes).length := by
  induction outcomes with
  | nil => rfl
  | cons outcome outcomes ih =>
    rcases outcome with ⟨c, _ | e | v⟩
    all_goals
      simp only [verdicts, failures, left, List.filterMap_cons, List.length_cons] at ih ⊢
      omega

theorem length_verdicts (outcomes : Outcomes) : (verdicts outcomes).length =
    (report outcomes).analyzed + (report outcomes).cacheHits := by
  simp only [report]
  induction verdicts outcomes with
  | nil => rfl
  | cons v vs ih => cases v <;> simp [ih] <;> omega

/-- Every record bears the id of its commit. -/
def Named (outcomes : Outcomes) : Prop :=
  ∀ c v, (c, some (.ok v)) ∈ outcomes → v.record.id = c.id

/-- The ids of records, failures and commits without a result are the ids of all commits. -/
theorem perm_ids (h : Named outcomes) :
    ((records outcomes).map (·.id) ++ (failures outcomes).map (·.1.id) ++
      (left outcomes).map (·.id)).Perm (outcomes.map (·.1.id)) := by
  rw [List.perm_iff_count]
  intro id
  induction outcomes with
  | nil => rfl
  | cons outcome outcomes ih =>
    have hrest := ih fun c v hmem => h c v (List.mem_cons_of_mem _ hmem)
    rcases outcome with ⟨c, _ | e | v⟩
    · simp only [records, verdicts, failures, left, List.filterMap_cons, List.map_cons,
        List.count_append, List.count_cons] at hrest ⊢
      omega
    · simp only [records, verdicts, failures, left, List.filterMap_cons, List.map_cons,
        List.count_append, List.count_cons] at hrest ⊢
      omega
    · have hid := h c v List.mem_cons_self
      simp only [records, verdicts, failures, left, List.filterMap_cons, List.map_cons,
        List.count_append, List.count_cons, hid] at hrest ⊢
      omega

theorem perm_records (h : outcomes'.Perm outcomes) : (records outcomes').Perm (records outcomes) :=
  (h.filterMap _).map _

theorem mem_left_iff {c : Commit} : c ∈ left outcomes ↔ (c, none) ∈ outcomes := by
  rw [left, List.mem_filterMap]
  constructor
  · rintro ⟨⟨c', _ | x⟩, hmem, hx⟩
    · obtain rfl := Option.some.inj hx
      exact hmem
    · cases hx
  · exact fun hmem => ⟨_, hmem, rfl⟩

theorem cancelled_report_iff_left :
    (report outcomes).cancelled = true ↔ 0 < (left outcomes).length := by
  rw [List.length_pos_iff_exists_mem, ← Bool.not_eq_false, cancelled_report_iff]
  push Not
  constructor
  · rintro ⟨⟨c, x⟩, hmem, hx⟩
    have hnone : x = none := by simpa using hx
    exact ⟨c, mem_left_iff.2 (hnone ▸ hmem)⟩
  · rintro ⟨c, hc⟩
    exact ⟨_, mem_left_iff.1 hc, by simp⟩

end Monitor

end Inspection

/-! ## What a worker returns names its commit -/

namespace Inspection

/-- A worker is busy with its commit, and a record that it has computed bears the id of it. -/
def Stage.Faithful (c : Commit) : Stage → Prop
  | .lookUp c' | .compute c' | .announce c' (.cached _) => c' = c
  | .save c' r _ | .announce c' (.analyzed r) => c' = c ∧ r.id = c.id

/-- A computed record bears the id of its commit, and an error names it. -/
def Faithful (c : Commit) : Except PipelineError Verdict → Prop
  | .ok (.cached _) => True
  | .ok (.analyzed r) => r.id = c.id
  | .error e => e.AttributedTo c.id

theorem Monitor.step_faithful (m : Monitor) (cache : CommitCache) (s : Session) {c : Commit}
    {stage : Stage} (h : stage.Faithful c) :
    Sum.elim (Stage.Faithful c) (Faithful c) (m.step cache s stage).2 := by
  unfold step
  cases stage with
  | lookUp c' =>
    obtain rfl : c' = c := h
    dsimp only
    split
    · exact PipelineError.attributedTo_forCommit rfl
    · exact rfl
    · exact rfl
  | compute c' =>
    obtain rfl : c' = c := h
    dsimp only
    split
    · rename_i e hanalyze
      exact CommitAnalyzer.attributed_of_analyze hanalyze
    · rename_i r hanalyze
      exact ⟨rfl, CommitAnalyzer.id_of_analyze hanalyze⟩
  | save c' r store =>
    dsimp only
    split
    · exact h
    · exact h
  | announce c' v =>
    cases v with
    | cached r => trivial
    | analyzed r => exact h.2

/-- In every state of a run, what workers have returned is faithful. -/
theorem Monitor.faithful_batch (m : Monitor) (cache : CommitCache) (commits : List Commit)
    (schedule : List PoolAction) (s : Session) :
    Pool.Sound (fun _ => True) Stage.Faithful Faithful commits
      (Pool.run (m.task cache) commits schedule (Pool.init s commits)) := by
  refine Pool.Sound.run_of_step (Pool.sound_init trivial) (fun _ _ => trivial) (fun c _ => rfl) ?_
  intro c _ s stage _ hstage
  exact ⟨trivial, m.step_faithful cache s hstage⟩

/-! ## Accounts -/

/-- What became of the commits that an inspection selects; of none, if it does not get as far as its
pool. -/
def Call.outcomes (a : CommitAnalyzer) (call : Call) (files : FileTree) : Outcomes :=
  match (call.monitor a).prepare (call.session files) with
  | .error _ => []
  | .ok (commits, cache, opened) =>
    commits.zip (call.batch a commits cache opened (call.schedule commits.length)).results

/-- The accounts of a report are in order. -/
structure Accounts (commits : List Commit) (outcomes : Outcomes) (report : Report) : Prop where
  listed : outcomes.map (·.1) = commits
  /-- Every selected commit has a record, or is listed as failed, or was left without a result. -/
  exactly_one : ∀ c ∈ commits,
    (c.id ∈ report.impacts.map (·.id) ∧ c.id ∉ report.failures.map (·.commit) ∧
      (c, none) ∉ outcomes) ∨
    (c.id ∉ report.impacts.map (·.id) ∧ c.id ∈ report.failures.map (·.commit) ∧
      (c, none) ∉ outcomes) ∨
    (c.id ∉ report.impacts.map (·.id) ∧ c.id ∉ report.failures.map (·.commit) ∧
      (c, none) ∈ outcomes)
  /-- No commit is there twice, and nothing else is there. -/
  once : (report.impacts.map (·.id) ++ report.failures.map (·.commit) ++
    (Monitor.left outcomes).map (·.id)).Perm (commits.map (·.id))
  selected : report.selected = commits.length
  impacts_length : report.impacts.length = report.analyzed + report.cacheHits
  balance : report.selected = report.analyzed + report.cacheHits + report.failed + report.notRun
  /-- What is subtracted for `notRun` and for `skippedFraction` is never too much. -/
  not_too_many : report.analyzed + report.cacheHits + report.failed ≤ report.selected ∧
    report.impacts.length ≤ report.selected
  notRun : report.notRun = (Monitor.left outcomes).length
  cancelled_iff : report.cancelled = true ↔ 0 < report.notRun
  failures_listed : (report.failures.map (·.commit)).Sublist (commits.map (·.id))
  /-- A failure names its commit, and so does the error that it stands for. -/
  failures_named : ∀ failure ∈ report.failures, ∃ c cause,
    (c, some (.error (.commit c.id cause))) ∈ outcomes ∧
      failure = .ofError c.id (.commit c.id cause)
  impacts_perm : report.impacts.Perm (Monitor.records outcomes)
  impacts_sorted : report.impacts.Pairwise CommitRecord.Newer
  /-- There is no other arrangement of the records in this order, -/
  impacts_unique : ∀ l : List CommitRecord, l.Perm (Monitor.records outcomes) →
    l.Pairwise CommitRecord.Newer → l = report.impacts
  /-- so that it does not matter in which order the commits are listed. -/
  impacts_independent : ∀ outcomes' : Outcomes, outcomes'.Perm outcomes →
    (Monitor.report outcomes').impacts = report.impacts

namespace Monitor

variable {outcomes : Outcomes}

theorem commits_failures_report : (report outcomes).failures.map (·.commit) =
    (failures outcomes).map (·.1.id) := by
  simp [report, CommitFailure.ofError]

/-- Failures are listed in the order of the commits. -/
theorem sublist_failures (outcomes : Outcomes) :
    ((failures outcomes).map (·.1.id)).Sublist (outcomes.map (·.1.id)) := by
  induction outcomes with
  | nil => exact .slnil
  | cons outcome outcomes ih =>
    rcases outcome with ⟨c, _ | e | v⟩
    · exact ih.cons _
    · exact ih.cons_cons _
    · exact ih.cons _

theorem mem_failures_iff {c : Commit} {e : PipelineError} :
    (c, e) ∈ failures outcomes ↔ (c, some (.error e)) ∈ outcomes := by
  rw [failures, List.mem_filterMap]
  constructor
  · rintro ⟨⟨c', _ | e' | v⟩, hmem, hx⟩
    · cases hx
    · obtain ⟨rfl, rfl⟩ := Prod.mk.inj (Option.some.inj hx)
      exact hmem
    · cases hx
  · exact fun hmem => ⟨_, hmem, rfl⟩

theorem perm_impacts (outcomes : Outcomes) : (report outcomes).impacts.Perm (records outcomes) :=
  List.mergeSort_perm _ _

/-- The accounts of a report are in order if the outcomes bear the ids of their commits, and the
commits are told apart by them. -/
theorem accounts_report (hnamed : Named outcomes) (hids : (outcomes.map (·.1.id)).Nodup)
    (herrors : ∀ c e, (c, some (.error e)) ∈ outcomes → ∃ cause, e = .commit c.id cause) :
    Accounts (outcomes.map (·.1)) outcomes (report outcomes) := by
  have hcommits : (outcomes.map (·.1)).map (·.id) = outcomes.map (·.1.id) := by simp
  have hperm : ((report outcomes).impacts.map (·.id) ++ (report outcomes).failures.map (·.commit) ++
      (left outcomes).map (·.id)).Perm (outcomes.map (·.1.id)) := by
    rw [commits_failures_report]
    exact ((((perm_impacts outcomes).map _).append_right _).append_right _).trans (perm_ids hnamed)
  -- nothing is counted twice
  obtain ⟨hlisted, -, hleft⟩ := List.nodup_append'.1 (hperm.nodup_iff.2 hids)
  obtain ⟨-, -, hfailed⟩ := List.nodup_append'.1 hlisted
  have hrecords : ((records outcomes).map (·.id)).Nodup :=
    ((perm_impacts outcomes).map _).nodup_iff.1 (List.nodup_append'.1 hlisted).1
  have himpacts : (report outcomes).impacts.length =
      (report outcomes).analyzed + (report outcomes).cacheHits := by
    rw [← length_verdicts, (perm_impacts outcomes).length_eq, records, List.length_map]
  have hselected : (report outcomes).selected = (report outcomes).analyzed +
      (report outcomes).cacheHits + (report outcomes).failed + (left outcomes).length := by
    have hlength := length_outcomes outcomes
    rw [length_verdicts] at hlength
    have hfailures : (report outcomes).failed = (failures outcomes).length := List.length_map _
    rw [hfailures]
    exact hlength
  have hnotRun : (report outcomes).notRun = (left outcomes).length := by
    unfold Report.notRun
    omega
  have hsorted : (report outcomes).impacts.Pairwise CommitRecord.Newer := pairwise_sort hrecords
  exact {
    listed := rfl
    exactly_one := by
      intro c hc
      have hid : c.id ∈ outcomes.map (·.1.id) := hcommits ▸ List.mem_map_of_mem hc
      have hnone : c.id ∈ (left outcomes).map (·.id) ↔ (c, none) ∈ outcomes := by
        rw [← mem_left_iff]
        refine ⟨fun hmem => ?_, fun hmem => List.mem_map_of_mem hmem⟩
        obtain ⟨c', hc', hsame⟩ := List.mem_map.1 hmem
        have hlists : c' ∈ outcomes.map (·.1) := List.mem_map_of_mem (mem_left_iff.1 hc')
        rwa [← List.inj_on_of_nodup_map (hcommits ▸ hids) hlists hc hsame]
      rw [← hnone]
      rcases List.mem_append.1 (hperm.mem_iff.2 hid) with hresult | hwithout
      · rcases List.mem_append.1 hresult with hrecord | hfailure
        · exact .inl ⟨hrecord, hfailed hrecord, hleft hresult⟩
        · exact .inr (.inl ⟨fun hrecord => hfailed hrecord hfailure, hfailure, hleft hresult⟩)
      · refine .inr (.inr ⟨fun hrecord => ?_, fun hfailure => ?_, hwithout⟩)
        · exact hleft (List.mem_append_left _ hrecord) hwithout
        · exact hleft (List.mem_append_right _ hfailure) hwithout
    once := hcommits ▸ hperm
    selected := (List.length_map _).symm
    impacts_length := himpacts
    balance := by rw [hnotRun, hselected]
    not_too_many := by omega
    notRun := hnotRun
    cancelled_iff := hnotRun ▸ cancelled_report_iff_left
    failures_listed := by
      rw [commits_failures_report, hcommits]
      exact sublist_failures outcomes
    failures_named := by
      intro failure hfailure
      obtain ⟨⟨c, e⟩, hmem, rfl⟩ := List.mem_map.1 hfailure
      have herror := mem_failures_iff.1 hmem
      obtain ⟨cause, rfl⟩ := herrors c e herror
      exact ⟨c, cause, herror, rfl⟩
    impacts_perm := perm_impacts outcomes
    impacts_sorted := hsorted
    impacts_unique := by
      intro l hl hnewer
      exact eq_of_pairwise_newer hnewer hsorted (hl.trans (perm_impacts outcomes).symm)
    impacts_independent := by
      intro outcomes' hsame
      have hrecords' : ((records outcomes').map (·.id)).Nodup :=
        ((perm_records hsame).map _).nodup_iff.2 hrecords
      exact eq_of_pairwise_newer (pairwise_sort hrecords') hsorted
        ((perm_impacts outcomes').trans ((perm_records hsame).trans (perm_impacts outcomes).symm)) }

end Monitor

variable {a : CommitAnalyzer} {call : Call} {files : FileTree} {report : Report}

/-- A report is the one on the outcomes, and those are about the commits of the selection. -/
theorem report_of_perform (h : (call.perform a files).2 = .ok report) :
    report = Monitor.report (call.outcomes a files) ∧
      call.selection a = .ok ((call.outcomes a files).map (·.1)) := by
  unfold Call.outcomes
  cases hprepare : (call.monitor a).prepare (call.session files) with
  | error e =>
    rw [perform_error hprepare] at h
    cases h
  | ok found =>
    obtain ⟨commits, cache, opened⟩ := found
    rw [(perform_ok hprepare).2] at h
    have hlength : commits.length =
        (call.batch a commits cache opened (call.schedule commits.length)).results.length := by
      rw [Pool.results, List.length_map, (steady_call a call commits cache opened _).length_slots]
    refine ⟨(Except.ok.inj h).symm, ?_⟩
    rw [(prepare_ok hprepare).1]
    exact congrArg _ (List.map_fst_zip (Nat.le_of_eq hlength)).symm

/-- What an inspection makes of a commit is faithful. -/
theorem faithful_of_mem_outcomes {c : Commit} {b : Except PipelineError Verdict}
    (h : (c, some b) ∈ call.outcomes a files) : Faithful c b := by
  unfold Call.outcomes at h
  split at h
  · cases h
  · rename_i commits cache opened hprepare
    exact ((call.monitor a).faithful_batch cache commits _ _).of_mem_zip h

/-- Whatever the cache holds, whatever becomes of the commits, under every schedule and wherever it
is cancelled: if the commits that it selects have different ids, and the records that it takes from
the cache bear the ids of their commits, then the accounts of its report are in order. -/
theorem inspection_accounts (a : CommitAnalyzer) (call : Call) (files : FileTree)
    (commits : List Commit) (report : Report) (hselection : call.selection a = .ok commits)
    (hids : (commits.map (·.id)).Nodup)
    (hcached : ∀ c r, (c, some (.ok (.cached r))) ∈ call.outcomes a files → r.id = c.id)
    (hreport : (call.perform a files).2 = .ok report) :
    Accounts commits (call.outcomes a files) report := by
  obtain ⟨rfl, hlisted⟩ := report_of_perform hreport
  obtain rfl := Except.ok.inj (hlisted.symm.trans hselection)
  refine Monitor.accounts_report ?_ (by rwa [List.map_map] at hids) ?_
  · intro c v hmem
    cases v with
    | cached r => exact hcached c r hmem
    | analyzed r => exact faithful_of_mem_outcomes hmem
  · intro c e hmem
    obtain ⟨cause, rfl, -⟩ := faithful_of_mem_outcomes hmem
    exact ⟨cause, rfl⟩

/-- Two of three commits are begun, the third is withdrawn. -/
def halfway (_ : Nat) : List PoolAction :=
  [.submit, .submit, .submit, .start 1, .start 2] ++
    (List.replicate 3 [.advance 1, .advance 2]).flatten ++ [.cancel, .start 0]

/-- What an inspection leaves that was cancelled: one of two commits of one slot. -/
def halfFull : FileTree := filesAfter twinAnalyzer [twinCall inTurn] .empty

/-- A record from the cache bears the id of its commit. -/
def bearsId : Commit × Option (Except PipelineError Verdict) → Bool
  | (c, some (.ok (.cached r))) => r.id == c.id
  | _ => true

/-- An inspection takes one commit from the cache, fails at another and leaves the third. -/
theorem inspection_accounts_halfway :
    ∃ report, ((twinCall halfway).perform twinAnalyzer halfFull).2 = .ok report ∧
      (report.analyzed, report.cacheHits, report.failed, report.notRun) = (0, 1, 1, 1) ∧
      Accounts twins.commits ((twinCall halfway).outcomes twinAnalyzer halfFull) report := by
  have hcounts : ((twinCall halfway).perform twinAnalyzer halfFull).2.toOption.map (fun report =>
      (report.analyzed, report.cacheHits, report.failed, report.notRun)) = some (0, 1, 1, 1) := by
    decide +kernel
  have hall : ((twinCall halfway).outcomes twinAnalyzer halfFull).all bearsId = true := by
    decide +kernel
  have hcached : ∀ c r, (c, some (.ok (.cached r))) ∈
      (twinCall halfway).outcomes twinAnalyzer halfFull → r.id = c.id := by
    intro c r hmem
    exact beq_iff_eq.1 (List.all_eq_true.1 hall _ hmem)
  cases hreport : ((twinCall halfway).perform twinAnalyzer halfFull).2 with
  | error e =>
    rw [hreport] at hcounts
    cases hcounts
  | ok report =>
    rw [hreport] at hcounts
    exact ⟨report, rfl, Option.some.inj hcounts, inspection_accounts twinAnalyzer
      (twinCall halfway) halfFull twins.commits report rfl (by decide) hcached hreport⟩

end Inspection

end ChangeImpact
