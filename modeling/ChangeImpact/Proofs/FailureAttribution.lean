import ChangeImpact.Proofs.EventTrace

/-!
# Which commit a failure belongs to

An error at a commit says so exactly once: around an error that names no commit stands the name of
the commit. Wherever the history or the cache fails, a commit either has its record or it has such
an error and nothing of it was kept: a worker whose commit fails has changed nothing that workers
share.

* `Pool.past_run` — a task that has come so far that it can no longer fail does not fail;
* `Stage.HasRecord`, `Monitor.quiet_of_error` — a worker whose commit fails leaves the session
  alone;
* `Attribution`, `Inspection.failures_attributed` — for analyses, workers and reports.
-/

namespace ChangeImpact

/-- The range from the first parent to a commit is the commit, if names of commits stand for
themselves. -/
theorem CommitAnalyzer.range_eq_analyze {a : CommitAnalyzer} {c : Commit} {parent : String}
    (hparent : c.firstParent = some parent) (hbase : a.history.resolve parent = .ok parent)
    (htip : a.history.resolve c.id = .ok c.id) (hcommit : a.history.commit c.id = .ok c) :
    a.range parent c.id = a.analyze c := by
  unfold range analyze
  rw [hparent, hbase, htip]
  simp only [Except.mapError, bind, Except.bind, hcommit]

/-! ## Tasks that can no longer fail -/

/-- A task under way satisfies `R`, or its result satisfies `D`. -/
def PoolSlot.Past {τ β : Type} (R : τ → Prop) (D : β → Prop) : PoolSlot τ β → Prop
  | .running t => R t
  | .done b => D b
  | .unsubmitted | .queued | .dropped => False

namespace Pool

variable {σ α τ β : Type} {task : PoolTask σ α τ β} {items : List α} {p p' : Pool σ τ β} {i : Nat}
  {R : τ → Prop} {D : β → Prop}

/-- From the next item on, none has been submitted. -/
theorem fresh_run (schedule : List PoolAction) (s : σ) (j : Nat) (x : PoolSlot τ β)
    (hj : (run task items schedule (init s items)).next ≤ j)
    (hx : (run task items schedule (init s items)).slots[j]? = some x) : x = .unsubmitted := by
  have hlogs : Logs task (fun _ => ([] : List Unit)) (fun _ => none) fun _ _ => True :=
    ⟨fun _ => rfl, fun _ => trivial, fun _ _ _ _ _ _ _ => ⟨rfl, trivial⟩, fun _ _ _ _ _ _ _ => rfl⟩
  exact (logged_run hlogs schedule s).fresh j x hj hx

/-- One action keeps a slot that is past. -/
theorem past_happens {action : PoolAction} {e : Option (PoolEvent β)}
    (hfresh : ∀ (j : Nat) x, p.next ≤ j → p.slots[j]? = some x → x = .unsubmitted)
    (hstep : ∀ s t, R t → Sum.elim R D (task.step s t).2)
    (h : ∃ x, p.slots[i]? = some x ∧ x.Past R D) (hhappens : Happens task items p action e p') :
    ∃ x, p'.slots[i]? = some x ∧ x.Past R D := by
  rcases h with ⟨x, hx, hpast⟩
  have hlt : i < p.slots.length := (List.getElem?_eq_some_iff.1 hx).1
  -- another slot may change in any way
  have hother {j : Nat} {y : PoolSlot τ β} (hj : j ≠ i) :
      ∃ x, (p.slots.set j y)[i]? = some x ∧ x.Past R D :=
    ⟨x, by rw [List.getElem?_set_ne hj, hx], hpast⟩
  have hqueued {j : Nat} (hslot : p.slots[j]? = some .queued) : j ≠ i := by
    rintro rfl
    cases hx.symm.trans hslot
    exact hpast
  have hsubmit : p.next ≠ i := by
    rintro rfl
    rw [hfresh _ x (Nat.le_refl _) hx] at hpast
    exact hpast
  cases hhappens with
  | idle | close | cancel => exact ⟨x, hx, hpast⟩
  | submit | surplus => exact hother hsubmit
  | drop j hslot => exact hother (hqueued hslot)
  | start j b hslot => exact hother (hqueued hslot)
  | advance j t t' s hslot hadvance =>
    by_cases hj : j = i
    · subst hj
      cases hx.symm.trans hslot
      have hnext := hstep p.shared t hpast
      rw [hadvance] at hnext
      exact ⟨.running t', List.getElem?_set_self hlt, hnext⟩
    · exact hother hj
  | finish j t b s hslot hfinish =>
    by_cases hj : j = i
    · subst hj
      cases hx.symm.trans hslot
      have hnext := hstep p.shared t hpast
      rw [hfinish] at hnext
      exact ⟨.done b, List.getElem?_set_self hlt, hnext⟩
    · exact hother hj

/-- A slot that is past stays so, whatever happens later. -/
theorem past_run {first : List PoolAction} {s : σ}
    (hstep : ∀ s t, R t → Sum.elim R D (task.step s t).2)
    (h : ∃ x, (run task items first (init s items)).slots[i]? = some x ∧ x.Past R D)
    (rest : List PoolAction) :
    ∃ x, (run task items (first ++ rest) (init s items)).slots[i]? = some x ∧ x.Past R D := by
  induction rest using List.reverseRecOn with
  | nil => rwa [List.append_nil]
  | append_singleton rest action ih =>
    rw [← List.append_assoc, run_append]
    exact past_happens (fresh_run (first ++ rest) s) hstep ih (happens_step task items _ action)

end Pool

namespace Inspection

/-! ## Workers -/

/-- The record of the commit is at hand, and with it the commit cannot fail any more. -/
def Stage.HasRecord : Stage → Prop
  | .lookUp _ | .compute _ => False
  | .save _ _ _ | .announce _ _ => True

/-- A worker that has a record goes on with it to the end. -/
theorem Monitor.step_hasRecord (m : Monitor) (cache : CommitCache) (s : Session) (stage : Stage)
    (h : stage.HasRecord) :
    Sum.elim Stage.HasRecord (fun b => ∃ v, b = .ok v) (m.step cache s stage).2 := by
  unfold step
  cases stage with
  | lookUp | compute => cases h
  | save c r store =>
    dsimp only
    split
    · exact trivial
    · exact trivial
  | announce c v => exact ⟨v, rfl⟩

/-- Until a worker has a record it only reads. -/
theorem Monitor.step_reads (m : Monitor) (cache : CommitCache) (s : Session) (stage : Stage)
    (h : ¬stage.HasRecord) : (m.step cache s stage).1 = s := by
  unfold step
  cases stage with
  | save | announce => exact absurd trivial h
  | lookUp c | compute c =>
    dsimp only
    split <;> rfl

section Batch

variable (m : Monitor) (cache : CommitCache) (commits : List Commit) (s : Session)

/-- A worker whose commit fails in the end leaves the session alone whenever it acts. -/
theorem Monitor.quiet_of_error {first rest : List PoolAction} {i : Nat} {e : PipelineError}
    (h : (Pool.run (m.task cache) commits (first ++ [.advance i] ++ rest)
      (Pool.init s commits)).slots[i]? = some (.done (.error e))) :
    (Pool.run (m.task cache) commits (first ++ [.advance i]) (Pool.init s commits)).shared =
      (Pool.run (m.task cache) commits first (Pool.init s commits)).shared := by
  have hhappens := Pool.happens_step (m.task cache) commits
    (Pool.run (m.task cache) commits first (Pool.init s commits)) (.advance i)
  -- with a record at hand the commit could not have failed
  have hreads : ∀ stage, (Pool.run (m.task cache) commits first (Pool.init s commits)).slots[i]? =
      some (.running stage) → ¬stage.HasRecord := by
    intro stage hslot hrecord
    rw [List.append_assoc] at h
    obtain ⟨x, hx, hpast⟩ := Pool.past_run (R := Stage.HasRecord) (m.step_hasRecord cache)
      ⟨.running stage, hslot, hrecord⟩ ([.advance i] ++ rest)
    cases hx.symm.trans h
    rcases hpast with ⟨v, hv⟩
    cases hv
  rw [Pool.run_append]
  change (Pool.step (m.task cache) commits (Pool.run (m.task cache) commits first
    (Pool.init s commits)) (.advance i)).shared = _
  generalize Pool.run (m.task cache) commits first (Pool.init s commits) = p at hhappens hreads
  generalize Pool.step (m.task cache) commits p (.advance i) = p',
    Pool.event? (m.task cache) commits p (.advance i) = seen at hhappens ⊢
  cases hhappens with
  | idle => rfl
  | advance _ stage _ s' hslot hstep | finish _ stage _ s' hslot hstep =>
    have hsame := m.step_reads cache p.shared stage (hreads stage hslot)
    rw [show m.step cache p.shared stage = _ from hstep] at hsame
    exact hsame

end Batch

/-! ## Attribution -/

/-- Failures are attributed to commits. -/
structure Attribution (a : CommitAnalyzer) : Prop where
  /-- An error of the analysis of a commit names the commit, once; -/
  commit : ∀ c e, a.analyze c = .error e → e.AttributedTo c.id
  /-- an error of the analysis of a range names the end of the range as it was given. -/
  range : ∀ source target e, a.range source target = .error e → e.AttributedTo target
  /-- In an inspection, at every moment, an error that a worker has returned names its commit, once,
  and the worker has not touched the files, nor anything else that is shared. -/
  worker : ∀ (call : Call) commits cache opened actions (i : Nat) c e, commits[i]? = some c →
    (call.batch a commits cache opened actions).slots[i]? = some (.done (.error e)) →
      e.AttributedTo c.id ∧ ∀ first, first ++ [.advance i] <+: actions →
        (call.batch a commits cache opened (first ++ [.advance i])).shared =
          (call.batch a commits cache opened first).shared
  /-- A report lists a failure for every such error, -/
  listed : ∀ (call : Call) files report, (call.perform a files).2 = .ok report →
    ∀ c e, (c, some (.error e)) ∈ call.outcomes a files → .ofError c.id e ∈ report.failures
  /-- and every failure is that of an error at its commit: it has the code of the cause, which is
  never the code of an error at a commit. -/
  failure : ∀ (call : Call) files report, (call.perform a files).2 = .ok report →
    ∀ failure ∈ report.failures, failure.code ≠ "COMMIT_FAILED" ∧ ∃ c cause,
      (c, some (.error (.commit c.id cause))) ∈ call.outcomes a files ∧ cause.atCommit? = none ∧
        failure = ⟨c.id, cause.code, (PipelineError.commit c.id cause).message⟩
  /-- Where names of commits stand for themselves, a commit and the range from its first parent have
  the same record or the same error. -/
  agree : ∀ c parent, c.firstParent = some parent → a.history.resolve parent = .ok parent →
    a.history.resolve c.id = .ok c.id → a.history.commit c.id = .ok c →
      a.range parent c.id = a.analyze c

/-- A report lists the errors that were returned. -/
theorem Monitor.mem_failures_report {outcomes : Outcomes} {failure : CommitFailure} :
    failure ∈ (report outcomes).failures ↔
      ∃ c e, (c, some (.error e)) ∈ outcomes ∧ CommitFailure.ofError c.id e = failure := by
  have hlist : (report outcomes).failures =
      (failures outcomes).map fun failed => .ofError failed.1.id failed.2 := rfl
  simp only [hlist, List.mem_map, Prod.exists, mem_failures_iff]

/-- Whatever calls of the history or reads of the cache fail, and under every schedule, failures are
attributed to the commits at which they occurred. -/
theorem failures_attributed (a : CommitAnalyzer) : Attribution a where
  commit _ _ h := CommitAnalyzer.attributed_of_analyze h
  range _ _ _ h := CommitAnalyzer.attributed_of_range h
  worker := by
    intro call commits cache opened actions i c e hc hdone
    have hsound := (call.monitor a).faithful_batch cache commits actions
      ((call.monitor a).tell (.inspectionStarted call.config.branch commits.length)
        (call.session opened))
    refine ⟨hsound.done i c (.error e) hc hdone, ?_⟩
    rintro first ⟨rest, rfl⟩
    exact (call.monitor a).quiet_of_error cache commits _ hdone
  listed := by
    intro call files report hreport c e herror
    rcases report_of_perform hreport with ⟨rfl, -⟩
    exact Monitor.mem_failures_report.2 ⟨c, e, herror, rfl⟩
  failure := by
    intro call files report hreport failure hfailure
    rcases report_of_perform hreport with ⟨rfl, -⟩
    rcases Monitor.mem_failures_report.1 hfailure with ⟨c, e, herror, rfl⟩
    rcases faithful_of_mem_outcomes herror with ⟨cause, rfl, hcause⟩
    exact ⟨PipelineError.code_ne_of_atCommit? hcause, c, cause, herror, hcause, rfl⟩
  agree _ _ hparent hbase htip hcommit :=
    CommitAnalyzer.range_eq_analyze hparent hbase htip hcommit

end Inspection

end ChangeImpact
