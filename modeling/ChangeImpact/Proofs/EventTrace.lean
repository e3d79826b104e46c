import ChangeImpact.Proofs.Accounting
import ChangeImpact.Proofs.WorkerCrews

/-!
# The events of an inspection

Workers tell of the commits that they are done with, in the order in which they get done. What the
audience is told altogether follows the report: one event opens the inspection, there is one for
every commit with a record, then one for every failure, and one closes it. An inspection that does
not get as far as its workers tells nothing and writes no file.

* `Pool.returned` — what the tasks of a batch have returned; `Pool.Logs`, `Pool.logged_run` — a log
  that every task adds to when it returns, and only then, lists all of it, under every schedule;
* `Dispatcher.notes` — what the observers note of an event; `Monitor.Heard` — they note every event
  that is told, whoever of them fails;
* `Monitor.Fatal` — why an inspection ends before its first event;
* `Monitor.Trace`, `Monitor.inspection_traced` — what is told in an inspection.
-/

namespace ChangeImpact

/-! ## Tasks that log what they return -/

namespace Pool

variable {σ α τ β ε : Type} {task : PoolTask σ α τ β} {items : List α} {p p' : Pool σ τ β}
  {slots : List (PoolSlot τ β)} {i : Nat} {x y : PoolSlot τ β} {a : α} {b : β}

/-- An item with what its task has returned, if it has returned. -/
def returnedBy : α × Option β → Option (α × β)
  | (a, some b) => some (a, b)
  | (_, none) => none

/-- The items whose tasks have returned, with what they have returned, in the order of the items. -/
def returned (items : List α) (slots : List (PoolSlot τ β)) : List (α × β) :=
  (items.zip (slots.map (·.result?))).filterMap returnedBy

/-- As long as its task has not returned, it does not matter what becomes of an item. -/
theorem returned_set_of_none (hslot : slots[i]? = some x) (hx : x.result? = none)
    (hy : y.result? = none) : returned items (slots.set i y) = returned items slots := by
  have hresult : (slots.map (·.result?))[i]? = some none := by
    rw [List.getElem?_map, hslot, ← hx]
    rfl
  have hsame : (slots.set i y).map (·.result?) = slots.map (·.result?) := by
    refine List.ext_getElem? fun j => ?_
    rw [List.map_set, hy]
    by_cases hj : i = j
    · subst hj
      have hlt := (List.getElem?_eq_some_iff.1 hresult).1
      rw [List.getElem?_set_self hlt, hresult]
    · rw [List.getElem?_set_ne hj]
  rw [returned, hsame, returned]

/-- A task that returns adds one item to those that have returned. -/
theorem perm_returned_set (hslot : slots[i]? = some x) (hx : x.result? = none)
    (ha : items[i]? = some a) :
    (returned items (slots.set i (.done b))).Perm ((a, b) :: returned items slots) := by
  induction items generalizing slots i with
  | nil => cases ha
  | cons a' items ih =>
    cases slots with
    | nil => cases hslot
    | cons x' slots =>
      cases i with
      | zero =>
        obtain rfl : x' = x := Option.some.inj hslot
        obtain rfl : a' = a := Option.some.inj ha
        have hdone : (PoolSlot.done b : PoolSlot τ β).result? = some b := rfl
        simp only [returned, returnedBy, List.set_cons_zero, List.map_cons, List.zip_cons_cons,
          List.filterMap_cons, hx, hdone]
        exact .refl _
      | succ i =>
        have hrest : (returned items (slots.set i (.done b))).Perm
            ((a, b) :: returned items slots) := ih hslot ha
        simp only [returned, List.set_cons_succ, List.map_cons, List.zip_cons_cons,
          List.filterMap_cons] at hrest ⊢
        cases returnedBy (a', x'.result?) with
        | none => exact hrest
        | some first => exact (hrest.cons first).trans (.swap _ _ _)

/-- A task writes to a log when it returns, and only then. `R` is what is known about the task of an
item under way. -/
structure Logs (task : PoolTask σ α τ β) (log : σ → List ε) (entry : α × β → Option ε)
    (R : α → τ → Prop) : Prop where
  cancel : ∀ s, log (task.cancel s) = log s
  start : ∀ a, R a (task.start a)
  advance : ∀ a s s' t t', R a t → task.step s t = (s', .inl t') → log s' = log s ∧ R a t'
  finish : ∀ a s s' t b, R a t → task.step s t = (s', .inr b) →
    log s' = log s ++ (entry (a, b)).toList

/-- The log has grown by what the tasks have returned, in some order. -/
structure Logged (log : σ → List ε) (entry : α × β → Option ε) (R : α → τ → Prop) (items : List α)
    (before : List ε) (p : Pool σ τ β) : Prop where
  sound : Sound (fun _ => True) R (fun _ _ => True) items p
  /-- From the next item on, none has been submitted. -/
  fresh : ∀ (i : Nat) x, p.next ≤ i → p.slots[i]? = some x → x = .unsubmitted
  log_eq : ∃ order : List (α × β), order.Perm (returned items p.slots) ∧
    log p.shared = before ++ order.filterMap entry

variable {log : σ → List ε} {entry : α × β → Option ε} {R : α → τ → Prop} {before : List ε}

theorem logged_init (s : σ) : Logged log entry R items (log s) (init s items : Pool σ τ β) where
  sound := sound_init trivial
  fresh i x _ hx := by
    obtain ⟨_, -, rfl⟩ := List.mem_map.1 (List.mem_of_getElem? hx)
    rfl
  log_eq := by
    refine ⟨[], ?_, by simp [init]⟩
    have hnone : returned items ((init s items : Pool σ τ β).slots) = [] := by
      refine List.filterMap_eq_nil_iff.2 ?_
      rintro ⟨a, r⟩ hmem
      obtain ⟨x, hx, rfl⟩ := List.mem_map.1 (List.of_mem_zip hmem).2
      obtain ⟨_, -, rfl⟩ := List.mem_map.1 hx
      rfl
    rw [hnone]

/-- Slots from the next item on stay as they are if another one changes. -/
theorem fresh_set {next : Nat} (h : ∀ (i : Nat) x, next ≤ i → slots[i]? = some x → x = .unsubmitted)
    (hslot : slots[i]? = some x) (hx : x ≠ .unsubmitted) :
    ∀ (j : Nat) z, next ≤ j → (slots.set i y)[j]? = some z → z = .unsubmitted := by
  intro j z hj hz
  rcases eq_or_ne i j with rfl | hne
  · exact absurd (h i x hj hslot) hx
  · rw [List.getElem?_set_ne hne] at hz
    exact h j z hj hz

/-- One action keeps the log. -/
theorem Logged.happens {action : PoolAction} {e : Option (PoolEvent β)}
    (h : Logged log entry R items before p) (htask : Logs task log entry R)
    (hhappens : Happens task items p action e p') : Logged log entry R items before p' := by
  obtain ⟨hsound, hfresh, order, horder, hlog⟩ := h
  cases hhappens with
  | idle => exact ⟨hsound, hfresh, order, horder, hlog⟩
  | close =>
    exact ⟨⟨hsound.length_slots, trivial, hsound.running, hsound.done⟩, hfresh, order, horder, hlog⟩
  | submit hmore =>
    have hlt : p.next < p.slots.length := hsound.length_slots ▸ hmore
    have hslot : p.slots[p.next]? = some .unsubmitted := by
      have hget := List.getElem?_eq_getElem hlt
      rw [hget, hfresh p.next _ (Nat.le_refl _) hget]
    refine ⟨hsound.set trivial (by simp) (by simp), ?_, order, ?_, hlog⟩
    · intro j z hj hz
      have hne : p.next ≠ j := Nat.ne_of_lt hj
      rw [List.getElem?_set_ne hne] at hz
      exact hfresh j z (Nat.le_of_succ_le hj) hz
    · rw [returned_set_of_none hslot rfl rfl]
      exact horder
  | surplus hend =>
    -- there is no item to submit any more
    have hset : p.slots.set p.next .queued = p.slots :=
      List.set_eq_of_length_le (hsound.length_slots ▸ hend)
    refine ⟨hsound.set trivial (by simp) (by simp), ?_, order, ?_, hlog⟩
    · intro j z hj hz
      rw [hset] at hz
      exact hfresh j z (Nat.le_of_succ_le hj) hz
    · rw [hset]
      exact horder
  | drop i hslot =>
    refine ⟨hsound.set trivial (by simp) (by simp), fresh_set hfresh hslot (by simp), order, ?_,
      hlog⟩
    rw [returned_set_of_none hslot rfl rfl]
    exact horder
  | start i a hslot ha =>
    refine ⟨hsound.set trivial ?_ (by simp), fresh_set hfresh hslot (by simp), order, ?_, hlog⟩
    · intro a' t ha' ht
      cases ha.symm.trans ha'
      cases ht
      exact htask.start a
    · rw [returned_set_of_none hslot rfl rfl]
      exact horder
  | advance i t t' s hslot hstep =>
    have hi : i < items.length := hsound.length_slots ▸ (List.getElem?_eq_some_iff.1 hslot).1
    have ha := List.getElem?_eq_getElem hi
    obtain ⟨hsame, ht'⟩ := htask.advance _ _ _ _ _ (hsound.running i _ t ha hslot) hstep
    refine ⟨hsound.set trivial ?_ (by simp), fresh_set hfresh hslot (by simp), order, ?_, ?_⟩
    · intro a' u ha' hu
      cases ha.symm.trans ha'
      cases hu
      exact ht'
    · rw [returned_set_of_none hslot rfl rfl]
      exact horder
    · exact hsame.trans hlog
  | finish i t b s hslot hstep =>
    have hi : i < items.length := hsound.length_slots ▸ (List.getElem?_eq_some_iff.1 hslot).1
    have ha := List.getElem?_eq_getElem hi
    have hmore := htask.finish _ _ _ _ _ (hsound.running i _ t ha hslot) hstep
    -- the only action by which the log grows
    refine ⟨hsound.set trivial (by simp) (by simp), fresh_set hfresh hslot (by simp),
      order ++ [(items[i], b)], ?_, ?_⟩
    · exact (List.perm_append_singleton _ _).trans
        ((horder.cons _).trans (perm_returned_set hslot rfl ha).symm)
    · rw [hmore, hlog, List.filterMap_append, List.append_assoc]
      cases hentry : entry (items[i], b) <;> simp [hentry]
  | cancel =>
    exact ⟨⟨hsound.length_slots, trivial, hsound.running, hsound.done⟩, hfresh, order, horder,
      (htask.cancel _).trans hlog⟩

/-- Under every schedule the log lists what the tasks have returned, each once. -/
theorem logged_run (htask : Logs task log entry R) (schedule : List PoolAction) (s : σ) :
    Logged log entry R items (log s) (run task items schedule (init s items)) := by
  induction schedule using List.reverseRecOn with
  | nil => exact logged_init s
  | append_singleton schedule a ih =>
    rw [run_append]
    exact ih.happens htask (happens_step task items _ a)

end Pool

/-! ## What observers hear -/

/-- Whether an observer notes events of this kind: it is there, it is not silent, and it does not
fail on them. -/
def Observer.notes (observers : List Observer) (e : Event) (i : Nat) : Bool :=
  match observers[i]? with
  | some (.noting failsOn _) => !failsOn.contains e.kind
  | some .silent | none => false

/-- What the observers of a dispatcher note of an event. -/
def Dispatcher.notes (d : Dispatcher Nat) (observers : List Observer) (e : Event) : List Note :=
  (d.observers.filter (Observer.notes observers e)).map (⟨·, e⟩)

/-- An observer that is offered an event notes it or does not; nothing else changes but that it may
ask for cancellation. -/
theorem Audience.offer_notes (au : Audience) (e : Event) (i : Nat) :
    (offer i e au).state.observers = au.observers ∧
      (offer i e au).state.notes =
        au.notes ++ if Observer.notes au.observers e i then [⟨i, e⟩] else [] := by
  unfold offer Observer.notes
  cases au.observers[i]? with
  | none => simp [Reaction.state]
  | some o =>
    cases o with
    | silent => simp [Reaction.state]
    | noting failsOn cancelAfter =>
      dsimp only
      by_cases hfails : failsOn.contains e.kind = true
      · rw [if_pos hfails, if_neg (by simpa using hfails)]
        exact ⟨rfl, (List.append_nil _).symm⟩
      · rw [if_neg hfails, if_pos (by simpa using hfails)]
        exact ⟨rfl, rfl⟩

/-- Every observer that is registered hears an event, whichever of the others fail. -/
theorem Dispatcher.emit_notes (d : Dispatcher Nat) (e : Event) (au : Audience) :
    (d.emit Audience.offer e au).observers = au.observers ∧
      (d.emit Audience.offer e au).notes = au.notes ++ d.notes au.observers e := by
  unfold emit notes
  induction d.observers generalizing au with
  | nil => simp
  | cons i rest ih =>
    obtain ⟨hobservers, hnotes⟩ := au.offer_notes e i
    obtain ⟨hrest, hmore⟩ := ih (Audience.offer i e au).state
    rw [List.foldl_cons]
    refine ⟨hrest.trans hobservers, ?_⟩
    rw [hmore, hobservers, hnotes, List.append_assoc, List.filter_cons]
    split <;> rfl

namespace Inspection

/-- Whether the cache knew the record. -/
def Verdict.isCached : Verdict → Bool
  | .cached _ => true
  | .analyzed _ => false

namespace Monitor

variable {m : Monitor} {s s' : Session} {commits : List Commit}
  {outcomes : Outcomes} {pool : Except String (Nat → List PoolAction)}

/-- What the observers have noted since `s` is what they note of the events since then. -/
structure Heard (m : Monitor) (s s' : Session) : Prop where
  observers : s'.audience.observers = s.audience.observers
  notes : ∃ told, s'.events = s.events ++ told ∧ s'.audience.notes =
    s.audience.notes ++ told.flatMap (m.dispatcher.notes s.audience.observers)

theorem Heard.tell (h : m.Heard s s') (e : Event) : m.Heard s (m.tell e s') := by
  obtain ⟨hobservers, told, hevents, hnotes⟩ := h
  obtain ⟨hsame, hmore⟩ := m.dispatcher.emit_notes e s'.audience
  refine ⟨hsame.trans hobservers, told ++ [e], ?_, ?_⟩
  · show s'.events ++ [e] = _
    rw [hevents, List.append_assoc]
  · show (m.dispatcher.emit Audience.offer e s'.audience).notes = _
    rw [hmore, hobservers, hnotes, List.append_assoc]
    simp

/-- A worker only changes the audience by telling it of an event. -/
theorem Heard.step (m : Monitor) (cache : CommitCache) (stage : Stage) (h : m.Heard s s') :
    m.Heard s (m.step cache s' stage).1 := by
  unfold Monitor.step
  cases stage with
  | lookUp c => dsimp only; split <;> exact h
  | compute c => dsimp only; split <;> exact h
  | save c r store => dsimp only; split <;> exact ⟨h.observers, h.notes⟩
  | announce c v => exact h.tell _

theorem heard_batch (m : Monitor) (cache : CommitCache) (commits : List Commit)
    (schedule : List PoolAction) (h : m.Heard s s') :
    m.Heard s (Pool.run (m.task cache) commits schedule (Pool.init s' commits)).shared := by
  have hsound : Pool.Sound (m.Heard s) (fun _ _ => True) (fun _ _ => True) commits
      (Pool.run (m.task cache) commits schedule (Pool.init s' commits)) := by
    refine Pool.Sound.run_of_step (Pool.sound_init h) ?_ (fun _ _ => trivial) ?_
    · exact fun s hs => ⟨hs.observers, hs.notes⟩
    · intro c _ s stage hs _
      have hstep := Heard.step m cache stage hs
      refine ⟨hstep, ?_⟩
      cases ((m.task cache).step s stage).2 <;> trivial
  exact hsound.shared

theorem heard_tellFailures (failed : List (Commit × PipelineError)) (h : m.Heard s s') :
    m.Heard s (failed.foldl (fun s (c, e) => m.tell (.commitFailed c.id e.message) s) s') := by
  induction failed generalizing s' with
  | nil => exact h
  | cons failure failed ih => exact ih (h.tell _)

/-! ## What workers tell -/

/-- A commit with its verdict, if it has one. -/
def successOf : Commit × Option (Except PipelineError Verdict) → Option (Commit × Verdict)
  | (c, some (.ok v)) => some (c, v)
  | (_, some (.error _)) => none
  | (_, none) => none

/-- The commits that have a record, in their order. -/
def successes (outcomes : Outcomes) : List (Commit × Verdict) := outcomes.filterMap successOf

/-- The event that tells of a commit that has a record. -/
def eventOf (done : Commit × Verdict) : Event := done.2.event done.1

/-- The event that a worker leaves when it returns. -/
def entryOf : Commit × Except PipelineError Verdict → Option Event
  | (c, .ok v) => some (v.event c)
  | (_, .error _) => none

/-- A worker tells of its commit when it returns with a record, and tells nothing else. -/
theorem logs_task (m : Monitor) (cache : CommitCache) :
    Pool.Logs (m.task cache) Session.events entryOf fun c stage => stage.commit = c where
  cancel _ := rfl
  start _ := rfl
  advance := by
    intro c s s' stage stage' hstage hstep
    have hnext : m.step cache s stage = (s', .inl stage') := hstep
    unfold Monitor.step at hnext
    cases stage with
    | lookUp c' =>
      dsimp only at hnext
      split at hnext <;> cases hnext <;> exact ⟨rfl, hstage⟩
    | compute c' =>
      dsimp only at hnext
      split at hnext <;> cases hnext
      exact ⟨rfl, hstage⟩
    | save c' r store =>
      dsimp only at hnext
      split at hnext <;> cases hnext <;> exact ⟨rfl, hstage⟩
    | announce c' v => cases hnext
  finish := by
    intro c s s' stage b hstage hstep
    have hend : m.step cache s stage = (s', .inr b) := hstep
    unfold Monitor.step at hend
    cases stage with
    | lookUp c' =>
      dsimp only at hend
      split at hend <;> cases hend
      exact (List.append_nil _).symm
    | compute c' =>
      dsimp only at hend
      split at hend <;> cases hend
      exact (List.append_nil _).symm
    | save c' r store =>
      dsimp only at hend
      split at hend <;> cases hend
    | announce c' v =>
      obtain rfl : c' = c := hstage
      cases hend
      rfl

/-- What the workers of a batch tell: of every commit that has a record, once. -/
theorem events_batch (m : Monitor) (cache : CommitCache) (commits : List Commit)
    (schedule : List PoolAction) (s : Session) :
    ∃ told : List (Commit × Verdict),
      told.Perm (successes (commits.zip
        (Pool.run (m.task cache) commits schedule (Pool.init s commits)).results)) ∧
      (Pool.run (m.task cache) commits schedule (Pool.init s commits)).shared.events =
        s.events ++ told.map eventOf := by
  obtain ⟨order, horder, hlog⟩ := (Pool.logged_run (m.logs_task cache) schedule s).log_eq
  -- what is told is the part of the returned results that are records
  refine ⟨order.filterMap fun done => successOf (done.1, some done.2), ?_, ?_⟩
  · refine (horder.filterMap _).trans ?_
    rw [Pool.returned, List.filterMap_filterMap, successes, Pool.results]
    refine .of_eq (List.filterMap_congr ?_)
    rintro ⟨c, _ | b⟩ _ <;> rfl
  · rw [hlog, List.map_filterMap]
    congr 1
    refine List.filterMap_congr ?_
    rintro ⟨c, e | v⟩ _ <;> rfl

/-! ## Events and reports -/

/-- The event that tells of a failure. -/
def failureEvent (f : CommitFailure) : Event := .commitFailed f.commit f.message

theorem events_tellFailures (m : Monitor) (failed : List (Commit × PipelineError)) (s : Session) :
    (failed.foldl (fun s (c, e) => m.tell (.commitFailed c.id e.message) s) s).events =
      s.events ++ failed.map fun f => .commitFailed f.1.id f.2.message := by
  induction failed generalizing s with
  | nil => exact (List.append_nil _).symm
  | cons failure failed ih =>
    rw [List.foldl_cons, ih]
    show s.events ++ [_] ++ _ = _
    rw [List.append_assoc]
    rfl

theorem verdicts_eq (outcomes : Outcomes) : verdicts outcomes = (successes outcomes).map (·.2) := by
  rw [verdicts, successes, List.map_filterMap]
  refine List.filterMap_congr ?_
  rintro ⟨c, _ | e | v⟩ _ <;> rfl

theorem cacheHits_report (outcomes : Outcomes) :
    (Monitor.report outcomes).cacheHits = (successes outcomes).countP (·.2.isCached) := by
  show (verdicts outcomes).countP _ = _
  rw [verdicts_eq, List.countP_map]
  refine List.countP_congr ?_
  rintro ⟨c, r | r⟩ _ <;> rfl

theorem analyzed_report (outcomes : Outcomes) :
    (Monitor.report outcomes).analyzed = (successes outcomes).countP (!·.2.isCached) := by
  show (verdicts outcomes).countP _ = _
  rw [verdicts_eq, List.countP_map]
  refine List.countP_congr ?_
  rintro ⟨c, _ | _⟩ _ <;> rfl

theorem mem_successes {c : Commit} {v : Verdict} :
    (c, v) ∈ successes outcomes ↔ (c, some (.ok v)) ∈ outcomes := by
  rw [successes, List.mem_filterMap]
  constructor
  · rintro ⟨⟨c', _ | e | v'⟩, hmem, hx⟩
    · cases hx
    · cases hx
    · cases hx
      exact hmem
  · exact fun hmem => ⟨_, hmem, rfl⟩

/-- What ends an inspection before its first event. -/
inductive Fatal (m : Monitor) (pool : Except String (Nat → List PoolAction)) (s : Session) :
    PipelineError → Prop where
  | config {e : ConfigError} (h : m.config.fault? = some e) : Fatal m pool s (.config e)
  | cancelled (h : s.audience.cancelled = true) : Fatal m pool s .cancelled
  | branch {e : HistoryError} (h : m.analyzer.history.resolve m.config.branch = .error e) :
    Fatal m pool s (.history e)
  | listing {head : String} {e : HistoryError}
    (hhead : m.analyzer.history.resolve m.config.branch = .ok head)
    (h : m.analyzer.history.list head ⟨m.config.commits, m.config.since⟩ = .error e) :
    Fatal m pool s (.history e)
  | cacheOpen {e : StorageError} (h : CommitCache.open m.config.cacheDir
      m.analyzer.config.fingerprint m.process s.files = .error e) : Fatal m pool s (.storage e)
  | pool {message : String} (h : pool = .error message) : Fatal m pool s (.workerPool message)

/-- The commits are those that the settings select. -/
def Selects (m : Monitor) (commits : List Commit) : Prop :=
  ∃ head, m.analyzer.history.resolve m.config.branch = .ok head ∧
    m.analyzer.history.list head ⟨m.config.commits, m.config.since⟩ = .ok commits

/-- What is told in an inspection that returns a report. `outcomes` is what became of the selected
commits, and `told` are those that have a record, in the order in which the workers told of them. -/
structure Trace (m : Monitor) (s s' : Session) (outcomes : Outcomes)
    (told : List (Commit × Verdict)) (report : Report) : Prop where
  selects : m.Selects (outcomes.map (·.1))
  report_eq : report = Monitor.report outcomes
  events : s'.events = s.events ++ ([.inspectionStarted m.config.branch report.selected] ++
    told.map eventOf ++ report.failures.map failureEvent ++
    [.inspectionComplete report.analyzed report.cacheHits report.failed report.cancelled])
  /-- Every commit with a record is told of once. -/
  once : told.Perm (successes outcomes)
  hits : told.countP (·.2.isCached) = report.cacheHits
  computed : told.countP (!·.2.isCached) = report.analyzed
  /-- The records that are told of are those of the report, -/
  records : (told.map (·.2.record)).Perm report.impacts
  /-- and one that was computed is the record of its commit. -/
  numbers : ∀ c r, (c, .analyzed r) ∈ told → r ∈ report.impacts ∧ r.id = c.id
  /-- Every observer notes all of this, but for the kinds of events on which it fails. -/
  heard : m.Heard s s'

/-- What an inspection does before its first event either finds something against it or leaves the
files as they were, but for directories. -/
theorem prepare_cases (m : Monitor) (s : Session) :
    (∃ e, m.prepare s = .error e ∧ ∀ pool, m.Fatal pool s e) ∨
      ∃ commits cache files, m.prepare s = .ok (commits, cache, files) ∧ m.Selects commits ∧
        (∀ path, files.bytesAt path = s.files.bytesAt path) ∧
        ∀ schedule e, ¬m.Fatal (.ok schedule) s e := by
  unfold prepare
  cases hconfig : m.config.fault? with
  | some e => exact .inl ⟨_, rfl, fun _ => .config hconfig⟩
  | none =>
    dsimp only
    by_cases hcancelled : s.audience.cancelled = true
    · rw [if_pos hcancelled]
      exact .inl ⟨_, rfl, fun _ => .cancelled hcancelled⟩
    rw [if_neg hcancelled]
    cases hhead : m.analyzer.history.resolve m.config.branch with
    | error e => exact .inl ⟨_, rfl, fun _ => .branch hhead⟩
    | ok head =>
      cases hlist : m.analyzer.history.list head ⟨m.config.commits, m.config.since⟩ with
      | error e =>
        refine .inl ⟨.history e, ?_, fun _ => .listing hhead hlist⟩
        simp [hlist, Except.mapError, bind, Except.bind]
      | ok commits =>
        cases hopen : CommitCache.open m.config.cacheDir m.analyzer.config.fingerprint m.process
            s.files with
        | error e =>
          refine .inl ⟨.storage e, ?_, fun _ => .cacheOpen hopen⟩
          simp [hlist, Except.mapError, bind, Except.bind]
        | ok found =>
          obtain ⟨cache, files⟩ := found
          refine .inr ⟨commits, cache, files, ?_, ⟨head, hhead, hlist⟩, ?_, ?_⟩
          · simp [hlist, Except.mapError, bind, Except.bind, pure, Except.pure]
          · exact FileTree.bytesAt_makeDirs (CommitCache.open_ok hopen).1
          · intro schedule e hfatal
            cases hfatal with
            | config h => cases hconfig.symm.trans h
            | cancelled h => exact hcancelled h
            | branch h => cases hhead.symm.trans h
            | listing h h' =>
              cases hhead.symm.trans h
              cases hlist.symm.trans h'
            | cacheOpen h => cases hopen.symm.trans h
            | pool h => cases h

theorem runIn_of_error {e : PipelineError} (pool : Except String (Nat → List PoolAction))
    (h : m.prepare s = .error e) :
    m.runIn pool s = ({ s with files := m.refusedFiles s e }, .error e) := by
  unfold runIn runWith
  rw [h]
  cases pool <;> rfl

/-- What is told in an inspection whose pool has come about. -/
theorem trace_runWith {schedule : Nat → List PoolAction} {cache : CommitCache} {files : FileTree}
    (hprepare : m.prepare s = .ok (commits, cache, files)) (hselects : m.Selects commits) :
    ∃ outcomes told, (m.runWith schedule s).2 = .ok (Monitor.report outcomes) ∧
      m.Trace s (m.runWith schedule s).1 outcomes told (Monitor.report outcomes) := by
  unfold runWith
  rw [hprepare]
  dsimp only
  -- the session when the workers begin, their batch at its end, and what became of the commits
  generalize hbegun : m.tell (.inspectionStarted m.config.branch commits.length)
    { s with files } = begun
  generalize hdone : Pool.run (m.task cache) commits (schedule commits.length)
    (Pool.init begun commits) = done
  obtain ⟨told, hperm, htold⟩ := m.events_batch cache commits (schedule commits.length) begun
  rw [hdone] at hperm htold
  have hfaithful := m.faithful_batch cache commits (schedule commits.length) begun
  rw [hdone] at hfaithful
  have hcommits : (commits.zip done.results).map (·.1) = commits :=
    List.map_fst_zip (by simp [Pool.results, hfaithful.length_slots])
  have hheard : m.Heard s begun := by
    have hfirst : m.Heard s { s with files } := ⟨rfl, [], by simp, by simp⟩
    exact hbegun ▸ hfirst.tell _
  have hbatch := m.heard_batch cache commits (schedule commits.length) hheard
  rw [hdone] at hbatch
  refine ⟨commits.zip done.results, told, rfl, ?_⟩
  constructor
  case selects => exact hcommits.symm ▸ hselects
  case report_eq => rfl
  case events =>
    have hselected : (Monitor.report (commits.zip done.results)).selected = commits.length := by
      show (commits.zip done.results).length = _
      rw [← List.length_map, hcommits]
    have hstarted : begun.events =
        s.events ++ [.inspectionStarted m.config.branch commits.length] := by
      rw [← hbegun]
      rfl
    have hfailed : (Monitor.report (commits.zip done.results)).failures.map failureEvent =
        (failures (commits.zip done.results)).map fun f => .commitFailed f.1.id f.2.message :=
      List.map_map
    show (List.foldl _ done.shared _).events ++ [_] = _
    rw [events_tellFailures, htold, hstarted, hselected, hfailed]
    simp only [List.append_assoc]
  case once => exact hperm
  case hits => rw [cacheHits_report, hperm.countP_eq]
  case computed => rw [analyzed_report, hperm.countP_eq]
  case records =>
    refine (hperm.map _).trans ?_
    have hrecords : (successes (commits.zip done.results)).map (·.2.record) =
        records (commits.zip done.results) := by
      rw [records, verdicts_eq, List.map_map]
      rfl
    rw [hrecords]
    exact (perm_impacts _).symm
  case numbers =>
    intro c r hmem
    have houtcome := mem_successes.1 (hperm.mem_iff.1 hmem)
    refine ⟨(perm_impacts _).mem_iff.2 ?_, hfaithful.of_mem_zip houtcome⟩
    rw [records, verdicts_eq, List.map_map]
    exact List.mem_map_of_mem (mem_successes.2 houtcome)
  case heard => exact (heard_tellFailures _ hbatch).tell _

-- of two observers the first fails on failures
example : ((Monitor.run ⟨twinAnalyzer, ⟨"0123456", some 1, none, "cache", none⟩, ⟨[0, 1]⟩, 1⟩
    ⟨.empty, ⟨[.noting [.commitFailed] none, .noting [] none], [], false⟩, []⟩).1.audience.notes.map
      fun note => (note.observer, note.event.kind)) =
    [(0, .inspectionStarted), (1, .inspectionStarted), (1, .commitFailed), (0, .inspectionComplete),
      (1, .inspectionComplete)] := by
  decide +kernel

end Monitor

end Inspection

end ChangeImpact
