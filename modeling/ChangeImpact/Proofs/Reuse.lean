import ChangeImpact.Proofs.Accounting
import ChangeImpact.Proofs.ConcurrentStores
import ChangeImpact.Proofs.WorkerCrews

/-!
# A second inspection computes nothing

An inspection leaves behind what it has computed, each record in the slot of its commit. Where no
two commits share a slot, nobody else touches it, and the next inspection of the same commits finds
everything there.

* `Pool.Tracked` — what is known about tasks that share a state, as long as each leaves alone what
  the others rely on; `Pool.Tracked.run` — under every schedule;
* `StoreMove.load_other` — a store changes nothing for the loads of other slots;
* `Call.CacheWorks` — no read and no write of the cache failed;
* `Stage.Stands`, `Kept` — what the files hold for a commit while a worker is busy with it, and once
  it has returned; `kept_perform` — for all commits of an inspection;
* `second_inspection_reuses` — what the next inspection reports;
* `cacheWorks_of_unblocked` — the cache works where no file or directory is in the way.
-/

namespace ChangeImpact

/-! ## Tasks side by side -/

namespace Pool

variable {σ α τ β : Type} {task : PoolTask σ α τ β} {items : List α} {p p' : Pool σ τ β}
  {I : σ → Prop} {R : α → σ → τ → Prop} {D : α → σ → β → Prop} {W : σ → τ → Prop}

/-- The shared state satisfies `I`; given it, every task under way satisfies `R` and every result
`D`. -/
structure Tracked (I : σ → Prop) (R : α → σ → τ → Prop) (D : α → σ → β → Prop) (items : List α)
    (p : Pool σ τ β) : Prop where
  length_slots : p.slots.length = items.length
  shared : I p.shared
  running : ∀ (i : Nat) a t, items[i]? = some a → p.slots[i]? = some (.running t) → R a p.shared t
  done : ∀ (i : Nat) a b, items[i]? = some a → p.slots[i]? = some (.done b) → D a p.shared b

/-- A step of a task keeps what is known about it, and about the tasks of other items. `W` is what
is known about the steps that are taken. -/
structure SideBySide (task : PoolTask σ α τ β) (items : List α) (I : σ → Prop)
    (R : α → σ → τ → Prop) (D : α → σ → β → Prop) (W : σ → τ → Prop) : Prop where
  cancel : ∀ s, I s → I (task.cancel s) ∧ ∀ a, (∀ t, R a s t → R a (task.cancel s) t) ∧
    ∀ b, D a s b → D a (task.cancel s) b
  start : ∀ a ∈ items, ∀ s, R a s (task.start a)
  own : ∀ a ∈ items, ∀ s t, I s → R a s t → W s t → I (task.step s t).1 ∧
    Sum.elim (R a (task.step s t).1) (D a (task.step s t).1) (task.step s t).2
  others : ∀ a ∈ items, ∀ other ∈ items, other ≠ a → ∀ s t, R a s t →
    (∀ t', R other s t' → R other (task.step s t).1 t') ∧
      ∀ b, D other s b → D other (task.step s t).1 b

theorem tracked_init {s : σ} (hs : I s) : Tracked I R D items (init s items : Pool σ τ β) where
  length_slots := by simp [init]
  shared := hs
  running i a t ha ht := by
    rw [slots_init ha] at ht
    cases ht
  done i a b ha hb := by
    rw [slots_init ha] at hb
    cases hb

/-- One slot changes, and the others keep what is known about them. -/
theorem Tracked.set {s : σ} {next i : Nat} {closed : Bool} {x : PoolSlot τ β}
    (h : Tracked I R D items p) (hs : I s)
    (hrunning : ∀ a t, items[i]? = some a → x = .running t → R a s t)
    (hdone : ∀ a b, items[i]? = some a → x = .done b → D a s b)
    (hothers : ∀ (j : Nat) a, j ≠ i → items[j]? = some a →
      (∀ t, R a p.shared t → R a s t) ∧ ∀ b, D a p.shared b → D a s b) :
    Tracked I R D items ⟨s, next, closed, p.slots.set i x⟩ := by
  have hget (j : Nat) (y : PoolSlot τ β) (hy : (p.slots.set i x)[j]? = some y) :
      j = i ∧ x = y ∨ j ≠ i ∧ p.slots[j]? = some y := by
    by_cases hj : j = i
    · subst hj
      rcases mem_set_cases hy with ⟨-, hx⟩ | hold
      · exact .inl ⟨rfl, hx⟩
      · have hj : j < p.slots.length := (List.getElem?_eq_some_iff.1 hold).1
        rw [List.getElem?_set_self hj] at hy
        exact .inl ⟨rfl, Option.some.inj hy⟩
    · rw [List.getElem?_set_ne (Ne.symm hj)] at hy
      exact .inr ⟨hj, hy⟩
  constructor
  · simpa using h.length_slots
  · exact hs
  · intro j a t ha ht
    rcases hget j _ ht with ⟨rfl, hx⟩ | ⟨hj, hold⟩
    · exact hrunning a t ha hx
    · exact (hothers j a hj ha).1 t (h.running j a t ha hold)
  · intro j a b ha hb
    rcases hget j _ hb with ⟨rfl, hx⟩ | ⟨hj, hold⟩
    · exact hdone a b ha hx
    · exact (hothers j a hj ha).2 b (h.done j a b ha hold)

/-- A step of a task keeps the shared state, what is known about the task, and what is known about
the tasks of other slots. -/
theorem Tracked.step {i : Nat} {t : τ} {s : σ} {next : τ ⊕ β} (h : Tracked I R D items p)
    (htask : SideBySide task items I R D W) (hnodup : items.Nodup)
    (hslot : p.slots[i]? = some (.running t)) (hW : W p.shared t)
    (hstep : task.step p.shared t = (s, next)) :
    I s ∧ (∀ a, items[i]? = some a → Sum.elim (R a s) (D a s) next) ∧
      ∀ (j : Nat) a, j ≠ i → items[j]? = some a →
        (∀ t, R a p.shared t → R a s t) ∧ ∀ b, D a p.shared b → D a s b := by
  -- a slot that holds something belongs to an item
  have hi : i < items.length := h.length_slots ▸ (List.getElem?_eq_some_iff.1 hslot).1
  have hitem : items[i]? = some items[i] := List.getElem?_eq_getElem hi
  have hmem : items[i] ∈ items := List.getElem_mem hi
  have hrunning := h.running i _ t hitem hslot
  have hown := htask.own _ hmem _ _ h.shared hrunning hW
  rw [hstep] at hown
  refine ⟨hown.1, ?_, ?_⟩
  · intro a ha
    obtain rfl := Option.some.inj (hitem.symm.trans ha)
    exact hown.2
  · intro j a hj ha
    -- and other slots belong to other items
    have hne : a ≠ items[i] := by
      rintro rfl
      have hlt := (List.getElem?_eq_some_iff.1 ha).1
      exact hj ((List.getElem?_inj hlt hnodup).1 (ha.trans hitem.symm))
    have hothers := htask.others _ hmem a (List.mem_of_getElem? ha) hne _ _ hrunning
    rw [hstep] at hothers
    exact hothers

/-- One action keeps what is known. -/
theorem Tracked.happens {a : PoolAction} {e : Option (PoolEvent β)} (h : Tracked I R D items p)
    (htask : SideBySide task items I R D W) (hnodup : items.Nodup)
    (hW : ∀ i t, a = .advance i → p.slots[i]? = some (.running t) → W p.shared t)
    (hhappens : Happens task items p a e p') : Tracked I R D items p' := by
  cases hhappens with
  | idle => exact h
  | close => exact ⟨h.length_slots, h.shared, h.running, h.done⟩
  | submit | surplus | drop =>
    exact h.set h.shared (by simp) (by simp) fun _ _ _ _ => ⟨fun _ => id, fun _ => id⟩
  | start i b hslot hb =>
    refine h.set h.shared ?_ (by simp) fun _ _ _ _ => ⟨fun _ => id, fun _ => id⟩
    intro b' t hb' ht
    cases hb.symm.trans hb'
    cases ht
    exact htask.start b (List.mem_of_getElem? hb) _
  | advance i t t' s hslot hstep =>
    obtain ⟨hs, hown, hothers⟩ := h.step htask hnodup hslot (hW i t rfl hslot) hstep
    refine h.set hs ?_ (by simp) hothers
    rintro b u hb ⟨⟩
    exact hown b hb
  | finish i t r s hslot hstep =>
    obtain ⟨hs, hown, hothers⟩ := h.step htask hnodup hslot (hW i t rfl hslot) hstep
    refine h.set hs (by simp) ?_ hothers
    rintro b u hb ⟨⟩
    exact hown b hb
  | cancel =>
    obtain ⟨hs, hkeeps⟩ := htask.cancel _ h.shared
    exact ⟨h.length_slots, hs, fun i b t hb ht => (hkeeps b).1 t (h.running i b t hb ht),
      fun i b r hb hr => (hkeeps b).2 r (h.done i b r hb hr)⟩

/-- Every schedule keeps what is known. -/
theorem Tracked.run {schedule : List PoolAction} (h : Tracked I R D items p)
    (htask : SideBySide task items I R D W) (hnodup : items.Nodup)
    (hW : ∀ first i t, first ++ [.advance i] <+: schedule →
      (Pool.run task items first p).slots[i]? = some (.running t) →
        W (Pool.run task items first p).shared t) :
    Tracked I R D items (Pool.run task items schedule p) := by
  -- from the end: what `hW` says of a step is about the actions before it
  induction schedule using List.reverseRecOn with
  | nil => exact h
  | append_singleton schedule a ih =>
    have hbefore := ih fun first i t hfirst => hW first i t (hfirst.trans (List.prefix_append _ _))
    rw [run_append]
    refine hbefore.happens htask hnodup ?_ (happens_step task items _ a)
    rintro i t rfl hslot
    exact hW schedule i t (List.prefix_refl _) hslot

theorem Tracked.of_mem_zip {a : α} {b : β} (h : Tracked I R D items p)
    (hmem : (a, some b) ∈ items.zip p.results) : D a p.shared b := by
  have hsound : Sound (fun _ => True) (fun _ _ => True) (fun a b => D a p.shared b) items p :=
    ⟨h.length_slots, trivial, fun _ _ _ _ _ => trivial, h.done⟩
  exact hsound.of_mem_zip hmem

end Pool

/-! ## Slots apart -/

namespace CommitCache

variable {α : Type} {c : CommitCache} {d : Json.Decoder α} {commit other : String}
  {bytes : ByteArray} {t t' : FileTree} {stage : StoreStage}
  {next : StoreStage ⊕ Except StorageError String}

/-- A path to an entry is longer than those that lead up to a slot. -/
theorem length_lt_entry {p : FilePath} (hslot : IsFileName (slotName commit))
    (hp : p <+: c.slotDir commit ++ [entryName]) (hne : p ≠ c.slotDir commit ++ [entryName]) :
    p.length ≤ (FilePath.ofText c.root).length + 1 := by
  have hlength :
      (c.slotDir commit ++ [entryName]).length = (FilePath.ofText c.root).length + 2 := by
    simp [slotDir_eq hslot]
  have hlt : p.length < (c.slotDir commit ++ [entryName]).length := by
    by_contra hge
    exact hne (hp.eq_of_length_le (Nat.le_of_not_lt hge))
  omega

/-- Near the root nothing changes that a load could trip over. -/
theorem SameShelves.load_ok (h : SameShelves (.ofText c.root) t t')
    (hslot : IsFileName (slotName commit)) (hload : ∃ found, c.load d commit t = .ok found)
    (hkept : t.bytesAt (c.slotDir commit ++ [entryName]) ≠ none →
      t'.bytesAt (c.slotDir commit ++ [entryName]) ≠ none) :
    ∃ found, c.load d commit t' = .ok found := by
  obtain ⟨hopen, hentry, -⟩ := load_ok_iff.1 hload
  refine load_ok_of_kept hload hkept ?_ ?_
  · intro q hq hne
    rw [h.file q (length_lt_entry hslot hq hne)]
    exact hopen q hq hne
  · exact fun hget => hentry (h.deep _ (by simp [slotDir_eq hslot]) hget)

/-- A load only looks at its slot: what it returns stays as it is if the shelves and the entry
do. -/
theorem SameShelves.load_eq (h : SameShelves (.ofText c.root) t t')
    (hslot : IsFileName (slotName commit))
    (hentry : t'.get? (c.slotDir commit ++ [entryName]) =
      t.get? (c.slotDir commit ++ [entryName])) :
    c.load d commit t' = c.load d commit t := by
  have hread : t'.read (c.slotDir commit ++ [entryName]) =
      t.read (c.slotDir commit ++ [entryName]) :=
    FileTree.read_congr (fun q hq hne => h.file q (length_lt_entry hslot hq hne)) hentry
  unfold load
  rw [entryPath_eq, hread]

theorem StoreMove.get?_other (h : StoreMove c commit bytes t stage t' next) {p : FilePath}
    (hdir : ¬p <+: c.slotDir commit) (hentry : p ≠ c.slotDir commit ++ [entryName])
    (hdraft : p ≠ c.slotDir commit ++ [c.draftName]) : t'.get? p = t.get? p := by
  cases h with
  | made h => rw [FileTree.get?_makeDirs h, if_neg hdir]
  | written h => rw [FileTree.eq_of_write h, FileTree.get?_set_ne hdraft]
  | moved h =>
    obtain ⟨moved, -, rfl⟩ := FileTree.eq_of_move h
    rw [FileTree.get?_set_ne hentry, FileTree.get?_set_ne hdraft]
  | dropped h => rw [FileTree.eq_of_remove h, FileTree.get?_set_ne hdraft]
  | notMade =>
    rcases FileTree.makeHalfway_cases t (c.slotDir commit) with hsame | ⟨above, habove, hmade⟩
    · rw [hsame]
    · rw [FileTree.get?_makeDirs hmade, if_neg fun hp => hdir (hp.trans habove)]
  | notWritten | notMoved | notDropped => rfl

theorem slotDir_ne (hslot : IsFileName (slotName commit)) (hother : IsFileName (slotName other))
    (hne : slotName other ≠ slotName commit) : c.slotDir other ≠ c.slotDir commit := by
  rw [slotDir_eq hslot, slotDir_eq hother]
  intro heq
  exact hne (List.singleton_inj.1 (List.append_cancel_left heq))

/-- A store changes nothing for the loads of other slots. -/
theorem StoreMove.load_other (h : StoreMove c commit bytes t stage t' next)
    (hslot : IsFileName (slotName commit)) (hother : IsFileName (slotName other))
    (hne : slotName other ≠ slotName commit) : c.load d other t' = c.load d other t := by
  have hdir := slotDir_ne (c := c) hslot hother hne
  refine (h.sameShelves hslot).load_eq hother (h.get?_other ?_ ?_ (entry_ne_draft _ _))
  · rw [slotDir_eq hslot, slotDir_eq hother]
    exact FilePath.not_prefix_of_length_lt (by simp)
  · exact fun heq => hdir (List.append_inj' heq rfl).1

/-- Nor does it touch their drafts. -/
theorem StoreMove.draft_other (h : StoreMove c commit bytes t stage t' next)
    (hslot : IsFileName (slotName commit)) (hother : IsFileName (slotName other))
    (hne : slotName other ≠ slotName commit) :
    t'.bytesAt (c.slotDir other ++ [c.draftName]) =
      t.bytesAt (c.slotDir other ++ [c.draftName]) := by
  have hdir := slotDir_ne (c := c) hslot hother hne
  refine h.bytesAt_other (entry_ne_draft _ _).symm ?_
  exact fun heq => hdir (List.append_inj' heq rfl).1

/-- A document that is read back in one piece is found by a load. -/
theorem load_document {v : α} {impact : Json} (hload : ∃ found, c.load d commit t = .ok found)
    (hentry : t.bytesAt (c.slotDir commit ++ [entryName]) = some (c.documentBytes commit impact))
    (hround : spelled d (c.documentBytes commit impact) = some v) :
    c.load d commit t = .ok (some v) :=
  load_some_iff.2 ⟨(load_ok_iff.1 hload).1, _, hentry, accept?_documentBytes.2 ⟨rfl, rfl, hround⟩⟩

end CommitCache

namespace Inspection

/-! ## The first inspection -/

/-- The cache does not fail a worker in its next step. -/
def Stage.Works (cache : CommitCache) (files : FileTree) : Stage → Prop
  | .lookUp c => ∃ found, cache.load CommitRecord.decode c.id files = .ok found
  | .save c r stage => ∀ failure,
    (cache.storeStep c.id (cache.documentBytes c.id r.toJson) files stage).2 ≠ .inr (.error failure)
  | .compute _ | .announce _ _ => True

/-- No read and no write of the cache failed in an inspection. -/
def Call.CacheWorks (a : CommitAnalyzer) (call : Call) (files : FileTree) : Prop :=
  ∀ commits cache opened,
    (call.monitor a).prepare (call.session files) = .ok (commits, cache, opened) →
    ∀ first i stage, first ++ [.advance i] <+: call.schedule commits.length →
      (call.batch a commits cache opened first).slots[i]? = some (.running stage) →
        stage.Works cache (call.batch a commits cache opened first).shared.files

/-- A record that was computed is read back from its document as it was written. -/
def Verdict.ReadsBack (cache : CommitCache) (c : Commit) : Verdict → Prop
  | .cached _ => True
  | .analyzed r =>
    CommitCache.spelled CommitRecord.decode (cache.documentBytes c.id r.toJson) = some r

/-- What the files hold for a commit while a worker is busy with it. -/
def Stage.Stands (a : CommitAnalyzer) (cache : CommitCache) (c : Commit) (files : FileTree) :
    Stage → Prop
  | .lookUp c' => c' = c
  | .compute c' => c' = c ∧ cache.load CommitRecord.decode c.id files = .ok none
  | .save c' r stage => c' = c ∧ a.analyze c = .ok r ∧
    (∃ found, cache.load CommitRecord.decode c.id files = .ok found) ∧
    (stage = .moveDraft → files.bytesAt (cache.slotDir c.id ++ [cache.draftName]) =
      some (cache.documentBytes c.id r.toJson))
  | .announce c' v => c' = c ∧
    (v.ReadsBack cache c → cache.load CommitRecord.decode c.id files = .ok (some v.record))

/-- What the files hold for a commit once a worker has returned. -/
def Kept (a : CommitAnalyzer) (cache : CommitCache) (c : Commit) (files : FileTree) :
    Except PipelineError Verdict → Prop
  | .ok v => cache.load CommitRecord.decode c.id files = .ok (some v.record)
  | .error e => cache.load CommitRecord.decode c.id files = .ok none ∧ a.analyze c = .error e

/-- What the files hold once a worker has returned, if what it has computed can be read back. -/
def Leaves (a : CommitAnalyzer) (cache : CommitCache) (c : Commit) (files : FileTree)
    (b : Except PipelineError Verdict) : Prop :=
  (∀ v, b = .ok v → v.ReadsBack cache c) → Kept a cache c files b

variable {a : CommitAnalyzer} {cache : CommitCache} {c : Commit} {files files' : FileTree}

theorem Stage.Stands.commit_eq {stage : Stage} (h : stage.Stands a cache c files) :
    stage.commit = c := by
  cases stage with
  | lookUp c' => exact h
  | compute c' | save c' r stage | announce c' v => exact h.1

/-- It only matters what a load returns, and what the draft holds. -/
theorem Stage.Stands.congr {stage : Stage} (h : stage.Stands a cache c files)
    (hload : cache.load CommitRecord.decode c.id files' = cache.load CommitRecord.decode c.id files)
    (hdraft : files'.bytesAt (cache.slotDir c.id ++ [cache.draftName]) =
      files.bytesAt (cache.slotDir c.id ++ [cache.draftName])) : stage.Stands a cache c files' := by
  unfold Stands at *
  rw [hload, hdraft]
  exact h

theorem Kept.congr {cache' : CommitCache} {b : Except PipelineError Verdict}
    (h : Kept a cache c files b) (hload : cache'.load CommitRecord.decode c.id files' =
      cache.load CommitRecord.decode c.id files) : Kept a cache' c files' b := by
  unfold Kept at *
  rw [hload]
  exact h

namespace Monitor

variable {m : Monitor} {s : Session} {stage : Stage}

/-- A worker that stores a record goes on with that, or announces it, however the store ended. -/
theorem step_save (m : Monitor) (cache : CommitCache) (s : Session) (c : Commit) (r : CommitRecord)
    (store : CommitCache.StoreStage) {t' : FileTree}
    {next : CommitCache.StoreStage ⊕ Except StorageError String}
    (hstore : cache.storeStep c.id (cache.documentBytes c.id r.toJson) s.files store = (t', next)) :
    m.step cache s (.save c r store) = ({ s with files := t' },
      .inl (Sum.elim (Stage.save c r) (fun _ => .announce c (.analyzed r)) next)) := by
  unfold step
  dsimp only
  rw [hstore]
  cases next with
  | inl store' => rfl
  | inr result => rfl

/-- A worker only changes files by a step of a store. -/
theorem files_step (m : Monitor) (cache : CommitCache) (s : Session) (stage : Stage) :
    (m.step cache s stage).1.files = s.files ∨ ∃ bytes store next, CommitCache.StoreMove cache
      stage.commit.id bytes s.files store (m.step cache s stage).1.files next := by
  cases stage with
  | lookUp c => unfold step; dsimp only; split <;> exact .inl rfl
  | compute c => unfold step; dsimp only; split <;> exact .inl rfl
  | announce c v => exact .inl rfl
  | save c r store =>
    have hmove := CommitCache.storeMove_storeStep cache c.id
      (cache.documentBytes c.id r.toJson) s.files store
    rw [m.step_save cache s c r store rfl]
    exact .inr ⟨_, _, _, hmove⟩

theorem sameShelves_step (m : Monitor) (cache : CommitCache) (s : Session)
    (hslot : IsFileName (slotName stage.commit.id)) :
    CommitCache.SameShelves (.ofText cache.root) s.files (m.step cache s stage).1.files := by
  rcases m.files_step cache s stage with hsame | ⟨bytes, store, next, hmove⟩
  · rw [hsame]
    exact .refl _ _
  · exact hmove.sameShelves hslot

/-- A step of a worker changes nothing for the commits of other slots. -/
theorem others_step (m : Monitor) (cache : CommitCache) (s : Session) {other : Commit}
    (hslot : IsFileName (slotName stage.commit.id)) (hother : IsFileName (slotName other.id))
    (hne : slotName other.id ≠ slotName stage.commit.id) :
    cache.load CommitRecord.decode other.id (m.step cache s stage).1.files =
        cache.load CommitRecord.decode other.id s.files ∧
      (m.step cache s stage).1.files.bytesAt (cache.slotDir other.id ++ [cache.draftName]) =
        s.files.bytesAt (cache.slotDir other.id ++ [cache.draftName]) := by
  rcases m.files_step cache s stage with hsame | ⟨bytes, store, next, hmove⟩
  · rw [hsame]
    exact ⟨rfl, rfl⟩
  · exact ⟨hmove.load_other hslot hother hne, hmove.draft_other hslot hother hne⟩

/-- A step of a store that does not fail leads on, or leaves the record where a load finds it. -/
theorem stands_store {r : CommitRecord} {store : CommitCache.StoreStage} {t' : FileTree}
    {next : CommitCache.StoreStage ⊕ Except StorageError String}
    (hslot : IsFileName (slotName c.id))
    (hstands : (Stage.save c r store).Stands a cache c s.files)
    (hworks : ∀ failure, next ≠ .inr (.error failure))
    (hmove : CommitCache.StoreMove cache c.id (cache.documentBytes c.id r.toJson) s.files store t'
      next) :
    Sum.elim (fun store' => (Stage.save c r store').Stands a cache c t')
      (fun _ => (Stage.announce c (.analyzed r)).Stands a cache c t') next := by
  obtain ⟨-, hanalyze, hload, hdraft⟩ := hstands
  have hload' := (hmove.sameShelves hslot).load_ok hslot hload hmove.entry_stays
  cases hmove with
  | made => exact ⟨rfl, hanalyze, hload', by simp⟩
  | notMade _ failure | notWritten _ failure | dropped _ failure | notDropped failure =>
    exact absurd rfl (hworks failure)
  | written hwrite =>
    refine ⟨rfl, hanalyze, hload', fun _ => ?_⟩
    rw [FileTree.eq_of_write hwrite, FileTree.bytesAt_set_file (by simp)]
  | notMoved => exact ⟨rfl, hanalyze, hload', by simp⟩
  | moved hmoved =>
    -- what is moved is the draft, and nobody has touched that since it was written
    obtain ⟨bytes, hbytes, rfl⟩ := FileTree.eq_of_move hmoved
    rw [hdraft rfl] at hbytes
    obtain rfl := Option.some.inj hbytes
    exact ⟨rfl, CommitCache.load_document hload' (FileTree.bytesAt_set_file (by simp))⟩

/-- A step of a worker whose cache does not fail. -/
theorem stands_step (m : Monitor) (cache : CommitCache) (s : Session)
    (hslot : IsFileName (slotName c.id)) (hstands : stage.Stands m.analyzer cache c s.files)
    (hworks : stage.Works cache s.files) :
    Sum.elim (Stage.Stands m.analyzer cache c (m.step cache s stage).1.files)
      (Leaves m.analyzer cache c (m.step cache s stage).1.files) (m.step cache s stage).2 := by
  cases stage with
  | lookUp c' =>
    obtain rfl : c' = c := hstands
    have hok : ∃ found, cache.load CommitRecord.decode c'.id s.files = .ok found := hworks
    unfold step
    dsimp only
    cases hload : cache.load CommitRecord.decode c'.id s.files with
    | error e => simp [hload] at hok
    | ok found =>
      cases found with
      | none => exact ⟨rfl, hload⟩
      | some r => exact ⟨rfl, fun _ => hload⟩
  | compute c' =>
    obtain ⟨rfl, hload⟩ := hstands
    unfold step
    dsimp only
    split
    · rename_i e hanalyze
      exact fun _ => ⟨hload, hanalyze⟩
    · rename_i r hanalyze
      exact ⟨rfl, hanalyze, ⟨none, hload⟩, by simp⟩
  | save c' r store =>
    obtain rfl : c' = c := hstands.1
    have hstore := stands_store hslot hstands hworks
      (CommitCache.storeMove_storeStep cache c'.id _ s.files store)
    obtain ⟨t', next, hstep⟩ : ∃ t' next, cache.storeStep c'.id
      (cache.documentBytes c'.id r.toJson) s.files store = (t', next) := ⟨_, _, rfl⟩
    rw [hstep] at hstore
    rw [m.step_save cache s c' r store hstep]
    cases next with
    | inl store' => exact hstore
    | inr result => exact hstore
  | announce c' v => exact fun hback => hstands.2 (hback v rfl)

end Monitor

/-- Every commit has a slot of its own. -/
structure OwnSlots (commits : List Commit) : Prop where
  names : ∀ c ∈ commits, IsFileName (slotName c.id)
  distinct : (commits.map fun c => slotName c.id).Nodup

/-- What was computed is read back from its documents as it was written. -/
def ReadBack (a : CommitAnalyzer) (outcomes : Outcomes) : Prop :=
  ∀ c v, (c, some (.ok v)) ∈ outcomes →
    ∀ cache : CommitCache, cache.fingerprint = a.config.fingerprint → v.ReadsBack cache c

variable {commits : List Commit} {call : Call} {opened : FileTree}

/-- Workers with slots of their own do not disturb each other. -/
theorem sideBySide_task (m : Monitor) (start : FileTree) (hown : OwnSlots commits) :
    Pool.SideBySide (m.task cache) commits
      (fun s => CommitCache.SameShelves (.ofText cache.root) start s.files)
      (fun c s stage => stage.Stands m.analyzer cache c s.files)
      (fun c s b => Leaves m.analyzer cache c s.files b)
      (fun s stage => stage.Works cache s.files) where
  cancel s hs := ⟨hs, fun _ => ⟨fun _ => id, fun _ => id⟩⟩
  start c _ s := rfl
  own c hc s stage hs hstands hworks := by
    have hslot : IsFileName (slotName stage.commit.id) := hstands.commit_eq ▸ hown.names c hc
    exact ⟨hs.trans (m.sameShelves_step cache s hslot),
      m.stands_step cache s (hown.names c hc) hstands hworks⟩
  others c hc other hother hne s stage hstands := by
    obtain rfl := hstands.commit_eq
    have hapart : slotName other.id ≠ slotName stage.commit.id :=
      fun heq => hne (List.inj_on_of_nodup_map hown.distinct hother hc heq)
    obtain ⟨hload, hdraft⟩ :=
      m.others_step cache s (hown.names _ hc) (hown.names other hother) hapart
    exact ⟨fun stage' hstands' => hstands'.congr hload hdraft,
      fun b hleaves hback => (hleaves hback).congr hload⟩

theorem OwnSlots.nodup (h : OwnSlots commits) : commits.Nodup := h.distinct.of_map

/-- At the end of an inspection whose cache did not fail, the files hold all that it has found. -/
theorem kept_perform (hown : OwnSlots commits) (hworks : call.CacheWorks a files)
    (hround : ReadBack a (call.outcomes a files))
    (hprepare : (call.monitor a).prepare (call.session files) = .ok (commits, cache, opened)) :
    CommitCache.SameShelves (.ofText cache.root) opened (call.perform a files).1 ∧
      ∀ c b, (c, some b) ∈ call.outcomes a files → Kept a cache c (call.perform a files).1 b := by
  obtain ⟨-, hopen⟩ := prepare_ok hprepare
  obtain ⟨-, hcache⟩ := CommitCache.open_ok hopen
  have hfingerprint : cache.fingerprint = a.config.fingerprint := by rw [hcache]
  have htracked : Pool.Tracked
      (fun s => CommitCache.SameShelves (.ofText cache.root) opened s.files)
      (fun c s stage => stage.Stands a cache c s.files) (fun c s b => Leaves a cache c s.files b)
      commits (call.batch a commits cache opened (call.schedule commits.length)) :=
    Pool.Tracked.run (Pool.tracked_init (.refl _ _))
      (sideBySide_task (call.monitor a) opened hown) hown.nodup
      (hworks commits cache opened hprepare)
  rw [(perform_ok hprepare).1]
  refine ⟨htracked.shared, ?_⟩
  intro c b hmem
  -- only now is it known what was computed, and so what has to be read back
  have hback : ∀ v, b = .ok v → v.ReadsBack cache c := by
    rintro v rfl
    exact hround c v hmem cache hfingerprint
  simp only [Call.outcomes, hprepare] at hmem
  exact htracked.of_mem_zip hmem hback

/-! ## The second inspection -/

/-- What becomes of a commit if its record is found in the cache. -/
def again : Except PipelineError Verdict → Except PipelineError Verdict
  | .ok v => .ok (.cached v.record)
  | .error e => .error e

/-- What the files hold tells what becomes of a commit. -/
theorem Kept.again_eq {b b' : Except PipelineError Verdict} (h : Kept a cache c files b)
    (h' : Kept a cache c files b') : again b' = again b := by
  cases b with
  | ok v =>
    have hload : cache.load CommitRecord.decode c.id files = .ok (some v.record) := h
    cases b' with
    | ok v' =>
      have hload' : cache.load CommitRecord.decode c.id files = .ok (some v'.record) := h'
      have hrecord : v.record = v'.record :=
        Option.some.inj (Except.ok.inj (hload.symm.trans hload'))
      rw [again, again, hrecord]
    | error e' => cases hload.symm.trans h'.1
  | error e =>
    cases b' with
    | ok v' =>
      have hload' : cache.load CommitRecord.decode c.id files = .ok (some v'.record) := h'
      cases hload'.symm.trans h.1
    | error e' => rw [Except.error.inj (h.2.symm.trans h'.2)]

/-- A worker that only reads, and what it has read. -/
def Stage.Finds (cache : CommitCache) (files : FileTree) (c : Commit) : Stage → Prop
  | .lookUp c' => c' = c
  | .compute c' => c' = c ∧ cache.load CommitRecord.decode c.id files = .ok none
  | .announce c' (.cached r) =>
    c' = c ∧ cache.load CommitRecord.decode c.id files = .ok (some r)
  | .save _ _ _ | .announce _ (.analyzed _) => False

/-- Where the files hold everything, a worker finds it and changes nothing. -/
theorem Monitor.finds_step (m : Monitor) (cache : CommitCache) (s : Session) {stage : Stage}
    (hkept : ∃ b, Kept m.analyzer cache c s.files b) (hfinds : stage.Finds cache s.files c) :
    (m.step cache s stage).1.files = s.files ∧
      Sum.elim (Stage.Finds cache s.files c)
        (fun b => Kept m.analyzer cache c s.files b ∧ again b = b) (m.step cache s stage).2 := by
  unfold step
  cases stage with
  | lookUp c' =>
    obtain rfl : c' = c := hfinds
    obtain ⟨b, hb⟩ := hkept
    dsimp only
    cases b with
    | ok v =>
      have hload : cache.load CommitRecord.decode c'.id s.files = .ok (some v.record) := hb
      rw [hload]
      exact ⟨rfl, rfl, hload⟩
    | error e =>
      rw [hb.1]
      exact ⟨rfl, rfl, hb.1⟩
  | compute c' =>
    obtain ⟨rfl, hload⟩ := hfinds
    obtain ⟨b, hb⟩ := hkept
    dsimp only
    cases b with
    | ok v => cases hload.symm.trans hb
    | error e =>
      rw [hb.2]
      exact ⟨rfl, hb, rfl⟩
  | save c' r store => exact hfinds.elim
  | announce c' v =>
    cases v with
    | cached r => exact ⟨rfl, hfinds.2, rfl⟩
    | analyzed r => exact hfinds.elim

/-- An inspection of commits of which everything is there changes no file. -/
theorem sound_of_kept (call : Call) (actions : List PoolAction)
    (hkept : ∀ c ∈ commits, ∃ b, Kept a cache c opened b) :
    Pool.Sound (fun s => s.files = opened) (Stage.Finds cache opened)
      (fun c b => Kept a cache c opened b ∧ again b = b) commits
      (call.batch a commits cache opened actions) := by
  refine Pool.Sound.run_of_step (Pool.sound_init rfl) (fun _ => id) (fun c _ => rfl) ?_
  rintro c hc s stage rfl hfinds
  exact (call.monitor a).finds_step cache s (hkept c hc) hfinds

namespace Monitor

variable {outcomes outcomes' : Outcomes}

/-- The outcomes of an inspection that finds all records in the cache. -/
def allAgain (outcomes : Outcomes) : Outcomes :=
  outcomes.map fun (c, x) => (c, x.map again)

theorem eq_allAgain (hcommits : outcomes'.map (·.1) = outcomes.map (·.1))
    (h : ∀ c x x', (c, x) ∈ outcomes → (c, x') ∈ outcomes' → x' = x.map again) :
    outcomes' = allAgain outcomes := by
  induction outcomes generalizing outcomes' with
  | nil => exact List.map_eq_nil_iff.1 hcommits
  | cons outcome outcomes ih =>
    obtain ⟨c, x⟩ := outcome
    cases outcomes' with
    | nil => cases hcommits
    | cons outcome' outcomes' =>
      obtain ⟨c', x'⟩ := outcome'
      obtain ⟨rfl, hrest⟩ := List.cons.inj hcommits
      have hx : x' = x.map again := h c' x x' List.mem_cons_self List.mem_cons_self
      have hlater : outcomes' = allAgain outcomes := ih hrest fun c x x' hmem hmem' =>
        h c x x' (List.mem_cons_of_mem _ hmem) (List.mem_cons_of_mem _ hmem')
      rw [hx, hlater]
      rfl

theorem verdicts_allAgain (outcomes : Outcomes) : verdicts (allAgain outcomes) =
    (verdicts outcomes).map fun v => .cached v.record := by
  induction outcomes with
  | nil => rfl
  | cons outcome outcomes ih =>
    rcases outcome with ⟨c, _ | e | v⟩
    all_goals
      simp only [verdicts, allAgain, List.map_cons, List.filterMap_cons, Option.map_none,
        Option.map_some, again] at ih ⊢
      rw [ih]

theorem failures_allAgain (outcomes : Outcomes) :
    failures (allAgain outcomes) = failures outcomes := by
  induction outcomes with
  | nil => rfl
  | cons outcome outcomes ih =>
    rcases outcome with ⟨c, _ | e | v⟩
    all_goals
      simp only [failures, allAgain, List.map_cons, List.filterMap_cons, Option.map_none,
        Option.map_some, again] at ih ⊢
      rw [ih]

/-- Nothing is computed, and all else is reported again. -/
theorem report_allAgain (outcomes : Outcomes) :
    (report (allAgain outcomes)).analyzed = 0 ∧
      (report (allAgain outcomes)).cacheHits =
        (report outcomes).analyzed + (report outcomes).cacheHits ∧
      (report (allAgain outcomes)).failures = (report outcomes).failures ∧
      (report (allAgain outcomes)).impacts = (report outcomes).impacts := by
  rw [← length_verdicts]
  simp only [report, verdicts_allAgain, failures_allAgain]
  refine ⟨?_, ?_, trivial, ?_⟩
  · simp [List.countP_map, Function.comp_def]
  · simp [List.countP_map, Function.comp_def]
  · simp [Function.comp_def, Verdict.record]

end Monitor

/-- What an inspection needs to get as far as its pool. -/
theorem prepare_eq (hfault : call.config.fault? = none) (hgo : call.audience.cancelled = false)
    (hselection : call.selection a = .ok commits)
    (hmake : files.makeDirs (.ofText call.config.cacheDir) = .ok opened) :
    (call.monitor a).prepare (call.session files) =
      .ok (commits, ⟨call.config.cacheDir, a.config.fingerprint, call.process⟩, opened) := by
  cases hhead : a.history.resolve call.config.branch with
  | error e => simp [Call.selection, hhead, bind, Except.bind] at hselection
  | ok head =>
    simp only [Call.selection, hhead, bind, Except.bind] at hselection
    simp [Monitor.prepare, Call.monitor, Call.session, hfault, hgo, hhead, hselection,
      CommitCache.open, hmake, CommitCache.fault, Except.mapError, bind, Except.bind, pure,
      Except.pure]

theorem load_process {first second : CommitCache} (hroot : second.root = first.root)
    (hfingerprint : second.fingerprint = first.fingerprint) (commit : String) (t : FileTree) :
    second.load CommitRecord.decode commit t = first.load CommitRecord.decode commit t := by
  have hpath : second.entryPath commit = first.entryPath commit := by
    unfold CommitCache.entryPath CommitCache.slotPath
    rw [hroot]
  unfold CommitCache.load CommitCache.accept?
  rw [hpath, hfingerprint]

/-- Opening a cache again changes nothing for its loads. -/
theorem load_reopen {commit : String} (hslot : IsFileName (slotName commit))
    (hmake : files.makeDirs (.ofText cache.root) = .ok opened) :
    cache.load CommitRecord.decode commit opened = cache.load CommitRecord.decode commit files := by
  refine (CommitCache.SameShelves.makeDirs (Nat.le_succ _) hmake).load_eq hslot ?_
  rw [FileTree.get?_makeDirs hmake, if_neg]
  rw [CommitCache.slotDir_eq hslot]
  exact FilePath.not_prefix_of_length_lt (by simp)

/-- The directory of the cache can be opened again. -/
theorem makeDirs_again (hmake : files.makeDirs (.ofText cache.root) = .ok opened)
    (hshelves : CommitCache.SameShelves (.ofText cache.root) opened files') :
    ∃ reopened, files'.makeDirs (.ofText cache.root) = .ok reopened := by
  obtain ⟨hopen, hroot, hfits⟩ := FileTree.makeDirs_ok_iff.1 ⟨_, hmake⟩
  refine FileTree.makeDirs_ok_iff.2 ⟨?_, ?_, hfits⟩
  · intro q hq hne
    rw [hshelves.file q (Nat.le_succ_of_le hq.length_le), FileTree.bytesAt_makeDirs hmake]
    exact hopen q hq hne
  · rw [hshelves.file _ (Nat.le_succ _), FileTree.bytesAt_makeDirs hmake]
    exact hroot

/-- The outcomes of the second inspection are those of the first, all from the cache. -/
theorem outcomes_second {first second : Call} {cache' : CommitCache} {reopened : FileTree}
    (hown : OwnSlots commits) (hworks : first.CacheWorks a files)
    (hround : ReadBack a (first.outcomes a files))
    (hfirst : (first.monitor a).prepare (first.session files) = .ok (commits, cache, opened))
    (hall : ∀ x ∈ first.outcomes a files, x.2.isSome)
    (hdir : second.config.cacheDir = first.config.cacheDir)
    (hsecond : (second.monitor a).prepare (second.session (first.perform a files).1) =
      .ok (commits, cache', reopened))
    (hall' : ∀ x ∈ second.outcomes a (first.perform a files).1, x.2.isSome) :
    second.outcomes a (first.perform a files).1 = Monitor.allAgain (first.outcomes a files) := by
  obtain ⟨-, hopen⟩ := prepare_ok hfirst
  obtain ⟨-, hcache⟩ := CommitCache.open_ok hopen
  obtain ⟨-, hopen'⟩ := prepare_ok hsecond
  obtain ⟨hmake, hcache'⟩ := CommitCache.open_ok hopen'
  have hroot : cache'.root = cache.root := by rw [hcache, hcache', hdir]
  have hfingerprint : cache'.fingerprint = cache.fingerprint := by rw [hcache, hcache']
  rw [hdir, show first.config.cacheDir = cache.root by rw [hcache]] at hmake
  have hcommits : (first.outcomes a files).map (·.1) = commits :=
    Except.ok.inj ((report_of_perform (perform_ok hfirst).2).2.symm.trans (prepare_ok hfirst).1)
  have hcommits' : (second.outcomes a (first.perform a files).1).map (·.1) = commits :=
    Except.ok.inj ((report_of_perform (perform_ok hsecond).2).2.symm.trans (prepare_ok hsecond).1)
  -- what the first inspection leaves is there for the second
  have hkept : ∀ c b, (c, some b) ∈ first.outcomes a files → Kept a cache' c reopened b := by
    intro c b hmem
    have hc : c ∈ commits := hcommits ▸ List.mem_map_of_mem hmem
    refine ((kept_perform hown hworks hround hfirst).2 c b hmem).congr ?_
    rw [load_process hroot hfingerprint, load_reopen (hown.names c hc) hmake]
  -- and it is there for all commits, as the first was not cancelled
  have hfull : ∀ c ∈ commits, ∃ b, Kept a cache' c reopened b := by
    intro c hc
    rw [← hcommits] at hc
    obtain ⟨⟨c, x⟩, hmem, rfl⟩ := List.mem_map.1 hc
    obtain ⟨b, rfl⟩ := Option.isSome_iff_exists.1 (hall _ hmem)
    exact ⟨b, hkept c b hmem⟩
  have hfound : ∀ c b, (c, some b) ∈ second.outcomes a (first.perform a files).1 →
      Kept a cache' c reopened b ∧ again b = b := by
    intro c b hmem
    simp only [Call.outcomes, hsecond] at hmem
    exact (sound_of_kept second _ hfull).of_mem_zip hmem
  refine Monitor.eq_allAgain (hcommits'.trans hcommits.symm) ?_
  intro c x x' hmem hmem'
  obtain ⟨b, rfl⟩ := Option.isSome_iff_exists.1 (hall _ hmem)
  obtain ⟨b', rfl⟩ := Option.isSome_iff_exists.1 (hall' _ hmem')
  obtain ⟨hkept', hagain⟩ := hfound c b' hmem'
  rw [Option.map_some, ← hagain, (hkept c b hmem).again_eq hkept']

/-- After an inspection that was not cancelled and whose cache did not fail, the next inspection of
the same commits with the same analyser gets its report, and unless it is cancelled, it computes
nothing: it takes from the cache all that the first has found, and it reports the same failures and
the same records. -/
theorem second_inspection_reuses (a : CommitAnalyzer) (first second : Call) (files : FileTree)
    (commits : List Commit) (report : Report) (hselection : first.selection a = .ok commits)
    (hown : OwnSlots commits) (hreport : (first.perform a files).2 = .ok report)
    (hgo : report.cancelled = false) (hworks : first.CacheWorks a files)
    (hround : ReadBack a (first.outcomes a files)) (hsame : second.selection a = .ok commits)
    (hdir : second.config.cacheDir = first.config.cacheDir) :
    (second.config.fault? = none → second.audience.cancelled = false →
      ∃ next, (second.perform a (first.perform a files).1).2 = .ok next) ∧
    (second.Completes a (first.perform a files).1 →
      ∃ next, (second.perform a (first.perform a files).1).2 = .ok next ∧ next.cancelled = false) ∧
    ∀ next, (second.perform a (first.perform a files).1).2 = .ok next → next.cancelled = false →
      next.analyzed = 0 ∧ next.cacheHits = report.analyzed + report.cacheHits ∧
        next.failures = report.failures ∧ next.impacts = report.impacts ∧
        (Json.arr (next.impacts.map (·.toJson))).compact.toUTF8 =
          (Json.arr (report.impacts.map (·.toJson))).compact.toUTF8 := by
  cases hfirst : (first.monitor a).prepare (first.session files) with
  | error e =>
    rw [perform_error hfirst] at hreport
    cases hreport
  | ok found =>
    obtain ⟨listed, cache, opened⟩ := found
    obtain ⟨hlisted, hopen⟩ := prepare_ok hfirst
    obtain rfl : listed = commits := Except.ok.inj (hlisted.symm.trans hselection)
    obtain ⟨hmake, hcache⟩ := CommitCache.open_ok hopen
    obtain ⟨rfl, -⟩ := report_of_perform hreport
    refine ⟨?_, ?_, ?_⟩
    · -- the first inspection has not put anything in the way of the directory
      intro hfault hcalm
      have hroot : first.config.cacheDir = cache.root := by rw [hcache]
      rw [hroot] at hmake
      obtain ⟨reopened, hreopen⟩ :=
        makeDirs_again hmake (kept_perform hown hworks hround hfirst).1
      rw [← hroot, ← hdir] at hreopen
      exact ⟨_, (perform_ok (prepare_eq hfault hcalm hsame hreopen)).2⟩
    · rintro ⟨commits', cache', reopened, hsecond, hsettled, hcalm⟩
      refine ⟨_, (perform_ok hsecond).2, Monitor.cancelled_report_iff.2 ?_⟩
      rintro ⟨c, x⟩ hmem
      exact Pool.results_of_settled (steady_call a second commits' cache' reopened _) hsettled hcalm
        x (List.of_mem_zip hmem).2
    · intro next hnext hcalm
      obtain ⟨rfl, -⟩ := report_of_perform hnext
      cases hsecond : (second.monitor a).prepare (second.session (first.perform a files).1) with
      | error e =>
        rw [perform_error hsecond] at hnext
        cases hnext
      | ok found' =>
        obtain ⟨commits', cache', reopened⟩ := found'
        obtain rfl : commits' = listed := Except.ok.inj ((prepare_ok hsecond).1.symm.trans hsame)
        have houtcomes := outcomes_second hown hworks hround hfirst
          (Monitor.cancelled_report_iff.1 hgo) hdir hsecond (Monitor.cancelled_report_iff.1 hcalm)
        rw [houtcomes]
        obtain ⟨hnone, hhits, hfailures, himpacts⟩ :=
          Monitor.report_allAgain (first.outcomes a files)
        exact ⟨hnone, hhits, hfailures, himpacts, by rw [himpacts]⟩

/-! ## Caches that do not fail -/

/-- A store that is under way has its directory, and the draft that it is about to move. -/
def Stage.Housed (cache : CommitCache) (files : FileTree) : Stage → Prop
  | .save c _ .writeDraft => files.get? (cache.slotDir c.id) = some .directory
  | .save c _ .moveDraft => files.get? (cache.slotDir c.id) = some .directory ∧
    files.bytesAt (cache.slotDir c.id ++ [cache.draftName]) ≠ none
  | .save _ _ (.dropDraft _) => False
  | .save _ _ .makeSlot | .lookUp _ | .compute _ | .announce _ _ => True

theorem Stage.Housed.congr {stage : Stage} (h : stage.Housed cache files)
    (hdir : files.get? (cache.slotDir stage.commit.id) = some .directory →
      files'.get? (cache.slotDir stage.commit.id) = some .directory)
    (hdraft : files'.bytesAt (cache.slotDir stage.commit.id ++ [cache.draftName]) =
      files.bytesAt (cache.slotDir stage.commit.id ++ [cache.draftName])) :
    stage.Housed cache files' := by
  cases stage with
  | save c r store =>
    rw [Stage.commit] at hdir hdraft
    cases store with
    | makeSlot => trivial
    | writeDraft => exact hdir h
    | moveDraft =>
      refine ⟨hdir h.1, ?_⟩
      rw [hdraft]
      exact h.2
    | dropDraft failure => exact h
  | lookUp | compute | announce => trivial

/-- With nothing in its way, a store goes on and does not fail. -/
theorem housed_store {r : CommitRecord} {store : CommitCache.StoreStage} {bytes : ByteArray}
    {next : CommitCache.StoreStage ⊕ Except StorageError String}
    (hfree : CommitCache.Unblocked cache c.id files)
    (hhoused : (Stage.save c r store).Housed cache files)
    (hmove : CommitCache.StoreMove cache c.id bytes files store files' next) :
    Sum.elim (fun store' => (Stage.save c r store').Housed cache files')
      (fun result => ∀ failure, result ≠ .error failure) next := by
  have hopen (name : String) := hfree.above.child hfree.slot name
  cases hmove with
  | made hmake =>
    show files'.get? _ = _
    rw [FileTree.get?_makeDirs hmake, if_pos (List.prefix_refl _)]
  -- a step that failed would have had to succeed
  | notMade hfail =>
    obtain ⟨made, hmake⟩ := FileTree.makeDirs_ok_iff.2 ⟨hfree.above, hfree.slot, hfree.fits⟩
    cases hmake.symm.trans hfail
  | written hwrite =>
    have hne : cache.slotDir c.id ≠ cache.slotDir c.id ++ [cache.draftName] := by simp
    rw [FileTree.eq_of_write hwrite]
    refine ⟨?_, ?_⟩
    · rw [FileTree.get?_set_ne hne]
      exact hhoused
    · rw [FileTree.bytesAt_set_file (by simp)]
      simp
  | notWritten hfail =>
    have hparent : files.get? (cache.slotDir c.id ++ [cache.draftName]).dropLast =
        some .directory := by
      rw [List.dropLast_concat]
      exact hhoused
    cases (FileTree.write_ok (hopen cache.draftName) hfree.draft hparent).symm.trans hfail
  | moved => simp
  | notMoved hfail =>
    obtain ⟨hdir, hdraft⟩ := hhoused
    obtain ⟨draft, hbytes⟩ := Option.ne_none_iff_exists'.1 hdraft
    have hread := FileTree.read_ok_iff.2
      ⟨hopen cache.draftName, FileTree.bytesAt_eq_some_iff.1 hbytes⟩
    have hparent : files.get? (cache.slotDir c.id ++ [CommitCache.entryName]).dropLast =
        some .directory := by
      rw [List.dropLast_concat]
      exact hdir
    have hmoved := FileTree.move_ok hread (hopen CommitCache.entryName) hfree.entry hparent
    cases hmoved.symm.trans hfail
  | dropped | notDropped => exact hhoused.elim

theorem works_of_housed {stage : Stage} (hfree : CommitCache.Unblocked cache stage.commit.id files)
    (hhoused : stage.Housed cache files) : stage.Works cache files := by
  cases stage with
  | lookUp c =>
    exact CommitCache.load_ok_iff.2
      ⟨hfree.above.child hfree.slot _, hfree.entry, fun _ => hfree.fits⟩
  | save c r store =>
    have hstore := housed_store hfree hhoused
      (CommitCache.storeMove_storeStep cache c.id (cache.documentBytes c.id r.toJson) files store)
    intro failure hfail
    rw [hfail] at hstore
    exact hstore failure rfl
  | compute | announce => trivial

/-- A step of a worker with nothing in its way. -/
theorem Monitor.housed_step {m : Monitor} {s : Session} {stage : Stage}
    (hfree : CommitCache.Unblocked cache stage.commit.id s.files)
    (hhoused : stage.Housed cache s.files) : ∀ next, (m.step cache s stage).2 = .inl next →
      next.commit = stage.commit ∧ next.Housed cache (m.step cache s stage).1.files := by
  cases stage with
  | lookUp c =>
    unfold step
    dsimp only
    split <;> rintro next ⟨⟩ <;> exact ⟨rfl, trivial⟩
  | compute c =>
    unfold step
    dsimp only
    split <;> rintro next ⟨⟩
    exact ⟨rfl, trivial⟩
  | save c r store =>
    have hstore := housed_store hfree hhoused
      (CommitCache.storeMove_storeStep cache c.id (cache.documentBytes c.id r.toJson) s.files store)
    obtain ⟨t', next, hstep⟩ : ∃ t' next, cache.storeStep c.id
      (cache.documentBytes c.id r.toJson) s.files store = (t', next) := ⟨_, _, rfl⟩
    rw [hstep] at hstore
    rw [m.step_save cache s c r store hstep]
    rintro _ ⟨⟩
    cases next with
    | inl store' => exact ⟨rfl, hstore⟩
    | inr result => exact ⟨rfl, trivial⟩
  | announce c v => rintro next ⟨⟩

/-- Workers with slots of their own and nothing in their way. -/
theorem sideBySide_housed (m : Monitor) (hown : OwnSlots commits)
    (hfree : ∀ c ∈ commits, CommitCache.Unblocked cache c.id files) :
    Pool.SideBySide (m.task cache) commits
      (fun s => CommitCache.SameShelves (.ofText cache.root) files s.files)
      (fun c s stage => stage.commit = c ∧ stage.Housed cache s.files) (fun _ _ _ => True)
      (fun _ _ => True) where
  cancel s hs := ⟨hs, fun _ => ⟨fun _ => id, fun _ => id⟩⟩
  start c _ s := ⟨rfl, trivial⟩
  own := by
    rintro c hc s stage hs ⟨rfl, hhoused⟩ -
    have hnow := (hfree _ hc).of_sameShelves (hown.names _ hc) hs
    have hnext := Monitor.housed_step (m := m) hnow hhoused
    refine ⟨hs.trans (m.sameShelves_step cache s (hown.names _ hc)), ?_⟩
    show Sum.elim _ _ (m.step cache s stage).2
    cases hstep : (m.step cache s stage).2 with
    | inl next => exact hnext next hstep
    | inr b => trivial
  others := by
    rintro c hc other hother hne s stage ⟨rfl, -⟩
    have hapart : slotName other.id ≠ slotName stage.commit.id :=
      fun heq => hne (List.inj_on_of_nodup_map hown.distinct hother hc heq)
    refine ⟨?_, fun _ _ => trivial⟩
    rintro stage' ⟨rfl, hhoused⟩
    refine ⟨rfl, hhoused.congr ?_ ?_⟩
    · refine (m.sameShelves_step cache s (hown.names _ hc)).directory _ ?_
      simp [CommitCache.slotDir_eq (hown.names _ hother)]
    · exact (m.others_step cache s (hown.names _ hc) (hown.names _ hother) hapart).2

/-- Where nothing is in the way of the slots, and every commit has its own, no read and no write of
the cache fails. -/
theorem cacheWorks_of_unblocked (hown : OwnSlots commits)
    (hselection : call.selection a = .ok commits)
    (hfree : ∀ c ∈ commits, CommitCache.Unblocked
      ⟨call.config.cacheDir, a.config.fingerprint, call.process⟩ c.id files) :
    call.CacheWorks a files := by
  intro listed cache opened hprepare first i stage _ hslot
  obtain ⟨hlisted, hopen⟩ := prepare_ok hprepare
  obtain rfl : listed = commits := Except.ok.inj (hlisted.symm.trans hselection)
  obtain ⟨hmake, hcache⟩ := CommitCache.open_ok hopen
  rw [← hcache] at hfree
  rw [show call.config.cacheDir = cache.root by rw [hcache]] at hmake
  have htracked : Pool.Tracked (fun s => CommitCache.SameShelves (.ofText cache.root) files s.files)
      (fun c s stage => stage.commit = c ∧ stage.Housed cache s.files) (fun _ _ _ => True) listed
      (call.batch a listed cache opened first) :=
    Pool.Tracked.run (Pool.tracked_init (CommitCache.SameShelves.makeDirs (Nat.le_succ _) hmake))
      (sideBySide_housed (call.monitor a) hown hfree) hown.nodup fun _ _ _ _ _ => trivial
  have hi : i < listed.length := htracked.length_slots ▸ (List.getElem?_eq_some_iff.1 hslot).1
  obtain ⟨hcommit, hhoused⟩ := htracked.running i _ stage (List.getElem?_eq_getElem hi) hslot
  refine works_of_housed ?_ hhoused
  rw [hcommit]
  have hc : listed[i] ∈ listed := List.getElem_mem hi
  exact (hfree _ hc).of_sameShelves (hown.names _ hc) htracked.shared

/-! ## Two inspections of a small history -/

/-- Three commits with slots of their own, one of them without a parent. -/
def siblings : RecordedHistory where
  commits :=
    [⟨"1a2b3c4d", ["0123456"], "left", ⟨"dev", "dev@x"⟩, .ofSeconds 86400, .ofSeconds 86400⟩,
      ⟨"5e6f7a8b", ["0123456"], "right", ⟨"dev", "dev@x"⟩, .ofSeconds 86400, .ofSeconds 86400⟩,
      ⟨"0123456", [], "start", ⟨"dev", "dev@x"⟩, .ofSeconds 0, .ofSeconds 0⟩]
  refs := [("main", "1a2b3c4d")]
  diffs := [⟨"0123456", "1a2b3c4d", []⟩, ⟨"0123456", "5e6f7a8b", []⟩]
  files := []
  walkError := none
  unreadable := []

def siblingAnalyzer : CommitAnalyzer := { twinAnalyzer with history := siblings.history }

/-- Three workers, step by step in turn. -/
def abreast (_ : Nat) : List PoolAction :=
  [.submit, .submit, .submit, .start 0, .start 1, .start 2] ++
    (List.replicate 6 [.advance 2, .advance 1, .advance 0]).flatten

theorem ownSlots_siblings : OwnSlots siblings.commits := by
  constructor
  · unfold IsFileName
    decide +kernel
  · decide +kernel

theorem fits_siblings : ∀ c ∈ siblings.commits,
    (CommitCache.slotDir ⟨"cache", siblingAnalyzer.config.fingerprint, 1⟩ c.id).Fits := by
  unfold FilePath.Fits
  decide +kernel

theorem readBack_siblings :
    ReadBack siblingAnalyzer ((twinCall abreast).outcomes siblingAnalyzer .empty) := by
  have hall : ((twinCall abreast).outcomes siblingAnalyzer .empty).all (fun outcome =>
      (outcome.2.bind (·.toOption)).all fun v => decide v.record.Rereadable) = true := by
    decide +kernel
  intro c v hmem cache _
  have hchecked := List.all_eq_true.1 hall _ hmem
  rw [Option.bind_some, Except.toOption, Option.all_some] at hchecked
  cases v with
  | cached r => trivial
  | analyzed r => exact CommitCache.spelled_of_rereadable cache c.id (of_decide_eq_true hchecked)

/-- After three workers at a time, a single one has nothing to compute. -/
theorem second_inspection_reuses_siblings :
    ∃ report next, ((twinCall abreast).perform siblingAnalyzer .empty).2 = .ok report ∧
      (report.analyzed, report.cacheHits, report.failed) = (2, 0, 1) ∧
      ((twinCall (Pool.inOrder · Monitor.stepsPerCommit)).perform siblingAnalyzer
        ((twinCall abreast).perform siblingAnalyzer .empty).1).2 = .ok next ∧
      next.analyzed = 0 ∧ next.cacheHits = report.analyzed + report.cacheHits ∧
      next.failures = report.failures ∧ next.impacts = report.impacts := by
  have hcounts : ((twinCall abreast).perform siblingAnalyzer .empty).2.toOption.map (fun report =>
      (report.analyzed, report.cacheHits, report.failed, report.cancelled)) =
        some (2, 0, 1, false) := by
    decide +kernel
  have hcompletes : (twinCall (Pool.inOrder · Monitor.stepsPerCommit)).Completes siblingAnalyzer
      ((twinCall abreast).perform siblingAnalyzer .empty).1 := by
    decide +kernel
  have hworks : (twinCall abreast).CacheWorks siblingAnalyzer .empty :=
    cacheWorks_of_unblocked ownSlots_siblings rfl fun c hc =>
      CommitCache.unblocked_empty (fits_siblings c hc)
  cases hreport : ((twinCall abreast).perform siblingAnalyzer .empty).2 with
  | error e =>
    rw [hreport] at hcounts
    cases hcounts
  | ok report =>
    rw [hreport, Except.toOption, Option.map_some, Option.some.injEq] at hcounts
    simp only [Prod.mk.injEq] at hcounts
    obtain ⟨hanalyzed, hhits, hfailed, hgo⟩ := hcounts
    obtain ⟨-, hdone, hnext⟩ := second_inspection_reuses siblingAnalyzer (twinCall abreast)
      (twinCall (Pool.inOrder · Monitor.stepsPerCommit)) .empty siblings.commits report
      rfl ownSlots_siblings hreport hgo hworks readBack_siblings rfl rfl
    obtain ⟨next, hok, hcalm⟩ := hdone hcompletes
    obtain ⟨hnone, hagain, hfailures, himpacts, -⟩ := hnext next hok hcalm
    exact ⟨report, next, rfl, by rw [hanalyzed, hhits, hfailed], hok, hnone, hagain, hfailures,
      himpacts⟩

end Inspection

end ChangeImpact
