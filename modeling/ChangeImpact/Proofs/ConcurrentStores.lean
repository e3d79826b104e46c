import ChangeImpact.Proofs.PoolRuns
import ChangeImpact.Proofs.StoreSteps

/-!
# Concurrent stores

Several stores of one process, whose steps come in any order. Stores of commits with the same slot
share the entry and the draft: one of them may publish what another has written, find its draft
gone, and drop the draft of a third. Still every entry is a whole document at every moment.

The stores are a batch of a pool, and a moment is the state after a schedule.

* `CommitCache.storesAfter` — the batch after a schedule;
* `CommitCache.Tidy` — entries are as before or whole documents, and so are drafts that may be
  moved; every schedule keeps this;
* `CommitCache.Landed` — a store that has found its draft gone, or that has returned, leaves a
  document behind; every schedule in which only drafts get lost keeps this;
* `CommitCache.SameShelves` — what the stores leave alone, so that loads do not fail;
* `CommitCache.concurrent_stores_atomic` — what follows for entries, loads and finished stores.
-/

namespace ChangeImpact.CommitCache

variable {α : Type}

/-! ## Batches of stores -/

/-- A store that is asked for. -/
structure StoreCall (α : Type) where
  commit : String
  value : α

/-- The document that a store writes. -/
def document (c : CommitCache) (encode : α → Json) (call : StoreCall α) : ByteArray :=
  c.documentBytes call.commit (encode call.value)

/-- Stores as the tasks of a pool; nobody cancels them. -/
def storing (c : CommitCache) (encode : α → Json) :
    PoolTask FileTree (StoreCall α) (StoreCall α × StoreStage) (Except StorageError String) where
  start call := (call, .makeSlot)
  step t := fun (call, stage) =>
    match c.storeStep call.commit (c.document encode call) t stage with
    | (t, .inl stage) => (t, .inl (call, stage))
    | (t, .inr result) => (t, .inr result)
  cancelled _ := false
  cancel t := t

/-- The state of a batch of stores. -/
abbrev Stores (α : Type) :=
  Pool FileTree (StoreCall α × StoreStage) (Except StorageError String)

/-- The batch after a schedule. -/
def storesAfter (c : CommitCache) (encode : α → Json) (calls : List (StoreCall α))
    (start : FileTree) (schedule : List PoolAction) : Stores α :=
  Pool.run (c.storing encode) calls schedule (Pool.init start calls)

variable {c : CommitCache} {encode : α → Json} {calls : List (StoreCall α)} {start : FileTree}
  {schedule : List PoolAction} {p p' : Stores α}

/-- The slot of a store in the pool after a step. -/
def slotAfter (call : StoreCall α) :
    StoreStage ⊕ Except StorageError String →
      PoolSlot (StoreCall α × StoreStage) (Except StorageError String)
  | .inl stage => .running (call, stage)
  | .inr result => .done result

/-- What one action can do to a batch of stores: a step of one store, or a store is taken up. -/
inductive StoresMove (c : CommitCache) (encode : α → Json) (calls : List (StoreCall α))
    (p : Stores α) : PoolAction → Stores α → Prop where
  | advance {p' : Stores α} {i : Nat} {call : StoreCall α} {stage : StoreStage}
    {t' : FileTree} {next : StoreStage ⊕ Except StorageError String}
    (hslot : p.slots[i]? = some (.running (call, stage)))
    (hmove : StoreMove c call.commit (c.document encode call) p.shared stage t' next)
    (hshared : p'.shared = t') (hslots : p'.slots = p.slots.set i (slotAfter call next)) :
    StoresMove c encode calls p (.advance i) p'
  | other {p' : Stores α} {a : PoolAction} (hshared : p'.shared = p.shared)
    (hslots : ∀ (i : Nat) x, p'.slots[i]? = some x → p.slots[i]? = some x ∨ x = .queued ∨
      ∃ call, calls[i]? = some call ∧ x = .running (call, .makeSlot)) :
    StoresMove c encode calls p a p'

theorem storesMove_step (c : CommitCache) (encode : α → Json) (calls : List (StoreCall α))
    (p : Stores α) (a : PoolAction) :
    StoresMove c encode calls p a (Pool.step (c.storing encode) calls p a) := by
  cases a with
  | advance i =>
    by_cases hrunning : ∃ call stage, p.slots[i]? = some (.running (call, stage))
    · obtain ⟨call, stage, hslot⟩ := hrunning
      have hmove := storeMove_storeStep c call.commit (c.document encode call) p.shared stage
      have hstep : Pool.step (c.storing encode) calls p (.advance i) =
          { p with
            shared := (c.storeStep call.commit (c.document encode call) p.shared stage).1
            slots := p.slots.set i (slotAfter call
              (c.storeStep call.commit (c.document encode call) p.shared stage).2) } := by
        simp only [Pool.step, hslot, storing]
        rcases c.storeStep call.commit (c.document encode call) p.shared stage with ⟨t', _ | _⟩
        · rfl
        · rfl
      rw [hstep]
      exact .advance hslot hmove rfl rfl
    · have hidle : Pool.step (c.storing encode) calls p (.advance i) = p := by
        simp only [Pool.step]
        split
        · rename_i hslot
          exact absurd ⟨_, _, hslot⟩ hrunning
        · rfl
      rw [hidle]
      exact .other rfl fun _ _ hx => .inl hx
  | submit =>
    simp only [Pool.step, storing]
    split
    · exact .other rfl fun _ _ hx => .inl hx
    · refine .other rfl ?_
      intro i x hx
      rcases Pool.mem_set_cases hx with ⟨-, rfl⟩ | hold
      · exact .inr (.inl rfl)
      · exact .inl hold
  | start i =>
    simp only [Pool.step, storing]
    split
    · rename_i call _ hcall
      refine .other rfl ?_
      intro j x hx
      rcases Pool.mem_set_cases hx with ⟨rfl, rfl⟩ | hold
      · exact .inr (.inr ⟨call, hcall, rfl⟩)
      · exact .inl hold
    · exact .other rfl fun _ _ hx => .inl hx
  | cancel => exact .other rfl fun _ _ hx => .inl hx

/-- What holds at the start and is kept by every action holds after every schedule. `E` is what is
known about the actions that are taken. -/
theorem storesAfter_induction {Q : Stores α → Prop} {E : Stores α → PoolAction → Prop}
    (hinit : Q (Pool.init start calls))
    (hmove : ∀ p a p', Q p → E p a → StoresMove c encode calls p a p' → Q p')
    (hE : ∀ first a, first ++ [a] <+: schedule → E (c.storesAfter encode calls start first) a) :
    Q (c.storesAfter encode calls start schedule) := by
  -- from the end, so that the last action meets the batch that all others have left
  induction schedule using List.reverseRecOn with
  | nil => exact hinit
  | append_singleton schedule a ih =>
    have hbefore := ih fun first b hfirst => hE first b (hfirst.trans (List.prefix_append _ _))
    have hmoves := storesMove_step c encode calls (c.storesAfter encode calls start schedule) a
    rw [storesAfter, Pool.run_append]
    exact hmove _ a _ hbefore (hE schedule a (List.prefix_refl _)) hmoves

/-! ## Whole documents -/

/-- One of the stores has this slot and writes this document. -/
def Writes (c : CommitCache) (encode : α → Json) (calls : List (StoreCall α)) (dir : FilePath)
    (bytes : ByteArray) : Prop :=
  ∃ call ∈ calls, c.slotDir call.commit = dir ∧ bytes = c.document encode call

/-- The entry of a slot is the document of one of the stores. -/
def Published (c : CommitCache) (encode : α → Json) (calls : List (StoreCall α)) (dir : FilePath)
    (t : FileTree) : Prop :=
  ∃ bytes, Writes c encode calls dir bytes ∧ t.bytesAt (dir ++ [entryName]) = some bytes

/-- Whether a store has written its draft. -/
def StoreStage.HasWritten : StoreStage → Prop
  | .makeSlot | .writeDraft => False
  | .moveDraft | .dropDraft _ => True

/-- Entries are as they were at the start or whole documents. So is every draft that a store may
move, whichever store has written it. -/
structure Tidy (c : CommitCache) (encode : α → Json) (calls : List (StoreCall α)) (start : FileTree)
    (p : Stores α) : Prop where
  call : ∀ (i : Nat) call stage, p.slots[i]? = some (.running (call, stage)) →
    calls[i]? = some call
  entry : ∀ dir, p.shared.bytesAt (dir ++ [entryName]) = start.bytesAt (dir ++ [entryName]) ∨
    Published c encode calls dir p.shared
  draft : ∀ (i : Nat) call stage bytes, p.slots[i]? = some (.running (call, stage)) →
    stage.HasWritten → p.shared.bytesAt (c.slotDir call.commit ++ [c.draftName]) = some bytes →
    Writes c encode calls (c.slotDir call.commit) bytes

theorem init_slots_ne (i : Nat)
    {x : PoolSlot (StoreCall α × StoreStage) (Except StorageError String)} (hx : x ≠ .unsubmitted) :
    (Pool.init start calls : Stores α).slots[i]? ≠ some x := by
  intro hslot
  rw [Pool.init, List.getElem?_map, Option.map_eq_some_iff] at hslot
  obtain ⟨-, -, hslot⟩ := hslot
  exact hx hslot.symm

theorem tidy_init : Tidy c encode calls start (Pool.init start calls) where
  call i _ _ h := absurd h (init_slots_ne i (by simp))
  entry _ := .inl rfl
  draft i _ _ _ h := absurd h (init_slots_ne i (by simp))

/-- A store of one of the calls is under way. -/
theorem Tidy.mem {i : Nat} {call : StoreCall α} {stage : StoreStage}
    (h : Tidy c encode calls start p) (hslot : p.slots[i]? = some (.running (call, stage))) :
    call ∈ calls :=
  List.mem_of_getElem? (h.call i call stage hslot)

/-- A step leaves an entry alone or makes it a whole document. -/
theorem Tidy.entry_move {i : Nat} {call : StoreCall α} {stage : StoreStage} {t' : FileTree}
    {next : StoreStage ⊕ Except StorageError String} (h : Tidy c encode calls start p)
    (hslot : p.slots[i]? = some (.running (call, stage)))
    (hmove : StoreMove c call.commit (c.document encode call) p.shared stage t' next)
    (dir : FilePath) :
    t'.bytesAt (dir ++ [entryName]) = p.shared.bytesAt (dir ++ [entryName]) ∨
      Published c encode calls dir t' := by
  rcases hmove.bytesAt_entry dir with hsame | ⟨rfl, rfl, moved, hdraft, hentry⟩
  · exact .inl hsame
  · exact .inr ⟨moved, h.draft i call _ moved hslot trivial hdraft, hentry⟩

/-- What is published stays so: a document only gives way to another. -/
theorem Tidy.published_move {i : Nat} {call : StoreCall α} {stage : StoreStage} {t' : FileTree}
    {next : StoreStage ⊕ Except StorageError String} (h : Tidy c encode calls start p)
    (hslot : p.slots[i]? = some (.running (call, stage)))
    (hmove : StoreMove c call.commit (c.document encode call) p.shared stage t' next)
    {dir : FilePath} (hpublished : Published c encode calls dir p.shared) :
    Published c encode calls dir t' := by
  rcases h.entry_move hslot hmove dir with hsame | hnew
  · obtain ⟨bytes, hwrites, hbytes⟩ := hpublished
    exact ⟨bytes, hwrites, hsame.trans hbytes⟩
  · exact hnew

theorem Tidy.move {a : PoolAction} (h : Tidy c encode calls start p)
    (hmove : StoresMove c encode calls p a p') : Tidy c encode calls start p' := by
  cases hmove with
  | other hshared hslots =>
    constructor
    · intro i call stage hslot
      rcases hslots i _ hslot with hold | hqueued | ⟨call', hcall, hfresh⟩
      · exact h.call i call stage hold
      · cases hqueued
      · cases hfresh
        exact hcall
    · rw [hshared]
      exact h.entry
    · rw [hshared]
      intro i call stage bytes hslot hwritten
      rcases hslots i _ hslot with hold | hqueued | ⟨call', hcall, hfresh⟩
      · exact h.draft i call stage bytes hold hwritten
      · cases hqueued
      · cases hfresh
        exact absurd hwritten id
  | @advance _ i call stage t' next hslot hmove hshared hslots =>
    constructor
    · intro j call' stage' hslot'
      rw [hslots] at hslot'
      rcases Pool.mem_set_cases hslot' with ⟨rfl, hnew⟩ | hold
      · cases next with
        | inl stage'' =>
          cases hnew
          exact h.call j call stage hslot
        | inr result => cases hnew
      · exact h.call j call' stage' hold
    · rw [hshared]
      intro dir
      rcases h.entry_move hslot hmove dir with hsame | hpublished
      · rcases h.entry dir with hstart | hpublished
        · exact .inl (hsame.trans hstart)
        · exact .inr (h.published_move hslot hmove hpublished)
      · exact .inr hpublished
    · rw [hshared]
      intro j call' stage' bytes hslot' hwritten hbytes
      rw [hslots] at hslot'
      rcases Pool.mem_set_cases hslot' with ⟨rfl, hnew⟩ | hold
      · -- the store that moved has just written its draft, or has failed to move one
        cases hmove with
        | made => cases hnew; exact absurd hwritten id
        | written hwrite =>
          cases hnew
          rw [FileTree.eq_of_write hwrite, FileTree.bytesAt_set_file (by simp)] at hbytes
          exact ⟨call, h.mem hslot, rfl, (Option.some.inj hbytes).symm⟩
        | notMoved =>
          cases hnew
          exact h.draft j call _ bytes hslot trivial hbytes
        | notMade | notWritten | moved | dropped | notDropped => cases hnew
      · -- another store's draft may have been replaced, if it is the same file
        rcases hmove.bytesAt_draft (c.slotDir call'.commit) with hsame | ⟨hdir, hchange⟩
        · exact h.draft j call' stage' bytes hold hwritten (hsame ▸ hbytes)
        · rcases hchange with ⟨-, hdraft⟩ | ⟨hgone, -⟩
          · rw [hdraft] at hbytes
            exact ⟨call, h.mem hslot, hdir.symm, (Option.some.inj hbytes).symm⟩
          · rw [hgone] at hbytes
            cases hbytes

theorem tidy_storesAfter (c : CommitCache) (encode : α → Json) (calls : List (StoreCall α))
    (start : FileTree) (schedule : List PoolAction) :
    Tidy c encode calls start (c.storesAfter encode calls start schedule) :=
  storesAfter_induction (E := fun _ _ => True) tidy_init (fun _ _ _ h _ hmove => h.move hmove)
    (fun _ _ _ => trivial)

/-! ## Finished stores -/

/-- The next step of a store succeeds, or it is to move a draft that is gone. How the removal of a
draft ends makes no difference. -/
def Excused (c : CommitCache) (encode : α → Json) (call : StoreCall α) (t : FileTree) :
    StoreStage → Prop
  | .makeSlot => ∃ t', t.makeDirs (c.slotDir call.commit) = .ok t'
  | .writeDraft =>
    ∃ t', t.write (c.slotDir call.commit ++ [c.draftName]) (c.document encode call) = .ok t'
  | .moveDraft =>
    (∃ t', t.move (c.slotDir call.commit ++ [c.draftName])
      (c.slotDir call.commit ++ [entryName]) = .ok t') ∨
      t.get? (c.slotDir call.commit ++ [c.draftName]) = none
  | .dropDraft _ => True

/-- Only moves and removals of drafts fail in a schedule, and they fail as the draft is gone. -/
def OnlyDraftsLost (c : CommitCache) (encode : α → Json) (calls : List (StoreCall α))
    (start : FileTree) (schedule : List PoolAction) : Prop :=
  ∀ first i call stage, first ++ [.advance i] <+: schedule →
    (c.storesAfter encode calls start first).slots[i]? = some (.running (call, stage)) →
    Excused c encode call (c.storesAfter encode calls start first).shared stage

/-- A store that is about to move its draft has one, or a document is published: the draft that it
has written was moved, or it was dropped by a store that had lost its own in this way. -/
structure Landed (c : CommitCache) (encode : α → Json) (calls : List (StoreCall α))
    (p : Stores α) : Prop where
  moving : ∀ (i : Nat) call, p.slots[i]? = some (.running (call, .moveDraft)) →
    p.shared.bytesAt (c.slotDir call.commit ++ [c.draftName]) ≠ none ∨
      Published c encode calls (c.slotDir call.commit) p.shared
  dropping : ∀ (i : Nat) call failure,
    p.slots[i]? = some (.running (call, .dropDraft failure)) →
    Published c encode calls (c.slotDir call.commit) p.shared
  done : ∀ (i : Nat) call result, calls[i]? = some call → p.slots[i]? = some (.done result) →
    Published c encode calls (c.slotDir call.commit) p.shared

theorem landed_init : Landed c encode calls (Pool.init start calls) where
  moving i _ h := absurd h (init_slots_ne i (by simp))
  dropping i _ _ h := absurd h (init_slots_ne i (by simp))
  done i _ _ _ h := absurd h (init_slots_ne i (by simp))

/-- A store that takes its last step leaves a document in its slot. -/
theorem Landed.published_of_finish {i : Nat} {call : StoreCall α} {stage : StoreStage}
    {t' : FileTree} {result : Except StorageError String} (h : Landed c encode calls p)
    (htidy : Tidy c encode calls start p) (hslot : p.slots[i]? = some (.running (call, stage)))
    (hexcused : Excused c encode call p.shared stage)
    (hmove : StoreMove c call.commit (c.document encode call) p.shared stage t' (.inr result)) :
    Published c encode calls (c.slotDir call.commit) t' := by
  have hkept {dir : FilePath} (hpublished : Published c encode calls dir p.shared) :=
    htidy.published_move hslot hmove hpublished
  cases hmove with
  | notMade hfail =>
    obtain ⟨t', hmake⟩ := hexcused
    rw [hmake] at hfail
    cases hfail
  | notWritten hfail =>
    obtain ⟨t', hwrite⟩ := hexcused
    rw [hwrite] at hfail
    cases hfail
  | moved hmoved =>
    obtain ⟨moved, hdraft, rfl⟩ := FileTree.eq_of_move hmoved
    exact ⟨moved, htidy.draft i call _ moved hslot trivial hdraft,
      FileTree.bytesAt_set_file (by simp)⟩
  | dropped hdrop failure => exact hkept (h.dropping i call failure hslot)
  | notDropped failure => exact h.dropping i call failure hslot

theorem Landed.move {a : PoolAction} (h : Landed c encode calls p)
    (htidy : Tidy c encode calls start p)
    (hexcused : ∀ i call stage, a = .advance i → p.slots[i]? = some (.running (call, stage)) →
      Excused c encode call p.shared stage)
    (hmove : StoresMove c encode calls p a p') : Landed c encode calls p' := by
  cases hmove with
  | other hshared hslots =>
    have hold {i : Nat} {x : PoolSlot (StoreCall α × StoreStage) (Except StorageError String)}
        (hx : p'.slots[i]? = some x) (hqueued : x ≠ .queued)
        (hstarted : ∀ call, x ≠ .running (call, .makeSlot)) : p.slots[i]? = some x := by
      rcases hslots i x hx with hold | hnew | ⟨call, -, hnew⟩
      · exact hold
      · exact absurd hnew hqueued
      · exact absurd hnew (hstarted call)
    constructor
    · rw [hshared]
      exact fun i call hslot => h.moving i call (hold hslot (by simp) (by simp))
    · rw [hshared]
      exact fun i call failure hslot => h.dropping i call failure (hold hslot (by simp) (by simp))
    · rw [hshared]
      exact fun i call result hcall hslot =>
        h.done i call result hcall (hold hslot (by simp) (by simp))
  | @advance _ i call stage t' next hslot hmove hshared hslots =>
    have hexcuse := hexcused i call stage rfl hslot
    have hkept {dir : FilePath} (hpublished : Published c encode calls dir p.shared) :=
      htidy.published_move hslot hmove hpublished
    constructor
    · rw [hshared]
      intro j call' hslot'
      rw [hslots] at hslot'
      rcases Pool.mem_set_cases hslot' with ⟨rfl, hnew⟩ | hold
      · cases hmove with
        | written hwrite =>
          cases hnew
          rw [FileTree.eq_of_write hwrite, FileTree.bytesAt_set_file (by simp)]
          exact .inl (by simp)
        | made | notMade | notWritten | moved | notMoved | dropped | notDropped => cases hnew
      · rcases h.moving j call' hold with hdraft | hpublished
        · -- if the draft is gone now, the store that took it has a document in the slot
          rcases hmove.bytesAt_draft (c.slotDir call'.commit) with hsame | ⟨hdir, hchange⟩
          · exact .inl (hsame ▸ hdraft)
          · rcases hchange with ⟨-, hnew⟩ | ⟨-, ⟨path, rfl⟩ | ⟨failure, rfl⟩⟩
            · exact .inl (by simp [hnew])
            · rw [hdir]
              exact .inr (h.published_of_finish htidy hslot hexcuse hmove)
            · rw [hdir]
              exact .inr (hkept (h.dropping i call failure hslot))
        · exact .inr (hkept hpublished)
    · rw [hshared]
      intro j call' failure hslot'
      rw [hslots] at hslot'
      rcases Pool.mem_set_cases hslot' with ⟨rfl, hnew⟩ | hold
      · cases hmove with
        | notMoved hfail =>
          cases hnew
          -- the move failed as the draft is gone, and whoever took it has published
          rcases hexcuse with ⟨t', hmoved⟩ | hgone
          · rw [hmoved] at hfail
            cases hfail
          · rcases h.moving j call hslot with hdraft | hpublished
            · exact absurd (by rw [FileTree.bytesAt, hgone]; rfl) hdraft
            · exact hpublished
        | made | notMade | written | notWritten | moved | dropped | notDropped => cases hnew
      · exact hkept (h.dropping j call' failure hold)
    · rw [hshared]
      intro j call' result hcall hslot'
      rw [hslots] at hslot'
      rcases Pool.mem_set_cases hslot' with ⟨rfl, hnew⟩ | hold
      · cases next with
        | inl stage' => cases hnew
        | inr result' =>
          -- the store that has returned is the one asked for at this place
          cases (htidy.call j call stage hslot).symm.trans hcall
          exact h.published_of_finish htidy hslot hexcuse hmove
      · exact hkept (h.done j call' result hcall hold)

theorem landed_storesAfter (h : OnlyDraftsLost c encode calls start schedule) :
    Landed c encode calls (c.storesAfter encode calls start schedule) := by
  have hboth : Tidy c encode calls start (c.storesAfter encode calls start schedule) ∧
      Landed c encode calls (c.storesAfter encode calls start schedule) := by
    refine storesAfter_induction
      (Q := fun p => Tidy c encode calls start p ∧ Landed c encode calls p)
      (E := fun p a => ∀ i call stage, a = .advance i →
        p.slots[i]? = some (.running (call, stage)) → Excused c encode call p.shared stage)
      ⟨tidy_init, landed_init⟩ ?_ ?_
    · rintro p a p' ⟨htidy, hlanded⟩ hexcused hmove
      exact ⟨htidy.move hmove, hlanded.move htidy hexcused hmove⟩
    · rintro first a hfirst i call stage rfl hslot
      exact h first i call stage hfirst hslot
  exact hboth.2

/-! ## What the stores leave alone -/

/-- Near the root files stay as they are and directories stay, and deep down no directory is
made. -/
structure SameShelves (root : FilePath) (t t' : FileTree) : Prop where
  file : ∀ p : FilePath, p.length ≤ root.length + 1 → t'.bytesAt p = t.bytesAt p
  directory : ∀ p : FilePath, p.length ≤ root.length + 1 → t.get? p = some .directory →
    t'.get? p = some .directory
  deep : ∀ p : FilePath, root.length + 1 < p.length → t'.get? p = some .directory →
    t.get? p = some .directory

namespace SameShelves

variable {root dir : FilePath} {t t' t'' : FileTree}

theorem refl (root : FilePath) (t : FileTree) : SameShelves root t t :=
  ⟨fun _ _ => rfl, fun _ _ h => h, fun _ _ h => h⟩

theorem trans (h : SameShelves root t t') (h' : SameShelves root t' t'') :
    SameShelves root t t'' where
  file p hp := (h'.file p hp).trans (h.file p hp)
  directory p hp hdir := h'.directory p hp (h.directory p hp hdir)
  deep p hp hdir := h.deep p hp (h'.deep p hp hdir)

/-- Files come and go deep down. -/
theorem set {node : Option FileNode} (hdir : root.length + 1 < dir.length)
    (hnode : node ≠ some .directory) : SameShelves root t (t.set dir node) := by
  have hne {p : FilePath} (hp : p.length ≤ root.length + 1) : p ≠ dir := by
    rintro rfl
    omega
  constructor
  · exact fun p hp => FileTree.bytesAt_set_ne (hne hp)
  · intro p hp hget
    rw [FileTree.get?_set_ne (hne hp)]
    exact hget
  · intro p _ hget
    by_cases heq : p = dir
    · subst heq
      have hnil : p ≠ [] := by
        rintro rfl
        simp at hdir
      rw [FileTree.get?_set_self hnil] at hget
      exact absurd hget hnode
    · rw [FileTree.get?_set_ne heq] at hget
      exact hget

/-- Directories are made near the root. -/
theorem makeDirs (hdir : dir.length ≤ root.length + 1) (hmake : t.makeDirs dir = .ok t') :
    SameShelves root t t' := by
  constructor
  · exact fun p _ => FileTree.bytesAt_makeDirs hmake p
  · intro p _ hget
    rw [FileTree.get?_makeDirs hmake]
    split
    · rfl
    · exact hget
  · intro p hp hget
    have hnot : ¬p <+: dir := FilePath.not_prefix_of_length_lt (by omega)
    rw [FileTree.get?_makeDirs hmake, if_neg hnot] at hget
    exact hget

theorem makeHalfway (hdir : dir.length ≤ root.length + 1) :
    SameShelves root t (t.makeHalfway dir) := by
  rcases FileTree.makeHalfway_cases t dir with hsame | ⟨above, habove, hmade⟩
  · rw [hsame]
    exact .refl root t
  · exact .makeDirs (Nat.le_trans habove.length_le hdir) hmade

end SameShelves

theorem StoreMove.sameShelves {commit : String} {bytes : ByteArray} {t t' : FileTree}
    {stage : StoreStage} {next : StoreStage ⊕ Except StorageError String}
    (h : StoreMove c commit bytes t stage t' next) (hslot : IsFileName (slotName commit)) :
    SameShelves (.ofText c.root) t t' := by
  have hdir := slotDir_eq (c := c) hslot
  have hentry : (FilePath.ofText c.root).length + 1 <
      (c.slotDir commit ++ [entryName]).length := by simp [hdir]
  have hdraft : (FilePath.ofText c.root).length + 1 <
      (c.slotDir commit ++ [c.draftName]).length := by simp [hdir]
  cases h with
  | made hmake => exact .makeDirs (by simp [hdir]) hmake
  | written hwrite =>
    rw [FileTree.eq_of_write hwrite]
    exact .set hdraft (by simp)
  | moved hmove =>
    obtain ⟨moved, -, rfl⟩ := FileTree.eq_of_move hmove
    exact .trans (.set hdraft (by simp)) (.set hentry (by simp))
  | dropped hdrop =>
    rw [FileTree.eq_of_remove hdrop]
    exact .set hdraft (by simp)
  | notMade => exact .makeHalfway (by simp [hdir])
  | notWritten | notMoved | notDropped => exact .refl _ _

/-- Near the root nothing is lost, and a store that has begun has its directory. -/
structure Housed (c : CommitCache) (start : FileTree) (p : Stores α) : Prop where
  shelves : SameShelves (.ofText c.root) start p.shared
  made : ∀ (i : Nat) call stage, p.slots[i]? = some (.running (call, stage)) → stage ≠ .makeSlot →
    p.shared.get? (c.slotDir call.commit) = some .directory

theorem Housed.move {a : PoolAction} (hnames : ∀ call ∈ calls, IsFileName (slotName call.commit))
    (h : Housed c start p) (htidy : Tidy c encode calls start p)
    (hmove : StoresMove c encode calls p a p') : Housed c start p' := by
  cases hmove with
  | other hshared hslots =>
    constructor
    · rw [hshared]
      exact h.shelves
    · rw [hshared]
      intro i call stage hslot hstage
      rcases hslots i _ hslot with hold | hqueued | ⟨call', -, hfresh⟩
      · exact h.made i call stage hold hstage
      · cases hqueued
      · cases hfresh
        exact absurd rfl hstage
  | @advance _ i call stage t' next hslot hmove hshared hslots =>
    have hshelves := hmove.sameShelves (hnames call (htidy.mem hslot))
    have hnear {other : StoreCall α} (hother : other ∈ calls) :
        (c.slotDir other.commit).length ≤ (FilePath.ofText c.root).length + 1 := by
      simp [slotDir_eq (hnames other hother)]
    constructor
    · rw [hshared]
      exact h.shelves.trans hshelves
    · rw [hshared]
      intro j call' stage' hslot' hstage'
      rw [hslots] at hslot'
      rcases Pool.mem_set_cases hslot' with ⟨rfl, hnew⟩ | hold
      · cases next with
        | inr result => cases hnew
        | inl stage'' =>
          cases hnew
          by_cases hstage : stage = .makeSlot
          · subst hstage
            cases hmove with
            | made hmake => rw [FileTree.get?_makeDirs hmake, if_pos (List.prefix_refl _)]
          · exact hshelves.directory _ (hnear (htidy.mem hslot)) (h.made j call stage hslot hstage)
      · exact hshelves.directory _ (hnear (htidy.mem hold)) (h.made j call' stage' hold hstage')

theorem housed_storesAfter (c : CommitCache) (encode : α → Json) (start : FileTree)
    (schedule : List PoolAction) (hnames : ∀ call ∈ calls, IsFileName (slotName call.commit)) :
    Housed c start (c.storesAfter encode calls start schedule) := by
  have hboth : Tidy c encode calls start (c.storesAfter encode calls start schedule) ∧
      Housed c start (c.storesAfter encode calls start schedule) := by
    refine storesAfter_induction (Q := fun p => Tidy c encode calls start p ∧ Housed c start p)
      (E := fun _ _ => True) ?_ ?_ (fun _ _ _ => trivial)
    · exact ⟨tidy_init, .refl _ _, fun i _ _ h => absurd h (init_slots_ne i (by simp))⟩
    · rintro p a p' ⟨htidy, hhoused⟩ - hmove
      exact ⟨htidy.move hmove, hhoused.move hnames htidy hmove⟩
  exact hboth.2

theorem Unblocked.of_sameShelves {commit : String} {t t' : FileTree} (h : Unblocked c commit t)
    (hslot : IsFileName (slotName commit)) (hshelves : SameShelves (.ofText c.root) t t') :
    Unblocked c commit t' := by
  have hlength : (c.slotDir commit).length = (FilePath.ofText c.root).length + 1 := by
    simp [slotDir_eq hslot]
  constructor
  · exact h.fits
  · intro q hq hne
    rw [hshelves.file q (hlength ▸ hq.length_le)]
    exact h.above q hq hne
  · rw [hshelves.file _ (Nat.le_of_eq hlength)]
    exact h.slot
  · exact fun hget => h.entry (hshelves.deep _ (by simp [hlength]) hget)
  · exact fun hget => h.draft (hshelves.deep _ (by simp [hlength]) hget)

/-- Among slots that are unblocked at the start, nothing but drafts gets lost, whatever the
schedule. -/
theorem onlyDraftsLost_of_unblocked (hnames : ∀ call ∈ calls, IsFileName (slotName call.commit))
    (hfree : ∀ call ∈ calls, Unblocked c call.commit start) :
    OnlyDraftsLost c encode calls start schedule := by
  intro first i call stage _ hslot
  have hcall := (tidy_storesAfter c encode calls start first).mem hslot
  have hhoused := housed_storesAfter c encode start first hnames
  -- what could be in the way is still not there
  have hnow := (hfree call hcall).of_sameShelves (hnames call hcall) hhoused.shelves
  have hmade := hhoused.made i call stage hslot
  cases stage with
  | makeSlot => exact FileTree.makeDirs_ok_iff.2 ⟨hnow.above, hnow.slot, hnow.fits⟩
  | writeDraft =>
    refine ⟨_, FileTree.write_ok (hnow.above.child hnow.slot _) hnow.draft ?_⟩
    rw [List.dropLast_concat]
    exact hmade (by simp)
  | moveDraft =>
    cases hdraft : (c.storesAfter encode calls start first).shared.get?
        (c.slotDir call.commit ++ [c.draftName]) with
    | none => exact .inr hdraft
    | some node =>
      cases node with
      | directory => exact absurd hdraft hnow.draft
      | file bytes =>
        have hread := FileTree.read_ok_iff.2 ⟨hnow.above.child hnow.slot _, hdraft⟩
        refine .inl ⟨_, FileTree.move_ok hread (hnow.above.child hnow.slot _) hnow.entry ?_⟩
        rw [List.dropLast_concat]
        exact hmade (by simp)
  | dropDraft => trivial

/-! ## Loads -/

/-- What a load returns that does not fail: what the entry said before, or what one of the stores
has written for the same commit. -/
theorem value_of_load_storesAfter {d : Json.Decoder α} {commit : String} {v : α}
    {schedule : List PoolAction}
    (h : c.load d commit (c.storesAfter encode calls start schedule).shared = .ok (some v)) :
    (∃ bytes, start.bytesAt (c.slotDir commit ++ [entryName]) = some bytes ∧
        c.accept? d commit bytes = some v) ∨
      ∃ call ∈ calls, call.commit = commit ∧ spelled d (c.document encode call) = some v := by
  obtain ⟨-, bytes, hbytes, haccept⟩ := load_some_iff.1 h
  rcases (tidy_storesAfter c encode calls start schedule).entry (c.slotDir commit) with
    hsame | ⟨published, ⟨call, hcall, -, rfl⟩, hpublished⟩
  · exact .inl ⟨bytes, hsame ▸ hbytes, haccept⟩
  · -- the document names its commit
    rw [hpublished] at hbytes
    cases hbytes
    obtain ⟨hcommit, -, hspelled⟩ := accept?_documentBytes.1 haccept
    exact .inr ⟨call, hcall, hcommit, hspelled⟩

/-- A load between the steps of the stores. -/
theorem load_storesAfter {d : Json.Decoder α} {commit : String} (schedule : List PoolAction)
    (hnames : ∀ call ∈ calls, IsFileName (slotName call.commit))
    (hslot : IsFileName (slotName commit)) (hstart : ∃ found, c.load d commit start = .ok found) :
    ∃ found, c.load d commit (c.storesAfter encode calls start schedule).shared = .ok found ∧
      ∀ v, found = some v → c.load d commit start = .ok (some v) ∨
        ∃ call ∈ calls, call.commit = commit ∧ spelled d (c.document encode call) = some v := by
  have hshelves := (housed_storesAfter c encode start schedule hnames).shelves
  obtain ⟨hopen, hentry, -⟩ := load_ok_iff.1 hstart
  have hlength : (c.slotDir commit ++ [entryName]).length =
      (FilePath.ofText c.root).length + 2 := by simp [slotDir_eq hslot]
  have hload : ∃ found,
      c.load d commit (c.storesAfter encode calls start schedule).shared = .ok found := by
    refine load_ok_of_kept hstart ?_ ?_ ?_
    · -- stores take no entry away
      intro hsome
      rcases (tidy_storesAfter c encode calls start schedule).entry (c.slotDir commit) with
        hsame | ⟨published, -, hpublished⟩
      · rw [hsame]
        exact hsome
      · rw [hpublished]
        simp
    · intro q hq hne
      have hlt : q.length < (c.slotDir commit ++ [entryName]).length := by
        rcases Nat.lt_or_ge q.length (c.slotDir commit ++ [entryName]).length with hlt | hge
        · exact hlt
        · exact absurd (hq.eq_of_length_le hge) hne
      rw [hshelves.file q (by omega)]
      exact hopen q hq hne
    · exact fun hget => hentry (hshelves.deep _ (by omega) hget)
  obtain ⟨found, hfound⟩ := hload
  refine ⟨found, hfound, ?_⟩
  rintro v rfl
  rcases value_of_load_storesAfter hfound with ⟨bytes, hbytes, haccept⟩ | hstored
  · exact .inl (load_some_iff.2 ⟨hopen, bytes, hbytes, haccept⟩)
  · exact .inr hstored

/-! ## All together -/

/-- Stores of one process, interleaved in any way. After any schedule every entry is as it was or
the document of one of the stores. A load that does not fail returns nothing, or what the entry said
before, or what one of the stores has written for the same commit. Where all slots have names of
files, a load does not fail if it would not have failed before. Where only drafts get lost, a slot
whose stores have all returned holds the document of one of them. -/
theorem concurrent_stores_atomic (c : CommitCache) (d : Json.Decoder α) (encode : α → Json)
    (calls : List (StoreCall α)) (start : FileTree) (schedule : List PoolAction) :
    (∀ commit,
      (c.storesAfter encode calls start schedule).shared.bytesAt (.ofText (c.entryPath commit)) =
          start.bytesAt (.ofText (c.entryPath commit)) ∨
        ∃ call ∈ calls, c.slotDir call.commit = c.slotDir commit ∧
          (c.storesAfter encode calls start schedule).shared.bytesAt
            (.ofText (c.entryPath commit)) = some (c.document encode call)) ∧
    (∀ commit v, c.load d commit (c.storesAfter encode calls start schedule).shared = .ok (some v) →
      (∃ bytes, start.bytesAt (.ofText (c.entryPath commit)) = some bytes ∧
          c.accept? d commit bytes = some v) ∨
        ∃ call ∈ calls, call.commit = commit ∧ spelled d (c.document encode call) = some v ∧
          (spelled d (c.document encode call) = some call.value → v = call.value)) ∧
    ((∀ call ∈ calls, IsFileName (slotName call.commit)) →
      ∀ commit, IsFileName (slotName commit) → (∃ found, c.load d commit start = .ok found) →
        ∃ found, c.load d commit (c.storesAfter encode calls start schedule).shared = .ok found ∧
          ∀ v, found = some v → c.load d commit start = .ok (some v) ∨
            ∃ call ∈ calls, call.commit = commit ∧
              spelled d (c.document encode call) = some v ∧
              (spelled d (c.document encode call) = some call.value → v = call.value)) ∧
    (OnlyDraftsLost c encode calls start schedule →
      ∀ commit, (∃ call ∈ calls, c.slotDir call.commit = c.slotDir commit) →
        (∀ (i : Nat) call, calls[i]? = some call → c.slotDir call.commit = c.slotDir commit →
          ∃ result, (c.storesAfter encode calls start schedule).slots[i]? = some (.done result)) →
        ∃ call ∈ calls, c.slotDir call.commit = c.slotDir commit ∧
          (c.storesAfter encode calls start schedule).shared.bytesAt
            (.ofText (c.entryPath commit)) = some (c.document encode call)) := by
  -- what is read back is what was stored
  have hsame {commit : String} {v : α}
      (h : ∃ call ∈ calls, call.commit = commit ∧ spelled d (c.document encode call) = some v) :
      ∃ call ∈ calls, call.commit = commit ∧ spelled d (c.document encode call) = some v ∧
        (spelled d (c.document encode call) = some call.value → v = call.value) := by
    obtain ⟨call, hcall, hcommit, hspelled⟩ := h
    exact ⟨call, hcall, hcommit, hspelled, fun hvalue =>
      Option.some.inj (hspelled.symm.trans hvalue)⟩
  refine ⟨?_, ?_, ?_, ?_⟩
  · intro commit
    rw [entryPath_eq]
    rcases (tidy_storesAfter c encode calls start schedule).entry (c.slotDir commit) with
      hsame | ⟨bytes, ⟨call, hcall, hdir, rfl⟩, hbytes⟩
    · exact .inl hsame
    · exact .inr ⟨call, hcall, hdir, hbytes⟩
  · intro commit v hload
    rw [entryPath_eq]
    exact (value_of_load_storesAfter hload).imp_right hsame
  · intro hnames commit hslot hstart
    obtain ⟨found, hload, hvalues⟩ := load_storesAfter schedule hnames hslot hstart
    exact ⟨found, hload, fun v hfound => (hvalues v hfound).imp_right hsame⟩
  · rintro hlost commit ⟨asked, hasked, hdir⟩ hdone
    obtain ⟨i, hi⟩ := List.mem_iff_getElem?.1 hasked
    obtain ⟨result, hresult⟩ := hdone i asked hi hdir
    obtain ⟨bytes, ⟨call, hcall, hdir', rfl⟩, hbytes⟩ :=
      (landed_storesAfter hlost).done i asked result hi hresult
    rw [hdir] at hdir' hbytes
    rw [entryPath_eq]
    exact ⟨call, hcall, hdir', hbytes⟩

/-- Three stores into one slot: two commits share the first seven bytes of their names. -/
def sharedCalls : List (StoreCall String) :=
  [⟨"abcdef1a", "x"⟩, ⟨"abcdef1b", "y"⟩, ⟨"abcdef1a", "z"⟩]

/-- The first store moves the draft of the second, and the second drops that of the third. -/
def sharedSchedule : List PoolAction :=
  [.submit, .submit, .submit, .start 0, .start 1, .start 2,
    .advance 0, .advance 1, .advance 0, .advance 1, .advance 0, .advance 1,
    .advance 2, .advance 2, .advance 1, .advance 2, .advance 2]

theorem concurrent_stores_atomic_shared :
    ((storesAfter ⟨"cache", 7, 1⟩ .str sharedCalls .empty sharedSchedule).results.map
        fun result => result.map (·.toBool)) = [some true, some false, some false] ∧
      ∃ call ∈ sharedCalls,
        slotDir ⟨"cache", 7, 1⟩ call.commit = slotDir ⟨"cache", 7, 1⟩ "abcdef1a" ∧
          (storesAfter ⟨"cache", 7, 1⟩ .str sharedCalls .empty sharedSchedule).shared.bytesAt
              (.ofText (entryPath ⟨"cache", 7, 1⟩ "abcdef1a")) =
            some (document ⟨"cache", 7, 1⟩ .str call) := by
  have hresults : ((storesAfter ⟨"cache", 7, 1⟩ .str sharedCalls .empty sharedSchedule).results.map
      fun result => result.map (·.toBool)) = [some true, some false, some false] := by
    decide +kernel
  refine ⟨hresults, ?_⟩
  have hlost : OnlyDraftsLost ⟨"cache", 7, 1⟩ .str sharedCalls .empty sharedSchedule := by
    refine onlyDraftsLost_of_unblocked ?_ ?_
    · unfold IsFileName sharedCalls
      decide
    · intro call hcall
      have hfits : ∀ call ∈ sharedCalls, ∀ name ∈ slotDir ⟨"cache", 7, 1⟩ call.commit,
          nameFits name := by
        unfold sharedCalls
        decide
      exact unblocked_empty (hfits call hcall)
  have hall := concurrent_stores_atomic ⟨"cache", 7, 1⟩ .text .str sharedCalls .empty sharedSchedule
  refine hall.2.2.2 hlost "abcdef1a" ⟨⟨"abcdef1a", "x"⟩, by simp [sharedCalls], rfl⟩ ?_
  intro i call hcall _
  have hdone : ∀ i < 3, ((storesAfter ⟨"cache", 7, 1⟩ .str sharedCalls .empty
      sharedSchedule).slots[i]?.bind (·.result?)).isSome := by
    decide +kernel
  have hi : i < 3 := (List.getElem?_eq_some_iff.1 hcall).1
  obtain ⟨result, hresult⟩ := Option.isSome_iff_exists.1 (hdone i hi)
  obtain ⟨slot, hslot, hresult⟩ := Option.bind_eq_some_iff.1 hresult
  cases slot with
  | done b => exact ⟨b, hslot⟩
  | unsubmitted | queued | dropped | running => cases hresult

end ChangeImpact.CommitCache
