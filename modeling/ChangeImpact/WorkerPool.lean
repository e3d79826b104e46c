/-!
# Worker pool

A pool runs a task on every item of a list. Items are submitted in order; a submission that finds
the batch cancelled ends it. A submitted item is started by a worker, which drops it if it finds
the batch cancelled. A started task runs to its end in small steps, between which other workers may
act.

The pool is a state machine: `Pool.step` performs one action, and an action that is not possible
changes nothing. A schedule is a list of actions; `Pool.inOrder` is the schedule of a single worker.
-/

namespace ChangeImpact

/-- A task on items `α` over a shared state `σ`, in small steps; `τ` is a task under way. -/
structure PoolTask (σ α τ β : Type) where
  start : α → τ
  step : σ → τ → σ × (τ ⊕ β)
  /-- Whether the batch is cancelled. -/
  cancelled : σ → Bool
  /-- Cancels the batch. -/
  cancel : σ → σ

/-- What has become of an item. -/
inductive PoolSlot (τ β : Type) where
  | unsubmitted
  | queued
  | dropped
  | running (t : τ)
  | done (b : β)

/-- The result of an item, if it has one. -/
def PoolSlot.result? {τ β : Type} : PoolSlot τ β → Option β
  | done b => some b
  | _ => none

/-- The state of a batch. -/
structure Pool (σ τ β : Type) where
  shared : σ
  /-- The next item to submit. -/
  next : Nat
  /-- No more items are submitted. -/
  closed : Bool
  slots : List (PoolSlot τ β)

/-- What the submitter, a worker or somebody outside may do next. -/
inductive PoolAction where
  | submit
  | start (i : Nat)
  | advance (i : Nat)
  | cancel
deriving DecidableEq, Repr

namespace Pool

variable {σ α τ β : Type}

/-- A batch of so many items, none of them submitted. -/
def init (s : σ) (items : List α) : Pool σ τ β :=
  ⟨s, 0, false, items.map fun _ => .unsubmitted⟩

/-- One action. -/
def step (task : PoolTask σ α τ β) (items : List α) (p : Pool σ τ β) : PoolAction → Pool σ τ β
  | .submit =>
    if p.closed then p
    else if task.cancelled p.shared then { p with closed := true }
    else { p with next := p.next + 1, slots := p.slots.set p.next .queued }
  | .start i =>
    match p.slots[i]?, items[i]? with
    | some .queued, some a =>
      if task.cancelled p.shared then { p with slots := p.slots.set i .dropped }
      else { p with slots := p.slots.set i (.running (task.start a)) }
    | _, _ => p
  | .advance i =>
    match p.slots[i]? with
    | some (.running t) =>
      match task.step p.shared t with
      | (s, .inl t) => { p with shared := s, slots := p.slots.set i (.running t) }
      | (s, .inr b) => { p with shared := s, slots := p.slots.set i (.done b) }
    | _ => p
  | .cancel => { p with shared := task.cancel p.shared }

/-- The schedule of a single worker: all items are submitted, then each runs to its end, which
takes at most `rounds` steps. -/
def inOrder (count rounds : Nat) : List PoolAction :=
  List.replicate count .submit ++
    (List.range count).flatMap fun i => .start i :: List.replicate rounds (.advance i)

/-- Runs a schedule. -/
def run (task : PoolTask σ α τ β) (items : List α) (schedule : List PoolAction)
    (p : Pool σ τ β) : Pool σ τ β :=
  schedule.foldl (step task items) p

/-- The result of every item. -/
def results (p : Pool σ τ β) : List (Option β) :=
  p.slots.map (·.result?)

end Pool

/-- How many workers a pool has that was asked for so many. -/
def poolSize (threads : Nat) : Nat := max threads 1

end ChangeImpact
