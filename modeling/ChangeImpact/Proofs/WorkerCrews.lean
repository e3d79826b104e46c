import ChangeImpact.Proofs.PoolRuns
import Mathlib.Data.List.Nodup

/-!
# Crews of workers

The workers of a pool take items off the queue in the order in which these were submitted, never
more at a time than there are workers. A worker that has taken an item looks at the cancellation
some time later, and only then starts the task or drops the item.

* `PoolEvent`, `Pool.event?` — what can be seen of an action; `Pool.Happens` — what an action does,
  and what can be seen of it;
* `Crew` — a batch with its workers and a log of what has happened; `Crew.step`, `Crew.run`;
* `Crew.Told` — the log tells of every item what has become of it;
* `Crew.Heeded` — nothing starts once somebody has seen the cancellation;
* `Crew.Serial` — a single worker starts an item only if all tasks before it have returned;
* `collect` — results from messages that come in any order;
* `Crew.Delivers`, `Crew.crew_delivers` — what a batch delivers under every schedule.
-/

namespace ChangeImpact

/-! ## Tasks -/

namespace PoolTask

variable {σ α τ β : Type}

/-- Cancellation is never taken back. -/
structure Latches (task : PoolTask σ α τ β) : Prop where
  cancel : ∀ s, task.cancelled (task.cancel s) = true
  step : ∀ s t, task.cancelled s = true → task.cancelled (task.step s t).1 = true

/-- The stages that the task of an item can come to, whatever the others do to the shared state
between its steps. -/
inductive Reaches (task : PoolTask σ α τ β) (a : α) : τ → Prop where
  | start : Reaches task a (task.start a)
  | step {s s' : σ} {t t' : τ} (h : Reaches task a t) (hstep : task.step s t = (s', .inl t')) :
    Reaches task a t'

/-- Whatever else it does to the shared state, the task of an item returns the value of a
function. -/
def Computes (task : PoolTask σ α τ β) (f : α → β) : Prop :=
  ∀ a s s' t b, task.Reaches a t → task.step s t = (s', .inr b) → b = f a

end PoolTask

/-! ## Events -/

/-- Something that happens in a batch. -/
inductive PoolEvent (β : Type) where
  /-- The submitter queued an item, having seen no cancellation. -/
  | submitted (i : Nat)
  /-- The submitter saw the cancellation. -/
  | withheld
  /-- A worker started the task of an item, having seen no cancellation. -/
  | started (i : Nat)
  /-- A worker saw the cancellation and dropped its item. -/
  | dropped (i : Nat)
  /-- The task of an item returned. -/
  | finished (i : Nat) (b : β)

namespace PoolEvent

variable {β : Type}

/-- The item that an event is about. -/
def item? : PoolEvent β → Option Nat
  | submitted i | started i | dropped i | finished i _ => some i
  | withheld => none

/-- Whether somebody saw the cancellation. -/
def sawCancel : PoolEvent β → Bool
  | withheld | dropped _ => true
  | submitted _ | started _ | finished _ _ => false

/-- Whether a task started. -/
def isStart : PoolEvent β → Bool
  | started _ => true
  | submitted _ | withheld | dropped _ | finished _ _ => false

/-- The message that goes to the collector: the item and what its task returned. -/
def message? : PoolEvent β → Option (Nat × β)
  | finished i b => some (i, b)
  | submitted _ | withheld | started _ | dropped _ => none

end PoolEvent

namespace PoolSlot

variable {τ β : Type}

/-- Whether an item waits in the queue. -/
def isQueued : PoolSlot τ β → Bool
  | queued => true
  | unsubmitted | dropped | running _ | done _ => false

/-- Whether the task of an item has started. -/
def hasStarted : PoolSlot τ β → Bool
  | running _ | done _ => true
  | unsubmitted | queued | dropped => false

/-- The events of an item, told from what has become of it. -/
def story (i : Nat) : PoolSlot τ β → List (PoolEvent β)
  | unsubmitted => []
  | queued => [.submitted i]
  | dropped => [.submitted i, .dropped i]
  | running _ => [.submitted i, .started i]
  | done b => [.submitted i, .started i, .finished i b]

end PoolSlot

namespace Pool

variable {σ α τ β : Type}

/-- What can be seen of an action. -/
def event? (task : PoolTask σ α τ β) (items : List α) (p : Pool σ τ β) :
    PoolAction → Option (PoolEvent β)
  | .submit =>
    if p.closed ∨ items.length ≤ p.next then none
    else if task.cancelled p.shared then some .withheld
    else some (.submitted p.next)
  | .start i =>
    match p.slots[i]?, items[i]? with
    | some .queued, some _ =>
      if task.cancelled p.shared then some (.dropped i) else some (.started i)
    | _, _ => none
  | .advance i =>
    match p.slots[i]? with
    | some (.running t) =>
      (task.step p.shared t).2.elim (fun _ => none) fun b => some (.finished i b)
    | _ => none
  | .cancel => none

/-- What an action does to a batch, and what can be seen of it. -/
inductive Happens (task : PoolTask σ α τ β) (items : List α) (p : Pool σ τ β) :
    PoolAction → Option (PoolEvent β) → Pool σ τ β → Prop where
  | idle (a : PoolAction) : Happens task items p a none p
  | close (e : Option (PoolEvent β)) (he : ∀ event ∈ e, event = .withheld)
    (h : task.cancelled p.shared = true) : Happens task items p .submit e { p with closed := true }
  | submit (hmore : p.next < items.length) (h : task.cancelled p.shared = false) :
    Happens task items p .submit (some (.submitted p.next))
      { p with next := p.next + 1, slots := p.slots.set p.next .queued }
  /-- There is nothing left to submit. -/
  | surplus (hend : items.length ≤ p.next) : Happens task items p .submit none
      { p with next := p.next + 1, slots := p.slots.set p.next .queued }
  | drop (i : Nat) (hslot : p.slots[i]? = some .queued) (h : task.cancelled p.shared = true) :
    Happens task items p (.start i) (some (.dropped i)) { p with slots := p.slots.set i .dropped }
  | start (i : Nat) (a : α) (hslot : p.slots[i]? = some .queued) (hitem : items[i]? = some a)
    (h : task.cancelled p.shared = false) : Happens task items p (.start i) (some (.started i))
      { p with slots := p.slots.set i (.running (task.start a)) }
  | advance (i : Nat) (t t' : τ) (s : σ) (hslot : p.slots[i]? = some (.running t))
    (h : task.step p.shared t = (s, .inl t')) : Happens task items p (.advance i) none
      { p with shared := s, slots := p.slots.set i (.running t') }
  | finish (i : Nat) (t : τ) (b : β) (s : σ) (hslot : p.slots[i]? = some (.running t))
    (h : task.step p.shared t = (s, .inr b)) : Happens task items p (.advance i)
      (some (.finished i b)) { p with shared := s, slots := p.slots.set i (.done b) }
  | cancel : Happens task items p .cancel none { p with shared := task.cancel p.shared }

theorem happens_step (task : PoolTask σ α τ β) (items : List α) (p : Pool σ τ β) (a : PoolAction) :
    Happens task items p a (event? task items p a) (step task items p a) := by
  cases a with
  | submit =>
    simp only [step, event?]
    by_cases hclosed : p.closed = true
    · rw [if_pos hclosed, if_pos (.inl hclosed)]
      exact .idle _
    rw [if_neg hclosed]
    by_cases hcancelled : task.cancelled p.shared = true
    · rw [if_pos hcancelled, if_pos hcancelled]
      refine .close _ ?_ hcancelled
      intro event hevent
      split at hevent
      · cases hevent
      · exact (Option.some.inj hevent).symm
    rw [if_neg hcancelled, if_neg hcancelled]
    by_cases hend : items.length ≤ p.next
    · rw [if_pos (.inr hend)]
      exact .surplus hend
    · rw [if_neg (not_or.2 ⟨hclosed, hend⟩)]
      exact .submit (Nat.lt_of_not_le hend) (by simpa using hcancelled)
  | start i =>
    simp only [step, event?]
    cases hslot : p.slots[i]? with
    | none => exact .idle _
    | some x =>
      cases x with
      | queued =>
        cases hitem : items[i]? with
        | none => exact .idle _
        | some a =>
          dsimp only
          by_cases hcancelled : task.cancelled p.shared = true
          · rw [if_pos hcancelled, if_pos hcancelled]
            exact .drop i hslot hcancelled
          · rw [if_neg hcancelled, if_neg hcancelled]
            exact .start i a hslot hitem (by simpa using hcancelled)
      | unsubmitted | dropped | running | done => exact .idle _
  | advance i =>
    simp only [step, event?]
    cases hslot : p.slots[i]? with
    | none => exact .idle _
    | some x =>
      cases x with
      | running t =>
        dsimp only
        rcases hstep : task.step p.shared t with ⟨s, t' | b⟩
        · exact .advance i t t' s hslot hstep
        · exact .finish i t b s hslot hstep
      | unsubmitted | queued | dropped | done => exact .idle _
  | cancel => exact .cancel

/-- Cancellation is not taken back. -/
theorem Happens.cancelled {task : PoolTask σ α τ β} {items : List α} {p p' : Pool σ τ β}
    {a : PoolAction} {e : Option (PoolEvent β)} (h : Happens task items p a e p')
    (hlatch : task.Latches) (hcancelled : task.cancelled p.shared = true) :
    task.cancelled p'.shared = true := by
  cases h with
  | idle | close | submit | surplus | drop | start => exact hcancelled
  | advance i t t' s _ hstep =>
    have hs := hlatch.step p.shared t hcancelled
    rwa [hstep] at hs
  | finish i t b s _ hstep =>
    have hs := hlatch.step p.shared t hcancelled
    rwa [hstep] at hs
  | cancel => exact hlatch.cancel _

end Pool

/-! ## Collecting messages -/

section Collect

variable {β : Type} {messages : List (Nat × β)} {results : List (Option β)} {i : Nat} {b : β}

/-- Puts every message into the place that it names. -/
def deliver (results : List (Option β)) (messages : List (Nat × β)) : List (Option β) :=
  messages.foldl (fun results message => results.set message.1 (some message.2)) results

/-- Results of so many items, from messages in the order in which they come in. -/
def collect (count : Nat) (messages : List (Nat × β)) : List (Option β) :=
  deliver (List.replicate count none) messages

theorem length_deliver (results : List (Option β)) (messages : List (Nat × β)) :
    (deliver results messages).length = results.length := by
  induction messages generalizing results with
  | nil => rfl
  | cons message messages ih =>
    have hrest := ih (results.set message.1 (some message.2))
    rw [List.length_set] at hrest
    exact hrest

theorem getElem?_deliver_of_forall_ne (results : List (Option β))
    (h : ∀ message ∈ messages, message.1 ≠ i) :
    (deliver results messages)[i]? = results[i]? := by
  induction messages generalizing results with
  | nil => rfl
  | cons message messages ih =>
    have hrest := ih (results.set message.1 (some message.2))
      fun later hlater => h later (List.mem_cons_of_mem _ hlater)
    rw [List.getElem?_set_ne (h message List.mem_cons_self)] at hrest
    exact hrest

/-- A message is found where it should be, if no other names its place. -/
theorem getElem?_deliver_of_mem (hnodup : (messages.map (·.1)).Nodup) (hmem : (i, b) ∈ messages)
    (hi : i < results.length) : (deliver results messages)[i]? = some (some b) := by
  induction messages generalizing results with
  | nil => cases hmem
  | cons message messages ih =>
    rw [List.map_cons, List.nodup_cons] at hnodup
    obtain ⟨hnot, hnodup⟩ := hnodup
    rcases List.mem_cons.1 hmem with rfl | hlater
    · have hothers : ∀ later ∈ messages, later.1 ≠ i := by
        rintro later hlater rfl
        exact hnot (List.mem_map.2 ⟨later, hlater, rfl⟩)
      have hrest := getElem?_deliver_of_forall_ne (results.set i (some b)) hothers
      rw [List.getElem?_set_self hi] at hrest
      exact hrest
    · exact ih hnodup hlater (by rwa [List.length_set])

/-- How many messages are about an item. -/
theorem count_messages (log : List (PoolEvent β)) (i : Nat) :
    ((log.filterMap (·.message?)).map (·.1)).count i =
      ((log.filter (·.item? == some i)).filterMap (·.message?)).length := by
  induction log with
  | nil => rfl
  | cons event log ih =>
    cases event with
    | finished j b =>
      by_cases hij : j = i
      · simpa [PoolEvent.message?, PoolEvent.item?, hij] using ih
      · simpa [PoolEvent.message?, PoolEvent.item?, hij] using ih
    | withheld => simpa [PoolEvent.message?, PoolEvent.item?] using ih
    | submitted j | started j | dropped j =>
      by_cases hij : j = i
      · simpa [PoolEvent.message?, PoolEvent.item?, hij] using ih
      · simpa [PoolEvent.message?, PoolEvent.item?, hij] using ih

end Collect

/-! ## Crews -/

/-- A batch with its workers. -/
structure Crew (σ τ β : Type) where
  batch : Pool σ τ β
  /-- How many items have been taken off the queue. -/
  taken : Nat
  /-- What has happened, in order. -/
  log : List (PoolEvent β)

/-- What may happen next: a worker takes the first item of the queue, or the submitter, a worker or
somebody outside acts. -/
inductive CrewAction where
  | take
  | act (a : PoolAction)
deriving DecidableEq, Repr

namespace Crew

variable {σ α τ β : Type}

def init (s : σ) (items : List α) : Crew σ τ β := ⟨.init s items, 0, []⟩

/-- How many workers have an item. -/
def busy (c : Crew σ τ β) : Nat := (c.batch.slots.take c.taken).countP (·.isActive)

/-- A worker looks at the cancellation only for an item that it has taken. -/
def permits (c : Crew σ τ β) : PoolAction → Bool
  | .start i => i < c.taken
  | .submit | .advance _ | .cancel => true

/-- The crew after an action of its batch of which an event can be seen. -/
def advance (c : Crew σ τ β) (p : Pool σ τ β) (e : Option (PoolEvent β)) : Crew σ τ β :=
  { c with batch := p, log := c.log ++ e.toList }

/-- One action of a crew of so many workers. -/
def step (workers : Nat) (task : PoolTask σ α τ β) (items : List α) (c : Crew σ τ β) :
    CrewAction → Crew σ τ β
  | .take =>
    if c.batch.slots[c.taken]?.any (·.isQueued) && c.busy < workers then
      { c with taken := c.taken + 1 }
    else c
  | .act a =>
    if c.permits a then
      c.advance (Pool.step task items c.batch a) (Pool.event? task items c.batch a)
    else c

/-- Runs a schedule. -/
def run (workers : Nat) (task : PoolTask σ α τ β) (items : List α) (schedule : List CrewAction)
    (c : Crew σ τ β) : Crew σ τ β :=
  schedule.foldl (step workers task items) c

variable {workers : Nat} {task : PoolTask σ α τ β} {items : List α} {c : Crew σ τ β}
  {p : Pool σ τ β} {a : PoolAction} {e : Option (PoolEvent β)} {schedule : List CrewAction}

/-- The batch of a crew is a run of the pool. -/
theorem batch_run (workers : Nat) (task : PoolTask σ α τ β) (items : List α)
    (schedule : List CrewAction) (c : Crew σ τ β) :
    ∃ actions, (run workers task items schedule c).batch = Pool.run task items actions c.batch := by
  induction schedule generalizing c with
  | nil => exact ⟨[], rfl⟩
  | cons first schedule ih =>
    obtain ⟨actions, hactions⟩ := ih (step workers task items c first)
    cases first with
    | take =>
      have hsame : (step workers task items c .take).batch = c.batch := by
        unfold step
        dsimp only
        split <;> rfl
      rw [hsame] at hactions
      exact ⟨actions, hactions⟩
    | act a =>
      by_cases hpermits : c.permits a = true
      · have hnext :
            (step workers task items c (.act a)).batch = Pool.step task items c.batch a := by
          rw [step, if_pos hpermits, advance]
        rw [hnext] at hactions
        exact ⟨a :: actions, hactions⟩
      · have hsame : (step workers task items c (.act a)).batch = c.batch := by
          rw [step, if_neg hpermits]
        rw [hsame] at hactions
        exact ⟨actions, hactions⟩

/-- What a crew keeps in every action, it keeps under every schedule: a worker takes the first item
of the queue, or something happens to the batch. -/
theorem run_induction {Q : Crew σ τ β → Prop}
    (htake : ∀ c : Crew σ τ β, Q c → c.batch.slots[c.taken]? = some .queued → c.busy < workers →
      Q { c with taken := c.taken + 1 })
    (hact : ∀ (c : Crew σ τ β) a e p, Q c → c.permits a = true →
      Pool.Happens task items c.batch a e p → Q (c.advance p e))
    (hc : Q c) : Q (run workers task items schedule c) := by
  induction schedule generalizing c with
  | nil => exact hc
  | cons first schedule ih =>
    refine ih ?_
    cases first with
    | take =>
      unfold step
      dsimp only
      split
      · rename_i hfree
        rw [Bool.and_eq_true, decide_eq_true_eq] at hfree
        obtain ⟨hqueued, hbusy⟩ := hfree
        refine htake c hc ?_ hbusy
        cases hslot : c.batch.slots[c.taken]? with
        | none => simp [hslot] at hqueued
        | some x => cases x <;> simp [hslot, PoolSlot.isQueued] at hqueued ⊢
      · exact hc
    | act a =>
      unfold step
      dsimp only
      split
      · rename_i hpermits
        exact hact c a _ _ hc hpermits (Pool.happens_step task items c.batch a)
      · exact hc

/-! ## What the log says about an item -/

/-- The log tells of every item what has become of it, and items from the next one on have not been
submitted. -/
structure Told (items : List α) (c : Crew σ τ β) : Prop where
  length_slots : c.batch.slots.length = items.length
  fresh : ∀ (i : Nat) x, c.batch.next ≤ i → c.batch.slots[i]? = some x → x = .unsubmitted
  story : ∀ i, c.log.filter (·.item? == some i) = c.batch.slots[i]?.elim [] (·.story i)

theorem told_init (s : σ) (items : List α) : Told items (init s items : Crew σ τ β) where
  length_slots := by simp [init, Pool.init]
  fresh i x _ hx := by
    have hmem : x ∈ items.map fun _ => PoolSlot.unsubmitted := List.mem_of_getElem? hx
    obtain ⟨_, -, rfl⟩ := List.mem_map.1 hmem
    rfl
  story i := by
    have hslot : (init s items : Crew σ τ β).batch.slots[i]? =
        items[i]?.map fun _ => .unsubmitted := List.getElem?_map
    rw [hslot]
    cases items[i]? <;> rfl

/-- An item that has been submitted is before the next one. -/
theorem Told.lt_next {i : Nat} {x : PoolSlot τ β} (h : Told items c)
    (hx : c.batch.slots[i]? = some x) (hne : x ≠ .unsubmitted) : i < c.batch.next := by
  by_contra hle
  exact hne (h.fresh i x (Nat.le_of_not_lt hle) hx)

/-- The next item has not been submitted. -/
theorem Told.slot_next (h : Told items c) (hmore : c.batch.next < items.length) :
    c.batch.slots[c.batch.next]? = some .unsubmitted := by
  have hlt : c.batch.next < c.batch.slots.length := by
    rw [h.length_slots]
    exact hmore
  have hslot := List.getElem?_eq_getElem hlt
  rw [hslot, h.fresh _ _ (Nat.le_refl _) hslot]

/-- The log goes on with an item whose slot changes. -/
theorem Told.set {s : σ} {next i : Nat} {closed : Bool} {x x' : PoolSlot τ β} (h : Told items c)
    (hx : c.batch.slots[i]? = some x) (hnext : c.batch.next ≤ next) (hi : i < next)
    (he : ∀ event ∈ e, event.item? = some i) (hstory : x'.story i = x.story i ++ e.toList) :
    Told items (c.advance ⟨s, next, closed, c.batch.slots.set i x'⟩ e) where
  length_slots := by simpa [advance] using h.length_slots
  fresh j y hj hy := by
    have hj' : next ≤ j := hj
    have hy' : (c.batch.slots.set i x')[j]? = some y := hy
    rw [List.getElem?_set_ne (by omega)] at hy'
    exact h.fresh j y (Nat.le_trans hnext hj') hy'
  story j := by
    show (c.log ++ e.toList).filter (·.item? == some j) = (c.batch.slots.set i x')[j]?.elim [] _
    rw [List.filter_append, h.story j]
    by_cases hij : i = j
    · subst hij
      have hlt : i < c.batch.slots.length := (List.getElem?_eq_some_iff.1 hx).1
      have hown : e.toList.filter (·.item? == some i) = e.toList := by
        rw [List.filter_eq_self]
        intro event hevent
        simpa using he event (Option.mem_toList.1 hevent)
      rw [hx, List.getElem?_set_self hlt, hown]
      exact hstory.symm
    · have hother : e.toList.filter (·.item? == some j) = [] := by
        rw [List.filter_eq_nil_iff]
        intro event hevent
        simpa [he event (Option.mem_toList.1 hevent)] using hij
      rw [List.getElem?_set_ne hij, hother, List.append_nil]

/-- The slots stay as they are, and nothing is said about an item. -/
theorem Told.quiet {s : σ} {next : Nat} {closed : Bool} (h : Told items c)
    (hnext : c.batch.next ≤ next) (he : ∀ event ∈ e, event = .withheld) :
    Told items (c.advance ⟨s, next, closed, c.batch.slots⟩ e) where
  length_slots := h.length_slots
  fresh i x hi hx := h.fresh i x (Nat.le_trans hnext hi) hx
  story i := by
    have hnone : e.toList.filter (·.item? == some i) = [] := by
      rw [List.filter_eq_nil_iff]
      intro event hevent
      rw [he event (Option.mem_toList.1 hevent)]
      simp [PoolEvent.item?]
    show (c.log ++ e.toList).filter (·.item? == some i) = _
    rw [List.filter_append, hnone, List.append_nil]
    exact h.story i

theorem Told.act (h : Told items c) (happens : Pool.Happens task items c.batch a e p) :
    Told items (c.advance p e) := by
  cases happens with
  | idle => exact h.quiet (Nat.le_refl _) (by simp)
  | close e he => exact h.quiet (Nat.le_refl _) he
  | cancel => exact h.quiet (Nat.le_refl _) (by simp)
  | surplus hend =>
    have hsame : c.batch.slots.set c.batch.next .queued = c.batch.slots :=
      List.set_eq_of_length_le (h.length_slots ▸ hend)
    rw [hsame]
    exact h.quiet (Nat.le_succ _) (by simp)
  | submit hmore =>
    exact h.set (h.slot_next hmore) (Nat.le_succ _) (Nat.lt_succ_self _) (by simp [PoolEvent.item?])
      rfl
  | drop i hslot =>
    exact h.set hslot (Nat.le_refl _) (h.lt_next hslot (by simp)) (by simp [PoolEvent.item?]) rfl
  | start i a hslot =>
    exact h.set hslot (Nat.le_refl _) (h.lt_next hslot (by simp)) (by simp [PoolEvent.item?]) rfl
  | advance i t t' s hslot =>
    exact h.set hslot (Nat.le_refl _) (h.lt_next hslot (by simp)) (by simp) rfl
  | finish i t b s hslot =>
    exact h.set hslot (Nat.le_refl _) (h.lt_next hslot (by simp)) (by simp [PoolEvent.item?]) rfl

theorem told_run (workers : Nat) (task : PoolTask σ α τ β) (items : List α)
    (schedule : List CrewAction) (s : σ) :
    Told items (run workers task items schedule (init s items)) := by
  refine run_induction ?_ ?_ (told_init s items)
  · intro c h _ _
    exact ⟨h.length_slots, h.fresh, h.story⟩
  · intro c a e p h _ happens
    exact h.act happens

/-- What is in the log about an item is in its story. -/
theorem Told.mem_log_iff {i : Nat} {x : PoolSlot τ β} {event : PoolEvent β} (h : Told items c)
    (hx : c.batch.slots[i]? = some x) (hitem : event.item? = some i) :
    event ∈ c.log ↔ event ∈ x.story i := by
  have hstory := h.story i
  rw [hx, Option.elim_some] at hstory
  rw [← hstory, List.mem_filter]
  simp [hitem]

/-! ## Cancellation -/

/-- Whoever saw the cancellation was right, and no task started after that. -/
structure Heeded (cancelled : σ → Bool) (c : Crew σ τ β) : Prop where
  seen : ∀ event ∈ c.log, event.sawCancel = true → cancelled c.batch.shared = true
  order : c.log.Pairwise fun event later => event.sawCancel = true → later.isStart = false

theorem Heeded.act (h : Heeded task.cancelled c) (hlatch : task.Latches)
    (happens : Pool.Happens task items c.batch a e p) : Heeded task.cancelled (c.advance p e) := by
  -- what is seen now is true
  have hsaw : ∀ event ∈ e, event.sawCancel = true → task.cancelled c.batch.shared = true := by
    intro event hevent hcancel
    cases happens with
    | close _ _ hcancelled | drop _ _ hcancelled => exact hcancelled
    | idle | surplus | advance | cancel => cases hevent
    | submit | start | finish =>
      cases hevent
      cases hcancel
  have hstart : ∀ event ∈ e, event.isStart = true → task.cancelled c.batch.shared = false := by
    intro event hevent hisStart
    cases happens with
    | start _ _ _ _ hgo => exact hgo
    | idle | surplus | advance | cancel => cases hevent
    | close _ he =>
      rw [he event hevent] at hisStart
      cases hisStart
    | submit | drop | finish =>
      cases hevent
      cases hisStart
  constructor
  · intro event hevent hcancel
    refine happens.cancelled hlatch ?_
    rcases List.mem_append.1 hevent with hold | hnew
    · exact h.seen event hold hcancel
    · exact hsaw event (Option.mem_toList.1 hnew) hcancel
  · refine List.pairwise_append.2 ⟨h.order, by cases e <;> simp, ?_⟩
    intro event hevent later hlater hcancel
    have htrue := h.seen event hevent hcancel
    by_contra hisStart
    have hfalse := hstart later (Option.mem_toList.1 hlater) (by simpa using hisStart)
    simp [htrue] at hfalse

theorem heeded_run (hlatch : task.Latches) (workers : Nat) (items : List α)
    (schedule : List CrewAction) (s : σ) :
    Heeded task.cancelled (run workers task items schedule (init s items)) := by
  refine run_induction ?_ ?_ ⟨by simp [init], by simp [init]⟩
  · intro c h _ _
    exact ⟨h.seen, h.order⟩
  · intro c a e p h _ happens
    exact h.act hlatch happens

/-! ## A single worker -/

/-- The worker has done with every item that it took before the last one, and an item is only
started if the tasks of all items before it have returned. -/
structure Serial (c : Crew σ τ β) : Prop where
  submitted : ∀ i < c.taken, ∃ x, c.batch.slots[i]? = some x ∧ x ≠ .unsubmitted
  idle : ∀ (i : Nat) x, i + 1 < c.taken → c.batch.slots[i]? = some x → x.isActive = false
  before : ∀ (i j : Nat) x, i < j → c.batch.slots[j]? = some x → x.hasStarted = true →
    ∃ b, c.batch.slots[i]? = some (.done b)

/-- One slot changes. If it becomes active, the worker has not done with it, and if its task starts,
all tasks before it have returned. -/
theorem Serial.set {s : σ} {next k : Nat} {closed : Bool} {x x' : PoolSlot τ β} (h : Serial c)
    (hx : c.batch.slots[k]? = some x) (hopen : ∀ b, x ≠ .done b) (hx' : x' ≠ .unsubmitted)
    (hactive : x'.isActive = true → c.taken ≤ k + 1)
    (hstart : x'.hasStarted = true → ∀ i < k, ∃ b, c.batch.slots[i]? = some (.done b)) :
    Serial (c.advance ⟨s, next, closed, c.batch.slots.set k x'⟩ e) := by
  have hlt : k < c.batch.slots.length := (List.getElem?_eq_some_iff.1 hx).1
  have hkept {i : Nat} {b : β} (hdone : c.batch.slots[i]? = some (.done b)) :
      (c.batch.slots.set k x')[i]? = some (.done b) := by
    have hne : k ≠ i := by
      rintro rfl
      rw [hx] at hdone
      exact hopen b (Option.some.inj hdone)
    rw [List.getElem?_set_ne hne, hdone]
  constructor
  · intro i hi
    by_cases hik : k = i
    · subst hik
      exact ⟨x', List.getElem?_set_self hlt, hx'⟩
    · obtain ⟨y, hy, hne⟩ := h.submitted i hi
      exact ⟨y, (List.getElem?_set_ne hik).trans hy, hne⟩
  · intro i y hi hy
    have hi' : i + 1 < c.taken := hi
    rcases Pool.mem_set_cases hy with ⟨rfl, rfl⟩ | hold
    · by_contra hbusy
      have hle := hactive (by simpa using hbusy)
      omega
    · exact h.idle i y hi' hold
  · intro i j y hij hy hstarted
    rcases Pool.mem_set_cases hy with ⟨rfl, rfl⟩ | hold
    · obtain ⟨b, hb⟩ := hstart hstarted i hij
      exact ⟨b, hkept hb⟩
    · obtain ⟨b, hb⟩ := h.before i j y hij hold hstarted
      exact ⟨b, hkept hb⟩

/-- Only the last item that was taken can be active. -/
theorem Serial.taken_le {k : Nat} {x : PoolSlot τ β} (h : Serial c)
    (hx : c.batch.slots[k]? = some x) (hactive : x.isActive = true) : c.taken ≤ k + 1 := by
  by_contra hlt
  have hidle := h.idle k x (by omega) hx
  simp [hactive] at hidle

/-- As long as nobody has seen the cancellation, the tasks of all items before one that the worker
has taken have returned. -/
theorem Serial.done_before {i k : Nat} (h : Serial c) (htold : Told items c)
    (hheeded : Heeded task.cancelled c) (hgo : task.cancelled c.batch.shared = false)
    (hk : k < c.taken) (hi : i < k) : ∃ b, c.batch.slots[i]? = some (.done b) := by
  obtain ⟨x, hx, hne⟩ := h.submitted i (by omega)
  have hidle := h.idle i x (by omega) hx
  cases x with
  | unsubmitted => exact absurd rfl hne
  | queued | running => cases hidle
  | dropped =>
    -- the worker has seen the cancellation at that item
    have hlog : PoolEvent.dropped i ∈ c.log :=
      (htold.mem_log_iff hx rfl).2 (by simp [PoolSlot.story])
    have hcancelled := hheeded.seen _ hlog rfl
    simp [hgo] at hcancelled
  | done b => exact ⟨b, hx⟩

theorem Serial.act (h : Serial c) (htold : Told items c) (hheeded : Heeded task.cancelled c)
    (hpermits : c.permits a = true) (happens : Pool.Happens task items c.batch a e p) :
    Serial (c.advance p e) := by
  cases happens with
  | idle | close | cancel => exact ⟨h.submitted, h.idle, h.before⟩
  | surplus hend =>
    have hsame : c.batch.slots.set c.batch.next .queued = c.batch.slots :=
      List.set_eq_of_length_le (htold.length_slots ▸ hend)
    rw [hsame]
    exact ⟨h.submitted, h.idle, h.before⟩
  | submit hmore =>
    have hslot := htold.slot_next hmore
    refine h.set hslot (by simp) (by simp) (fun _ => ?_) (by simp [PoolSlot.hasStarted])
    -- what has been taken has been submitted
    by_contra hlt
    obtain ⟨x, hx, hne⟩ := h.submitted c.batch.next (by omega)
    exact hne (Option.some.inj (hx.symm.trans hslot))
  | drop i hslot =>
    exact h.set hslot (by simp) (by simp) (by simp [PoolSlot.isActive])
      (by simp [PoolSlot.hasStarted])
  | start i a hslot hitem hgo =>
    have hi : i < c.taken := by simpa [permits] using hpermits
    exact h.set hslot (by simp) (by simp) (fun _ => h.taken_le hslot rfl)
      fun _ j hj => h.done_before htold hheeded hgo hi hj
  | advance i t t' s hslot =>
    exact h.set hslot (by simp) (by simp) (fun _ => h.taken_le hslot rfl)
      fun _ j hj => h.before j i _ hj hslot rfl
  | finish i t b s hslot =>
    exact h.set hslot (by simp) (by simp) (by simp [PoolSlot.isActive])
      fun _ j hj => h.before j i _ hj hslot rfl

/-- The worker only takes an item if it has done with all others. -/
theorem Serial.take (h : Serial c) (hslot : c.batch.slots[c.taken]? = some .queued)
    (hfree : c.busy < 1) : Serial { c with taken := c.taken + 1 } := by
  constructor
  · intro i hi
    by_cases hlast : i = c.taken
    · subst hlast
      exact ⟨.queued, hslot, by simp⟩
    · have hi' : i < c.taken + 1 := hi
      exact h.submitted i (by omega)
  · intro i x hi hx
    have hi' : i + 1 < c.taken + 1 := hi
    have hnone : (c.batch.slots.take c.taken).countP (·.isActive) = 0 := Nat.lt_one_iff.1 hfree
    have hmem : x ∈ c.batch.slots.take c.taken := by
      refine List.mem_of_getElem? (i := i) ?_
      rw [List.getElem?_take_of_lt (by omega)]
      exact hx
    simpa using List.countP_eq_zero.1 hnone x hmem
  · exact h.before

theorem serial_run (hlatch : task.Latches) (items : List α) (schedule : List CrewAction) (s : σ) :
    Serial (run 1 task items schedule (init s items)) := by
  -- that a check goes well says something about the items before only together with the log
  have hall : Told items (run 1 task items schedule (init s items)) ∧
      Heeded task.cancelled (run 1 task items schedule (init s items)) ∧
      Serial (run 1 task items schedule (init s items)) := by
    refine run_induction (Q := fun c => Told items c ∧ Heeded task.cancelled c ∧ Serial c) ?_ ?_ ?_
    · rintro c ⟨htold, hheeded, h⟩ hslot hfree
      exact ⟨⟨htold.length_slots, htold.fresh, htold.story⟩, ⟨hheeded.seen, hheeded.order⟩,
        h.take hslot hfree⟩
    · rintro c a e p ⟨htold, hheeded, h⟩ hpermits happens
      exact ⟨htold.act happens, hheeded.act hlatch happens,
        h.act htold hheeded hpermits happens⟩
    · refine ⟨told_init s items, ⟨by simp [init], by simp [init]⟩,
        ⟨by simp [init], by simp [init], ?_⟩⟩
      intro i j x _ hx hstarted
      have hmem : x ∈ items.map fun _ => PoolSlot.unsubmitted := List.mem_of_getElem? hx
      obtain ⟨_, -, rfl⟩ := List.mem_map.1 hmem
      cases hstarted
  exact hall.2.2

/-! ## Results -/

/-- The result of an item is in its slot. -/
theorem getElem?_results {i : Nat} {x : PoolSlot τ β} (hx : p.slots[i]? = some x) :
    p.results[i]? = some x.result? := by
  rw [Pool.results, List.getElem?_map, hx]
  rfl

/-- Messages that come in any order are collected into the results. -/
theorem Told.collect_eq {messages : List (Nat × β)} (h : Told items c)
    (hmessages : messages.Perm (c.log.filterMap (·.message?))) :
    collect items.length messages = c.batch.results := by
  have hmem {i : Nat} {b : β} : (i, b) ∈ messages ↔ .finished i b ∈ c.log := by
    rw [hmessages.mem_iff, List.mem_filterMap]
    constructor
    · rintro ⟨event, hevent, hmessage⟩
      cases event <;> cases hmessage
      exact hevent
    · exact fun hevent => ⟨_, hevent, rfl⟩
  -- no item sends two messages
  have hnodup : (messages.map (·.1)).Nodup := by
    rw [(hmessages.map _).nodup_iff, List.nodup_iff_count_le_one]
    intro i
    rw [count_messages, h.story i]
    cases c.batch.slots[i]? with
    | none => simp
    | some x => cases x <;> simp [PoolSlot.story, PoolEvent.message?]
  apply List.ext_getElem?
  intro i
  by_cases hi : i < items.length
  · have hlt : i < c.batch.slots.length := h.length_slots ▸ hi
    have hslot := List.getElem?_eq_getElem hlt
    generalize c.batch.slots[i] = x at hslot
    rw [getElem?_results hslot]
    by_cases hdone : ∃ b, x = .done b
    · obtain ⟨b, rfl⟩ := hdone
      have hfinished : PoolEvent.finished i b ∈ c.log :=
        (h.mem_log_iff hslot rfl).2 (by simp [PoolSlot.story])
      exact getElem?_deliver_of_mem hnodup (hmem.2 hfinished) (by simpa using hi)
    · have hsilent : ∀ message ∈ messages, message.1 ≠ i := by
        rintro ⟨j, b⟩ hmessage rfl
        have hfinished := (h.mem_log_iff hslot rfl).1 (hmem.1 hmessage)
        cases x with
        | done b' => exact hdone ⟨b', rfl⟩
        | unsubmitted | queued | dropped | running => simp [PoolSlot.story] at hfinished
      have hnone : x.result? = none := by
        cases x with
        | done b => exact absurd ⟨b, rfl⟩ hdone
        | unsubmitted | queued | dropped | running => rfl
      rw [collect, getElem?_deliver_of_forall_ne _ hsilent, hnone, List.getElem?_replicate,
        if_pos hi]
  · have hlength : (collect items.length messages).length = items.length := by
      rw [collect, length_deliver, List.length_replicate]
    have hresults : c.batch.results.length = items.length := by
      rw [Pool.results, List.length_map, h.length_slots]
    rw [List.getElem?_eq_none (by omega), List.getElem?_eq_none (by omega)]

/-- Results that stop at the first item without one are those of the items up to there. -/
theorem results_eq_front {f : α → β} {results : List (Option β)}
    (hlength : results.length = items.length)
    (hvalue : ∀ (i : Nat) a, items[i]? = some a →
      results[i]? = some (some (f a)) ∨ results[i]? = some none)
    (hbefore : ∀ (i j : Nat) b, i < j → results[j]? = some (some b) →
      ∃ b', results[i]? = some (some b')) :
    ∃ k, results =
      (items.take k).map (fun a => some (f a)) ++ List.replicate (items.length - k) none := by
  induction items generalizing results with
  | nil => exact ⟨0, List.eq_nil_of_length_eq_zero hlength⟩
  | cons a items ih =>
    cases results with
    | nil => simp at hlength
    | cons result results =>
      rcases hvalue 0 a rfl with hfirst | hfirst
      · have hrest : results.length = items.length := by simpa using hlength
        obtain ⟨k, hk⟩ := ih hrest
          (fun i a ha => by simpa using hvalue (i + 1) a (by simpa using ha))
          (fun i j b hij hb => by
            simpa using hbefore (i + 1) (j + 1) b (by omega) (by simpa using hb))
        refine ⟨k + 1, ?_⟩
        have hresult : result = some (f a) := by simpa using hfirst
        rw [List.take_succ_cons, List.map_cons, List.cons_append, List.length_cons,
          Nat.add_sub_add_right, hresult, ← hk]
      · refine ⟨0, ?_⟩
        have hnone : ∀ r ∈ result :: results, r = none := by
          intro r hr
          obtain ⟨j, hj⟩ := List.mem_iff_getElem?.1 hr
          cases r with
          | none => rfl
          | some b =>
            cases j with
            | zero => simp_all
            | succ j =>
              obtain ⟨b', hb'⟩ := hbefore 0 (j + 1) b (Nat.succ_pos j) hj
              cases hfirst.symm.trans hb'
        exact List.eq_replicate_iff.2 ⟨hlength, hnone⟩

/-- What a batch delivers. -/
structure Delivers (f : α → β) (items : List α) (workers : Nat) (cancelled : σ → Bool)
    (c : Crew σ τ β) : Prop where
  length_results : c.batch.results.length = items.length
  /-- An item has the value of its task exactly if it was submitted and its worker saw no
  cancellation. -/
  result_iff : ∀ (i : Nat) a, items[i]? = some a →
    (c.batch.results[i]? = some (some (f a)) ↔ .submitted i ∈ c.log ∧ .started i ∈ c.log)
  no_result : ∀ i < items.length, ¬(.submitted i ∈ c.log ∧ .started i ∈ c.log) →
    c.batch.results[i]? = some none
  once : ∀ i, c.log.countP (fun event => event.isStart && event.item? == some i) ≤ 1
  no_late_start : c.log.Pairwise fun event later => event.sawCancel = true → later.isStart = false
  all_of_go : cancelled c.batch.shared = false → c.batch.results = items.map fun a => some (f a)
  /-- The order in which the messages of the tasks come in does not matter. -/
  collected : ∀ messages, messages.Perm (c.log.filterMap (·.message?)) →
    collect items.length messages = c.batch.results
  front_of_one : workers = 1 → ∃ k, c.batch.results =
    (items.take k).map (fun a => some (f a)) ++ List.replicate (items.length - k) none

/-- A started task of a settled batch has returned the value of the function. -/
theorem result_of_settled {f : α → β} {i : Nat} {x : PoolSlot τ β} {a : α} (hf : task.Computes f)
    (schedule : List CrewAction) (s : σ) (ha : items[i]? = some a)
    (hx : (run workers task items schedule (init s items)).batch.slots[i]? = some x)
    (hidle : x.isActive = false) : x.result? = if x.hasStarted then some (f a) else none := by
  obtain ⟨actions, hactions⟩ := batch_run workers task items schedule (init s items)
  have hsound : Pool.Sound (fun _ => True) task.Reaches (fun a b => b = f a) items
      (run workers task items schedule (init s items)).batch := by
    rw [hactions]
    refine Pool.Sound.run_of_step (Pool.sound_init trivial) (fun _ _ => trivial)
      (fun a _ => .start) ?_
    intro a _ s t _ ht
    refine ⟨trivial, ?_⟩
    rcases hstep : task.step s t with ⟨s', t' | b⟩
    · exact ht.step hstep
    · exact hf a s s' t b ht hstep
  cases x with
  | done b =>
    have hb : b = f a := hsound.done i a b ha hx
    simp [PoolSlot.result?, PoolSlot.hasStarted, hb]
  | unsubmitted | dropped => rfl
  | queued | running => cases hidle

/-- Every batch that is worked through delivers, whatever the number of workers and the schedule.
Cancellation may come from outside or from a task, at any time or never. -/
theorem crew_delivers (task : PoolTask σ α τ β) (f : α → β) (items : List α) (s : σ)
    (workers : Nat) (schedule : List CrewAction) (hlatch : task.Latches) (hf : task.Computes f)
    (hsettled : (run workers task items schedule (init s items)).batch.Settled items) :
    Delivers f items workers task.cancelled (run workers task items schedule (init s items)) := by
  have htold := told_run workers task items schedule s
  have hheeded := heeded_run hlatch workers items schedule s
  have hslot {i : Nat} {a : α} (ha : items[i]? = some a) :
      ∃ x, (run workers task items schedule (init s items)).batch.slots[i]? = some x ∧
        x.result? = if x.hasStarted then some (f a) else none := by
    have hi : i < items.length := (List.getElem?_eq_some_iff.1 ha).1
    have hx := List.getElem?_eq_getElem (htold.length_slots ▸ hi)
    exact ⟨_, hx, result_of_settled hf schedule s ha hx
      (hsettled.2 _ (List.mem_of_getElem? hx))⟩
  have hlength : (run workers task items schedule (init s items)).batch.results.length =
      items.length := by
    rw [Pool.results, List.length_map, htold.length_slots]
  constructor
  case length_results => exact hlength
  case result_iff =>
    intro i a ha
    obtain ⟨x, hx, hresult⟩ := hslot ha
    rw [getElem?_results hx, hresult, htold.mem_log_iff hx rfl, htold.mem_log_iff hx rfl]
    cases x <;> simp [PoolSlot.hasStarted, PoolSlot.story]
  case no_result =>
    intro i hi hnot
    obtain ⟨x, hx, hresult⟩ := hslot (List.getElem?_eq_getElem hi)
    rw [htold.mem_log_iff hx rfl, htold.mem_log_iff hx rfl] at hnot
    rw [getElem?_results hx, hresult]
    cases x <;> simp [PoolSlot.hasStarted, PoolSlot.story] at hnot ⊢
  case once =>
    intro i
    rw [← List.countP_filter, htold.story i]
    cases (run workers task items schedule (init s items)).batch.slots[i]? with
    | none => simp
    | some x => cases x <;> simp [PoolSlot.story, PoolEvent.isStart, List.countP_cons]
  case no_late_start => exact hheeded.order
  case all_of_go =>
    intro hgo
    obtain ⟨actions, hactions⟩ := batch_run workers task items schedule (init s items)
    have hsteady : Pool.Steady task.cancelled items
        (run workers task items schedule (init s items)).batch := by
      rw [hactions]
      exact (Pool.steady_init s).run hlatch.cancel hlatch.step
    have hall := Pool.results_of_settled hsteady hsettled hgo
    apply List.ext_getElem?
    intro i
    rw [List.getElem?_map]
    cases ha : items[i]? with
    | none =>
      have hi : items.length ≤ i := List.getElem?_eq_none_iff.1 ha
      rw [List.getElem?_eq_none (by rwa [hlength])]
      rfl
    | some a =>
      obtain ⟨x, hx, hresult⟩ := hslot ha
      have hsome := hall _ (List.mem_of_getElem? (getElem?_results hx))
      rw [getElem?_results hx, hresult] at *
      split at hsome
      · rename_i hstarted
        rw [if_pos hstarted]
        rfl
      · cases hsome
  case collected => exact fun messages => htold.collect_eq
  case front_of_one =>
    rintro rfl
    have hserial := serial_run hlatch items schedule s
    refine results_eq_front hlength ?_ ?_
    · intro i a ha
      obtain ⟨x, hx, hresult⟩ := hslot ha
      rw [getElem?_results hx, hresult]
      split
      · exact .inl rfl
      · exact .inr rfl
    · intro i j b hij hb
      rw [Pool.results, List.getElem?_map] at hb
      obtain ⟨x, hx, hresult⟩ := Option.map_eq_some_iff.1 hb
      have hstarted : x.hasStarted = true := by
        cases x <;> simp [PoolSlot.result?, PoolSlot.hasStarted] at hresult ⊢
      obtain ⟨b', hb'⟩ := hserial.before i j x hij hx hstarted
      exact ⟨b', getElem?_results hb'⟩

/-- Returns its item, and cancels the batch at a given one. -/
def stoppingAt (n : Nat) : PoolTask Bool Nat Nat Nat where
  start := id
  step cancelled i := (cancelled || i == n, .inr i)
  cancelled := id
  cancel _ := true

theorem latches_stoppingAt (n : Nat) : (stoppingAt n).Latches where
  cancel _ := rfl
  step s t hs := by
    have hs' : s = true := hs
    simp [stoppingAt, hs']

theorem computes_stoppingAt (n : Nat) : (stoppingAt n).Computes id := by
  intro a s s' t b hreaches hstep
  have hb : b = t := (Sum.inr.inj (Prod.mk.inj hstep).2).symm
  rw [hb]
  cases hreaches with
  | start => rfl
  | step _ hearlier => cases hearlier

/-- All items are submitted, then one worker takes them in turn. -/
def oneByOne (count : Nat) : List CrewAction :=
  List.replicate count (.act .submit) ++
    (List.range count).flatMap fun i => [.take, .act (.start i), .act (.advance i)]

/-- The second of four items stops the batch. -/
theorem crew_delivers_stopped :
    (run 1 (stoppingAt 7) [5, 7, 9, 11] (oneByOne 4) (init false [5, 7, 9, 11])).batch.results =
        [some 5, some 7, none, none] ∧
      Delivers id [5, 7, 9, 11] 1 (stoppingAt 7).cancelled
        (run 1 (stoppingAt 7) [5, 7, 9, 11] (oneByOne 4) (init false [5, 7, 9, 11])) :=
  ⟨by decide, crew_delivers (stoppingAt 7) id [5, 7, 9, 11] false 1 (oneByOne 4)
    (latches_stoppingAt 7) (computes_stoppingAt 7) (by decide)⟩

-- With two workers the results need not be in front: the first worker is slow to look.
example : (run 2 (stoppingAt 7) [5, 7] [.act .submit, .act .submit, .take, .take, .act (.start 1),
    .act (.advance 1), .act (.start 0)] (init false [5, 7])).batch.results = [none, some 7] := by
  decide

end Crew

end ChangeImpact
