import ChangeImpact.WorkerPool
import Mathlib.Data.List.Induction

/-!
# Runs of a pool

What holds of a batch after any schedule follows from what its tasks keep in one step.

* `Pool.Moves` — what one action can do to a batch;
* `Pool.Sound` — the shared state, every task under way and every result are as they should be;
  `Pool.Sound.run` — under every schedule, if single steps of a task keep it so;
* `Pool.Settled` — nothing is left to do; `Pool.results_of_settled` — a batch that is settled and
  was not cancelled has a result for every item.
-/

namespace ChangeImpact

/-- Whether an item waits for a worker or is under way. -/
def PoolSlot.isActive {τ β : Type} : PoolSlot τ β → Bool
  | .queued | .running _ => true
  | .unsubmitted | .dropped | .done _ => false

namespace Pool

variable {σ α τ β : Type} {task : PoolTask σ α τ β} {items : List α} {p p' : Pool σ τ β}

/-! ## Single actions -/

/-- What one action can do to a batch. -/
inductive Moves (task : PoolTask σ α τ β) (items : List α) (p : Pool σ τ β) :
    Pool σ τ β → Prop where
  | idle : Moves task items p p
  | close (h : task.cancelled p.shared = true) : Moves task items p { p with closed := true }
  | submit (hopen : p.closed = false) (h : task.cancelled p.shared = false) :
    Moves task items p { p with next := p.next + 1, slots := p.slots.set p.next .queued }
  | drop (i : Nat) (h : task.cancelled p.shared = true) :
    Moves task items p { p with slots := p.slots.set i .dropped }
  | start (i : Nat) (a : α) (hitem : items[i]? = some a) (h : task.cancelled p.shared = false) :
    Moves task items p { p with slots := p.slots.set i (.running (task.start a)) }
  | advance (i : Nat) (t t' : τ) (s : σ) (hslot : p.slots[i]? = some (.running t))
    (h : task.step p.shared t = (s, .inl t')) :
    Moves task items p { p with shared := s, slots := p.slots.set i (.running t') }
  | finish (i : Nat) (t : τ) (b : β) (s : σ) (hslot : p.slots[i]? = some (.running t))
    (h : task.step p.shared t = (s, .inr b)) :
    Moves task items p { p with shared := s, slots := p.slots.set i (.done b) }
  | cancel : Moves task items p { p with shared := task.cancel p.shared }

theorem moves_step (task : PoolTask σ α τ β) (items : List α) (p : Pool σ τ β) (a : PoolAction) :
    Moves task items p (step task items p a) := by
  cases a with
  | submit =>
    simp only [step]
    split
    · exact .idle
    · rename_i hopen
      split
      · exact .close ‹_›
      · rename_i hgo
        exact .submit (by simpa using hopen) (by simpa using hgo)
  | start i =>
    simp only [step]
    split
    · split
      · exact .drop i ‹_›
      · rename_i hgo
        exact .start i _ ‹_› (by simpa using hgo)
    · exact .idle
  | advance i =>
    simp only [step]
    split
    · split
      · exact .advance i _ _ _ ‹_› ‹_›
      · exact .finish i _ _ _ ‹_› ‹_›
    · exact .idle
  | cancel => exact .cancel

theorem run_append (first rest : List PoolAction) (p : Pool σ τ β) :
    run task items (first ++ rest) p = run task items rest (run task items first p) :=
  List.foldl_append

/-- A property of batches that every action keeps holds after every schedule. `J` is what is known
about the batch before each action. -/
theorem run_induction {Q J : Pool σ τ β → Prop} {schedule : List PoolAction}
    (hmoves : ∀ p p', Q p → J p → Moves task items p p' → Q p') (hp : Q p)
    (hJ : ∀ first, first <+: schedule → J (run task items first p)) :
    Q (run task items schedule p) := by
  induction schedule using List.reverseRecOn with
  | nil => exact hp
  | append_singleton schedule a ih =>
    have hbefore := ih fun first hfirst => hJ first (hfirst.trans (List.prefix_append _ _))
    rw [run_append]
    exact hmoves _ _ hbefore (hJ schedule (List.prefix_append _ _)) (moves_step task items _ a)

/-! ## Sound batches -/

/-- The shared state satisfies `I`, every task under way `R` and every result `D`. -/
structure Sound (I : σ → Prop) (R : α → τ → Prop) (D : α → β → Prop) (items : List α)
    (p : Pool σ τ β) : Prop where
  length_slots : p.slots.length = items.length
  shared : I p.shared
  running : ∀ (i : Nat) a t, items[i]? = some a → p.slots[i]? = some (PoolSlot.running t) → R a t
  done : ∀ (i : Nat) a b, items[i]? = some a → p.slots[i]? = some (PoolSlot.done b) → D a b

variable {I : σ → Prop} {R : α → τ → Prop} {D : α → β → Prop} {W : σ → τ → Prop}

theorem slots_init {s : σ} {i : Nat} {a : α} (ha : items[i]? = some a) :
    (init s items : Pool σ τ β).slots[i]? = some .unsubmitted := by
  rw [init, List.getElem?_map, ha]
  rfl

theorem sound_init {s : σ} (hs : I s) :
    Sound I R D items (init s items : Pool σ τ β) where
  length_slots := by simp [init]
  shared := hs
  running i a t ha ht := by
    rw [slots_init ha] at ht
    simp at ht
  done i a b ha hb := by
    rw [slots_init ha] at hb
    simp at hb

theorem mem_set_cases {slots : List (PoolSlot τ β)} {i j : Nat} {x y : PoolSlot τ β}
    (h : (slots.set j x)[i]? = some y) : (i = j ∧ x = y) ∨ slots[i]? = some y := by
  rw [List.getElem?_set] at h
  split at h
  · split at h
    · exact .inl ⟨‹j = i›.symm, Option.some.inj h⟩
    · simp at h
  · exact .inr h

/-- A change of one slot is sound if the new content is. -/
theorem Sound.set {s : σ} {next j : Nat} {closed : Bool} {x : PoolSlot τ β}
    (h : Sound I R D items p) (hs : I s)
    (hrunning : ∀ a t, items[j]? = some a → x = .running t → R a t)
    (hdone : ∀ a b, items[j]? = some a → x = .done b → D a b) :
    Sound I R D items ⟨s, next, closed, p.slots.set j x⟩ where
  length_slots := by simpa using h.length_slots
  shared := hs
  running i a t ha ht := by
    rcases mem_set_cases ht with ⟨rfl, hx⟩ | hold
    · exact hrunning a t ha hx
    · exact h.running i a t ha hold
  done i a b ha hb := by
    rcases mem_set_cases hb with ⟨rfl, hx⟩ | hold
    · exact hdone a b ha hx
    · exact h.done i a b ha hold

/-- What one step of a task keeps, whether the task goes on or returns, every schedule keeps. `W` is
what is known about the tasks under way before each action. -/
theorem Sound.run {schedule : List PoolAction} (h : Sound I R D items p)
    (hW : ∀ first (i : Nat) t, first <+: schedule →
      (Pool.run task items first p).slots[i]? = some (.running t) →
        W (Pool.run task items first p).shared t)
    (hcancel : ∀ s, I s → I (task.cancel s)) (hstart : ∀ a ∈ items, R a (task.start a))
    (hstep : ∀ a ∈ items, ∀ s t, I s → W s t → R a t →
      I (task.step s t).1 ∧ Sum.elim (R a) (D a) (task.step s t).2) :
    Sound I R D items (Pool.run task items schedule p) := by
  -- a slot that holds something belongs to an item
  have hitem {p : Pool σ τ β} {i : Nat} {x : PoolSlot τ β} (h : Sound I R D items p)
      (hx : p.slots[i]? = some x) : ∃ a ∈ items, items[i]? = some a := by
    have hi : i < items.length := h.length_slots ▸ (List.getElem?_eq_some_iff.1 hx).1
    exact ⟨items[i], List.getElem_mem hi, List.getElem?_eq_getElem hi⟩
  refine run_induction (J := fun p => ∀ (i : Nat) t, p.slots[i]? = some (.running t) →
    W p.shared t) ?_ h fun first hfirst i t => hW first i t hfirst
  intro p p' hp hJp hmove
  cases hmove with
  | idle => exact hp
  | close => exact ⟨hp.length_slots, hp.shared, hp.running, hp.done⟩
  | submit => exact hp.set hp.shared (by simp) (by simp)
  | drop i => exact hp.set hp.shared (by simp) (by simp)
  | start i a ha =>
    refine hp.set hp.shared ?_ (by simp)
    intro a' t ha' ht
    obtain rfl : a = a' := by simpa [ha] using ha'
    obtain rfl := PoolSlot.running.inj ht
    exact hstart a (List.mem_of_getElem? ha)
  | advance i t t' s hslot hadvance =>
    obtain ⟨a, ha, hai⟩ := hitem hp hslot
    have hnow := hstep a ha p.shared t hp.shared (hJp i t hslot) (hp.running i a t hai hslot)
    rw [hadvance] at hnow
    refine hp.set hnow.1 ?_ (by simp)
    intro a' u ha' hu
    obtain rfl : a = a' := by simpa [hai] using ha'
    obtain rfl := PoolSlot.running.inj hu
    exact hnow.2
  | finish i t b s hslot hfinish =>
    obtain ⟨a, ha, hai⟩ := hitem hp hslot
    have hnow := hstep a ha p.shared t hp.shared (hJp i t hslot) (hp.running i a t hai hslot)
    rw [hfinish] at hnow
    refine hp.set hnow.1 (by simp) ?_
    intro a' u ha' hu
    obtain rfl : a = a' := by simpa [hai] using ha'
    obtain rfl := PoolSlot.done.inj hu
    exact hnow.2
  | cancel => exact ⟨hp.length_slots, hcancel _ hp.shared, hp.running, hp.done⟩

/-- The same where nothing else has to be known. -/
theorem Sound.run_of_step {schedule : List PoolAction} (h : Sound I R D items p)
    (hcancel : ∀ s, I s → I (task.cancel s)) (hstart : ∀ a ∈ items, R a (task.start a))
    (hstep : ∀ a ∈ items, ∀ s t, I s → R a t →
      I (task.step s t).1 ∧ Sum.elim (R a) (D a) (task.step s t).2) :
    Sound I R D items (Pool.run task items schedule p) :=
  h.run (W := fun _ _ => True) (fun _ _ _ _ _ => trivial) hcancel hstart
    fun a ha s t hs _ ht => hstep a ha s t hs ht

/-- The results of a sound batch are as they should be. -/
theorem Sound.of_mem_zip {a : α} {b : β} (h : Sound I R D items p)
    (hmem : (a, some b) ∈ items.zip p.results) : D a b := by
  obtain ⟨i, hi⟩ := List.mem_iff_getElem?.1 hmem
  obtain ⟨ha, hb⟩ := List.getElem?_zip_eq_some.1 hi
  rw [results, List.getElem?_map] at hb
  obtain ⟨x, hx, hresult⟩ := Option.map_eq_some_iff.1 hb
  cases x with
  | done b' =>
    obtain rfl : b' = b := Option.some.inj hresult
    exact h.done i a b' ha hx
  | unsubmitted | queued | dropped | running => simp [PoolSlot.result?] at hresult

/-! ## Settled batches -/

/-- Nothing is left to do: no item is to be submitted, and none waits or is under way. -/
def Settled (items : List α) (p : Pool σ τ β) : Prop :=
  (p.closed = true ∨ items.length ≤ p.next) ∧ ∀ x ∈ p.slots, x.isActive = false

instance (items : List α) (p : Pool σ τ β) : Decidable (p.Settled items) :=
  inferInstanceAs (Decidable (_ ∧ _))

/-- Items are only given up if the batch is cancelled, and they are submitted in order. -/
structure Steady (cancelled : σ → Bool) (items : List α) (p : Pool σ τ β) : Prop where
  length_slots : p.slots.length = items.length
  closed : p.closed = true → cancelled p.shared = true
  dropped : .dropped ∈ p.slots → cancelled p.shared = true
  submitted : ∀ (i : Nat), p.slots[i]? = some .unsubmitted → p.next ≤ i

variable {cancelled : σ → Bool}

theorem steady_init (s : σ) : Steady cancelled items (init s items : Pool σ τ β) where
  length_slots := by simp [init]
  closed h := by simp [init] at h
  dropped h := by simp [init] at h
  submitted i _ := Nat.zero_le i

/-- A batch stays steady if its slots change at one place to something that is neither given up nor
unsubmitted. -/
theorem Steady.set {s : σ} {j : Nat} {x : PoolSlot τ β} (h : Steady cancelled items p)
    (hs : cancelled p.shared = true → cancelled s = true)
    (hdropped : x = .dropped → cancelled s = true) (hx : x ≠ .unsubmitted) :
    Steady cancelled items { p with shared := s, slots := p.slots.set j x } where
  length_slots := by simpa using h.length_slots
  closed hclosed := hs (h.closed hclosed)
  dropped hmem := by
    rcases List.mem_or_eq_of_mem_set hmem with hold | hnew
    · exact hs (h.dropped hold)
    · exact hdropped hnew.symm
  submitted i hi := by
    rcases mem_set_cases hi with ⟨-, hnew⟩ | hold
    · exact absurd hnew hx
    · exact h.submitted i hold

theorem Steady.submit (h : Steady cancelled items p) :
    Steady cancelled items { p with next := p.next + 1, slots := p.slots.set p.next .queued } where
  length_slots := by simpa using h.length_slots
  closed := h.closed
  dropped hmem := by
    rcases List.mem_or_eq_of_mem_set hmem with hold | hnew
    · exact h.dropped hold
    · simp at hnew
  submitted i hi := by
    rw [List.getElem?_set] at hi
    split at hi
    · split at hi <;> simp at hi
    · have hle := h.submitted i hi
      show p.next + 1 ≤ i
      omega

/-- Every schedule keeps a batch steady, if a batch that is cancelled stays so. -/
theorem Steady.run_of_keeps {schedule : List PoolAction} (h : Steady task.cancelled items p)
    (hcancel : ∀ s, task.cancelled s = true → task.cancelled (task.cancel s) = true)
    (hstep : ∀ s t, task.cancelled s = true → task.cancelled (task.step s t).1 = true) :
    Steady task.cancelled items (Pool.run task items schedule p) := by
  refine run_induction (J := fun _ => True) ?_ h (fun _ _ => trivial)
  intro p p' hp _ hmove
  cases hmove with
  | idle => exact hp
  | close hcancelled =>
    exact ⟨hp.length_slots, fun _ => hcancelled, hp.dropped, hp.submitted⟩
  | submit => exact hp.submit
  | drop i hcancelled => exact hp.set id (fun _ => hcancelled) (by simp)
  | start i a => exact hp.set id (by simp) (by simp)
  | advance i t t' s _ hadvance =>
    have hs : s = (task.step p.shared t).1 := by rw [hadvance]
    exact hp.set (hs ▸ hstep p.shared t) (by simp) (by simp)
  | finish i t b s _ hfinish =>
    have hs : s = (task.step p.shared t).1 := by rw [hfinish]
    exact hp.set (hs ▸ hstep p.shared t) (by simp) (by simp)
  | cancel =>
    exact ⟨hp.length_slots, fun hclosed => hcancel _ (hp.closed hclosed),
      fun hdropped => hcancel _ (hp.dropped hdropped), hp.submitted⟩

/-- The same for tasks that can be cancelled. -/
theorem Steady.run {schedule : List PoolAction} (h : Steady task.cancelled items p)
    (hcancel : ∀ s, task.cancelled (task.cancel s) = true)
    (hstep : ∀ s t, task.cancelled s = true → task.cancelled (task.step s t).1 = true) :
    Steady task.cancelled items (Pool.run task items schedule p) :=
  h.run_of_keeps (fun s _ => hcancel s) hstep

/-- A batch that is settled and was not cancelled has a result for every item. -/
theorem results_of_settled (h : Steady cancelled items p) (hsettled : p.Settled items)
    (hgo : cancelled p.shared = false) : ∀ r ∈ p.results, r.isSome := by
  intro r hr
  obtain ⟨x, hx, rfl⟩ := List.mem_map.1 hr
  obtain ⟨hsubmitted, hidle⟩ := hsettled
  have hactive := hidle x hx
  cases x with
  | unsubmitted =>
    -- every item has been submitted
    obtain ⟨i, hi, hget⟩ := List.mem_iff_getElem.1 hx
    have hnext := h.submitted i (by rw [List.getElem?_eq_getElem hi, hget])
    have hlength := h.length_slots
    rcases hsubmitted with hclosed | hall
    · simp [h.closed hclosed] at hgo
    · omega
  | queued => simp [PoolSlot.isActive] at hactive
  | dropped => simp [h.dropped hx] at hgo
  | running t => simp [PoolSlot.isActive] at hactive
  | done b => rfl

end Pool

end ChangeImpact
