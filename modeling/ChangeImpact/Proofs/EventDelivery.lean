import Mathlib.Data.List.Induction
import ChangeImpact.Event
import ChangeImpact.SortedSet

/-!
# Delivery of events

Dispatchers are made, copied, given observers and used, in any order. A copy begins with the
observers that its source has at that moment, and from then on the two have nothing to do with each
other. Which observer is offered which event follows from these actions alone: it makes no
difference what the observers do when they are offered an event, and how many of them fail.

* `Action.on?`, `Placed` — every action is on a dispatcher that is there;
* `births`, `registeredOn`, `Holds` — what a dispatcher holds, said without running anything;
* `Offers` — who is offered what; `Heir` — a copy of a dispatcher, or a copy of such a copy;
* `holds_concat_iff` — what one more action changes; `holds_register_iff` — a registration matters
  to one dispatcher and its heirs only;
* `Delivery`, `delivery_exact` — what a run does.
-/

namespace ChangeImpact.Switchboard

variable {η σ : Type} {history before after : List (Action η)} {a : Action η} {d : Nat}
  {os : List η}

/-! ## Histories -/

/-- The dispatcher that an action is on. -/
def Action.on? : Action η → Option Nat
  | create => none
  | copy source => some source
  | register on _ => some on
  | emit on _ => some on

/-- Whether there is a further dispatcher after the action. -/
def Action.isBirth : Action η → Bool
  | create | copy _ => true
  | register _ _ | emit _ _ => false

/-- How many dispatchers are made in a history. They are numbered in this order. -/
def births (history : List (Action η)) : Nat :=
  history.countP Action.isBirth

/-- Every action is on a dispatcher that is there by then, if `n` are there at first. -/
def Placed (n : Nat) : List (Action η) → Prop
  | [] => True
  | a :: rest => (∀ d ∈ a.on?, d < n) ∧ Placed (if a.isBirth then n + 1 else n) rest

instance Placed.decidable : (n : Nat) → (history : List (Action η)) → Decidable (Placed n history)
  | _, [] => .isTrue trivial
  | n, a :: rest =>
    have := Placed.decidable (if a.isBirth then n + 1 else n) rest
    inferInstanceAs (Decidable (_ ∧ _))

/-- The observer that an action registers on a dispatcher. -/
def Action.registered? (d : Nat) : Action η → Option η
  | register on o => if on = d then some o else none
  | create | copy _ | emit _ _ => none

/-- The observers that are registered on a dispatcher in a history. -/
def registeredOn (d : Nat) (history : List (Action η)) : List η :=
  history.filterMap (Action.registered? d)

/-- The observers that a dispatcher holds after a history: those that its source held when it was
copied, then those that were registered on it afterwards. -/
inductive Holds : List (Action η) → Nat → List η → Prop where
  | created (before after : List (Action η)) :
    Holds (before ++ .create :: after) (births before) (registeredOn (births before) after)
  | copied (before after : List (Action η)) {source : Nat} {os : List η}
    (h : Holds before source os) :
    Holds (before ++ .copy source :: after) (births before)
      (os ++ registeredOn (births before) after)

/-- Who is offered what in a history: every event goes to the observers that its dispatcher holds,
once for each registration and in their order. -/
inductive Offers : List (Action η) → List (η × Event) → Prop where
  | none : Offers [] []
  | quiet {history : List (Action η)} {offers : List (η × Event)} {a : Action η}
    (h : Offers history offers) (ha : ∀ on e, a ≠ .emit on e) : Offers (history ++ [a]) offers
  | emit {history : List (Action η)} {offers : List (η × Event)} {on : Nat} {os : List η}
    (h : Offers history offers) (hholds : Holds history on os) (e : Event) :
    Offers (history ++ [.emit on e]) (offers ++ os.map (·, e))

/-- A dispatcher, and those that were copied from it, directly or through others, after the actions
`before` were done. -/
inductive Heir (before : List (Action η)) (on : Nat) : List (Action η) → Nat → Prop where
  | self (after : List (Action η)) : Heir before on after on
  | copied {after : List (Action η)} {source : Nat} (rest : List (Action η))
    (h : Heir before on after source) :
    Heir before on (after ++ .copy source :: rest) (births (before ++ after))

/-! ## One more action -/

theorem births_concat (history : List (Action η)) (a : Action η) :
    births (history ++ [a]) = births history + if a.isBirth then 1 else 0 := by
  rw [births, List.countP_append, List.countP_singleton]
  rfl

theorem placed_concat_iff {n : Nat} : Placed n (history ++ [a]) ↔
    Placed n history ∧ ∀ d ∈ a.on?, d < n + births history := by
  induction history generalizing n with
  | nil => simp [Placed, births]
  | cons b rest ih =>
    have hbirths : n + births (b :: rest) = (if b.isBirth then n + 1 else n) + births rest := by
      simp only [births, List.countP_cons]
      split <;> omega
    rw [List.cons_append, Placed, Placed, ih, hbirths, and_assoc]

theorem registeredOn_concat (d : Nat) (history : List (Action η)) (a : Action η) :
    registeredOn d (history ++ [a]) = registeredOn d history ++ (a.registered? d).toList := by
  rw [registeredOn, List.filterMap_append]
  cases h : a.registered? d <;> simp [registeredOn, h]

/-- A dispatcher that holds anything was made in the history. -/
theorem Holds.lt_births (h : Holds history d os) : d < births history := by
  cases h <;> simp [births, Action.isBirth]

/-- The last action of a history stands at a given place or behind it. -/
theorem append_cons_eq_concat {b : Action η} (h : before ++ b :: after = history ++ [a]) :
    (before = history ∧ b = a ∧ after = []) ∨
      ∃ rest, after = rest ++ [a] ∧ history = before ++ b :: rest := by
  rcases List.eq_nil_or_concat after with rfl | ⟨rest, last, rfl⟩
  · obtain ⟨hbefore, hlast⟩ := List.append_inj' h rfl
    exact .inl ⟨hbefore, List.singleton_inj.1 hlast, rfl⟩
  · rw [List.concat_eq_append, ← List.cons_append, ← List.append_assoc] at h
    obtain ⟨hhistory, hlast⟩ := List.append_inj' h rfl
    rw [List.concat_eq_append, List.singleton_inj.1 hlast]
    exact .inr ⟨rest, rfl, hhistory.symm⟩

/-- What dispatchers hold after one more action. It may be the one with which they begin, and else
they held something before, to which the action may add. -/
theorem holds_concat_iff : Holds (history ++ [a]) d os ↔
    (a = .create ∧ d = births history ∧ os = []) ∨
      (∃ source, a = .copy source ∧ d = births history ∧ Holds history source os) ∨
      ∃ os', Holds history d os' ∧ os = os' ++ (a.registered? d).toList := by
  constructor
  · intro h
    generalize hall : history ++ [a] = all at h
    cases h with
    | created before after =>
      rcases append_cons_eq_concat hall.symm with ⟨rfl, rfl, rfl⟩ | ⟨rest, rfl, rfl⟩
      · exact .inl ⟨rfl, rfl, rfl⟩
      · exact .inr (.inr ⟨_, .created before rest, registeredOn_concat ..⟩)
    | copied before after hsource =>
      rcases append_cons_eq_concat hall.symm with ⟨rfl, rfl, rfl⟩ | ⟨rest, rfl, rfl⟩
      · exact .inr (.inl ⟨_, rfl, rfl, by simpa [registeredOn] using hsource⟩)
      · refine .inr (.inr ⟨_, .copied before rest hsource, ?_⟩)
        rw [registeredOn_concat, List.append_assoc]
  · rintro (⟨rfl, rfl, rfl⟩ | ⟨source, rfl, rfl, h⟩ | ⟨os', h, rfl⟩)
    · exact .created history []
    · simpa [registeredOn] using Holds.copied history [] h
    · cases h with
      | created before after =>
        have hmore := Holds.created before (after ++ [a])
        rw [registeredOn_concat] at hmore
        simpa using hmore
      | copied before after hsource =>
        have hmore := Holds.copied before (after ++ [a]) hsource
        rw [registeredOn_concat, ← List.append_assoc] at hmore
        simpa using hmore

/-! ## Registrations -/

theorem Heir.concat {on : Nat} (h : Heir before on after d) (a : Action η) :
    Heir before on (after ++ [a]) d := by
  cases h with
  | self => exact .self _
  | @copied after source rest h =>
    have hmore := Heir.copied (rest ++ [a]) h
    simpa using hmore

/-- A registration makes no difference to a dispatcher that is neither the one it is on nor an
heir. -/
theorem holds_register_iff {on : Nat} {o : η} (hd : ¬Heir before on after d) :
    Holds (before ++ .register on o :: after) d os ↔ Holds (before ++ after) d os := by
  induction after using List.reverseRecOn generalizing d os with
  | nil =>
    have hne : on ≠ d := fun h => hd (h ▸ .self _)
    rw [holds_concat_iff, List.append_nil]
    simp [Action.registered?, hne]
  | append_singleton after a ih =>
    have hbirths : births (before ++ .register on o :: after) = births (before ++ after) := by
      simp [births, Action.isBirth]
    have hsame (os' : List η) : Holds (before ++ .register on o :: after) d os' ↔
        Holds (before ++ after) d os' := ih fun h => hd (h.concat a)
    rw [← List.cons_append, ← List.append_assoc, ← List.append_assoc, holds_concat_iff,
      holds_concat_iff, hbirths]
    simp only [hsame]
    -- a copy that is made now is no heir, so neither is its source
    refine or_congr_right (or_congr_left (exists_congr fun source => ?_))
    refine and_congr_right fun ha => and_congr_right fun hborn => ih fun hsource => hd ?_
    subst ha hborn
    exact .copied [] hsource

/-- A dispatcher that was there before is no heir of another one. -/
theorem not_heir_of_lt {on : Nat} (hne : d ≠ on) (hlt : d < births before) :
    ¬Heir before on after d := by
  intro h
  cases h with
  | self => exact hne rfl
  | copied rest h =>
    rw [births, births, List.countP_append] at hlt
    omega

/-! ## Runs -/

/-- What the observers share after they were offered these events, one after the other. -/
def afterOffers (offer : η → Event → σ → Reaction σ) (s : σ) (offers : List (η × Event)) : σ :=
  offers.foldl (fun s x => (offer x.1 x.2 s).state) s

theorem emit_eq_afterOffers (offer : η → Event → σ → Reaction σ) (os : List η) (e : Event) (s : σ) :
    (⟨os⟩ : Dispatcher η).emit offer e s = afterOffers offer s (os.map (·, e)) := by
  rw [afterOffers, List.foldl_map]
  rfl

/-- What the dispatchers hold after a history, and who was offered what in it. -/
structure Accounts (history : List (Action η)) (held : List (List η))
    (offers : List (η × Event)) : Prop where
  count : held.length = births history
  holds : ∀ d os, held[d]? = some os ↔ Holds history d os
  offered : Offers history offers

namespace Accounts

variable {held : List (List η)} {offers : List (η × Event)}

theorem init : Accounts ([] : List (Action η)) [] [] where
  count := rfl
  holds d os := by
    simp only [List.getElem?_nil, reduceCtorEq, false_iff]
    intro h
    exact absurd h.lt_births (Nat.not_lt_zero d)
  offered := .none

/-- A dispatcher that was made before is accounted for. -/
theorem exists_held (h : Accounts history held offers) (hd : d < births history) :
    ∃ os, held[d]? = some os :=
  ⟨_, List.getElem?_eq_getElem (h.count.symm ▸ hd)⟩

/-- A dispatcher holds what is accounted for it and nothing else. -/
theorem holds_iff {os' : List η} (h : Accounts history held offers) (hd : held[d]? = some os) :
    Holds history d os' ↔ os' = os := by
  rw [← h.holds, hd, Option.some_inj, eq_comm]

theorem create (h : Accounts history held offers) :
    Accounts (history ++ [.create]) (held ++ [[]]) offers where
  count := by
    rw [List.length_append, h.count, births_concat]
    rfl
  holds d os := by
    rw [getElem?_concat_iff, h.holds, h.count, holds_concat_iff]
    simp [Action.registered?, or_comm]
  offered := .quiet h.offered (by simp)

theorem copy {source : Nat} {os : List η} (h : Accounts history held offers)
    (hsource : held[source]? = some os) :
    Accounts (history ++ [.copy source]) (held ++ [os]) offers where
  count := by
    rw [List.length_append, h.count, births_concat]
    rfl
  holds d os' := by
    rw [getElem?_concat_iff, h.holds, h.count, holds_concat_iff]
    simp [Action.registered?, h.holds_iff hsource, or_comm]
  offered := .quiet h.offered (by simp)

theorem register {on : Nat} {os : List η} (o : η) (h : Accounts history held offers)
    (hon : held[on]? = some os) :
    Accounts (history ++ [.register on o]) (held.set on (os ++ [o])) offers where
  count := by
    rw [List.length_set, h.count, births_concat]
    rfl
  holds d os' := by
    rw [holds_concat_iff]
    by_cases hd : on = d
    · subst hd
      have hlt : on < held.length := (List.getElem?_eq_some_iff.1 hon).1
      simp [hlt, Action.registered?, h.holds_iff hon, eq_comm]
    · rw [List.getElem?_set_ne hd, h.holds]
      simp [Action.registered?, hd]
  offered := .quiet h.offered (by simp)

theorem emit {on : Nat} {os : List η} (e : Event) (h : Accounts history held offers)
    (hon : held[on]? = some os) :
    Accounts (history ++ [.emit on e]) held (offers ++ os.map (·, e)) where
  count := by
    rw [h.count, births_concat]
    rfl
  holds d os' := by
    rw [h.holds, holds_concat_iff]
    simp [Action.registered?]
  offered := .emit h.offered ((h.holds on os).1 hon) e

/-- A switchboard with what is accounted for, whatever its observers do. -/
def board (held : List (List η)) (offers : List (η × Event)) (offer : η → Event → σ → Reaction σ)
    (start : σ) : Switchboard η σ :=
  ⟨held.map Dispatcher.mk, afterOffers offer start offers⟩

/-- Every action on a dispatcher that is there goes through and does what it is accounted for. -/
theorem exists_step (h : Accounts history held offers) (ha : ∀ d ∈ a.on?, d < births history) :
    ∃ held' offers', Accounts (history ++ [a]) held' offers' ∧
      ∀ {σ : Type} (offer : η → Event → σ → Reaction σ) (start : σ),
        step offer (board held offers offer start) a = some (board held' offers' offer start) := by
  cases a with
  | create =>
    refine ⟨_, _, h.create, fun offer start => ?_⟩
    simp [step, board, Dispatcher.empty]
  | copy source =>
    obtain ⟨os, hos⟩ := h.exists_held (ha source rfl)
    refine ⟨_, _, h.copy hos, fun offer start => ?_⟩
    simp [step, board, hos]
  | register on o =>
    obtain ⟨os, hos⟩ := h.exists_held (ha on rfl)
    refine ⟨_, _, h.register o hos, fun offer start => ?_⟩
    simp [step, board, hos, Dispatcher.register]
  | emit on e =>
    obtain ⟨os, hos⟩ := h.exists_held (ha on rfl)
    refine ⟨_, _, h.emit e hos, fun offer start => ?_⟩
    simp [step, board, hos, emit_eq_afterOffers, afterOffers]

end Accounts

theorem run_concat (offer : η → Event → σ → Reaction σ) (b : Switchboard η σ)
    (history : List (Action η)) (a : Action η) :
    run offer b (history ++ [a]) = (run offer b history).bind (step offer · a) := by
  simp [run, List.foldlM_append]

/-- Every history in which dispatchers are there when they are named goes through. -/
theorem exists_accounts (hplaced : Placed 0 history) :
    ∃ held offers, Accounts history held offers ∧
      ∀ {σ : Type} (offer : η → Event → σ → Reaction σ) (start : σ),
        run offer ⟨[], start⟩ history = some (Accounts.board held offers offer start) := by
  induction history using List.reverseRecOn with
  | nil => exact ⟨[], [], .init, fun _ _ => rfl⟩
  | append_singleton history a ih =>
    obtain ⟨hplaced, ha⟩ := placed_concat_iff.1 hplaced
    rw [Nat.zero_add] at ha
    obtain ⟨held, offers, haccounts, hrun⟩ := ih hplaced
    obtain ⟨held', offers', haccounts', hstep⟩ := haccounts.exists_step ha
    refine ⟨held', offers', haccounts', fun offer start => ?_⟩
    rw [run_concat, hrun, Option.bind_some, hstep]

/-- Observers that note whatever they are offered, and then fail or do not. -/
def noting (fails : η → Event → List (η × Event) → Bool) (o : η) (e : Event)
    (notes : List (η × Event)) : Reaction (List (η × Event)) :=
  if fails o e notes then .failed (notes ++ [(o, e)]) else .heard (notes ++ [(o, e)])

theorem afterOffers_noting (fails : η → Event → List (η × Event) → Bool)
    (notes offers : List (η × Event)) :
    afterOffers (noting fails) notes offers = notes ++ offers := by
  induction offers generalizing notes with
  | nil => exact (List.append_nil notes).symm
  | cons x offers ih =>
    have hnoted : (noting fails x.1 x.2 notes).state = notes ++ [x] := by
      unfold noting
      split <;> rfl
    rw [afterOffers, List.foldl_cons, hnoted]
    exact (ih _).trans (by simp)

/-- What comes of a history: what the dispatchers hold at its end, and who was offered what. -/
structure Delivery (history : List (Action η)) (held : List (List η))
    (offers : List (η × Event)) : Prop where
  /-- Every dispatcher holds what its source held when it was copied, and what was registered on it
  since. -/
  holds : held.length = births history ∧ ∀ d os, held[d]? = some os ↔ Holds history d os
  /-- Every event was offered to what its dispatcher held by then. -/
  offered : Offers history offers
  /-- This is so whatever the observers do, in whatever state they begin and wherever they fail; -/
  runs : ∀ {σ : Type} (offer : η → Event → σ → Reaction σ) (start : σ),
    run offer ⟨[], start⟩ history =
      some ⟨held.map Dispatcher.mk, afterOffers offer start offers⟩
  /-- so if they note what they are offered before they fail, then they note these offers. -/
  noted : ∀ fails : η → Event → List (η × Event) → Bool, ∃ b,
    run (noting fails) ⟨[], []⟩ history = some b ∧ b.shared = offers
  /-- A registration makes no difference to the other dispatchers that are there, -/
  others : ∀ before on o after, history = before ++ .register on o :: after →
    ∀ d, d ≠ on → d < births before → ∀ os, Holds history d os ↔ Holds (before ++ after) d os
  /-- nor to those that are made later and are not copied from the one it is on. -/
  later : ∀ before on o after, history = before ++ .register on o :: after →
    ∀ d, ¬Heir before on after d → ∀ os, Holds history d os ↔ Holds (before ++ after) d os

/-- However dispatchers are made, copied, given observers and used: every event is offered to the
observers of its dispatcher, and nothing that observers do or fail to do changes an offer. -/
theorem delivery_exact (history : List (Action η)) (hplaced : Placed 0 history) :
    ∃ held offers, Delivery history held offers := by
  obtain ⟨held, offers, haccounts, hrun⟩ := exists_accounts hplaced
  refine ⟨held, offers, ?_⟩
  constructor
  case holds => exact ⟨haccounts.count, haccounts.holds⟩
  case offered => exact haccounts.offered
  case runs => exact hrun
  case noted =>
    intro fails
    exact ⟨_, hrun (noting fails) [], afterOffers_noting fails [] offers⟩
  case others =>
    rintro before on o after rfl d hne hlt os
    exact holds_register_iff (not_heir_of_lt hne hlt)
  case later =>
    rintro before on o after rfl d hheir os
    exact holds_register_iff hheir

/-- A dispatcher and its copy. Observer 1 is on both, and on the copy twice. -/
def copiedOnce : List (Action Nat) :=
  [.create, .register 0 1, .register 0 2, .copy 0, .register 0 3, .register 1 1,
    .emit 1 (.cacheHit "a"), .emit 0 (.cacheHit "b")]

/-- Observer 1 always fails, and everybody is offered everything. -/
theorem delivery_exact_copiedOnce :
    Placed 0 copiedOnce ∧ ∃ held offers, Delivery copiedOnce held offers ∧
      run (noting fun o _ _ => o == 1) ⟨[], []⟩ copiedOnce =
        some ⟨[⟨[1, 2, 3]⟩, ⟨[1, 2, 1]⟩], offers⟩ ∧
      offers = [(1, .cacheHit "a"), (2, .cacheHit "a"), (1, .cacheHit "a"), (1, .cacheHit "b"),
        (2, .cacheHit "b"), (3, .cacheHit "b")] := by
  have hplaced : Placed 0 copiedOnce := by decide
  obtain ⟨held, offers, hdelivery⟩ := delivery_exact copiedOnce hplaced
  obtain ⟨b, hrun, rfl⟩ := hdelivery.noted fun o _ _ => o == 1
  have hdone : run (noting fun o _ _ => o == 1) ⟨[], []⟩ copiedOnce =
      some ⟨[⟨[1, 2, 3]⟩, ⟨[1, 2, 1]⟩], [(1, .cacheHit "a"), (2, .cacheHit "a"),
        (1, .cacheHit "a"), (1, .cacheHit "b"), (2, .cacheHit "b"), (3, .cacheHit "b")]⟩ := by rfl
  obtain rfl := Option.some.inj (hrun.symm.trans hdone)
  exact ⟨hplaced, held, _, hdelivery, hdone, rfl⟩

end ChangeImpact.Switchboard
