import ChangeImpact.CallGraph.IndexedSearch
import ChangeImpact.Proofs.Callers
import ChangeImpact.Proofs.Reversal
import Mathlib.Data.List.Nodup
import Mathlib.Order.Bounds.Basic

/-!
# Labels of a breadth-first search

The search of a numbered graph, round by round. The queue holds at most two neighbouring depths, the
smaller first, and the depth with which a method is met is the length of its shortest chain. What
was queued is taken out once, which counts the rounds.

* `Pops` — so many rounds lead from one state of a search to another;
* `foldl_meet` — what a round meets;
* `Labelled` — what is known after any number of rounds; `labelled_seeded`, `Labelled.pop` — it
  holds at the start, and a round keeps it; `Labelled.met_of_chain` — short chains were followed
  already;
* `Pops.finish_eq`, `exists_pops_finish` — the rounds lead to the end of the search;
* `breadth_first_labels` — the statement about the whole search for callers.
-/

namespace ChangeImpact.IndexedGraph

variable {g r : IndexedGraph} {seeds xs : List Method} {depth n k d : Nat} {m x : Method}
  {s s' s'' : Search} {queue met : List (Method × Nat)}

/-- So many rounds lead from one state of a search to another. -/
inductive Pops (r : IndexedGraph) (depth : Nat) : Nat → Search → Search → Prop where
  | none (s : Search) : Pops r depth 0 s s
  | next {n : Nat} {s s' s'' : Search} (h : Pops r depth n s s')
    (hpop : r.pop? depth s' = some s'') : Pops r depth (n + 1) s s''

theorem Pops.head (hpop : r.pop? depth s = some s') (h : Pops r depth n s' s'') :
    Pops r depth (n + 1) s s'' := by
  induction h with
  | none => exact .next (.none s) hpop
  | next _ hlast ih => exact .next (ih hpop) hlast

/-! ## One round -/

theorem hasMet_iff : s.hasMet m = true ↔ m ∈ s.met.map (·.1) := by
  simp [Search.hasMet]

/-- A round meets the methods that were not met before, each once, and queues them in the same
order. -/
theorem foldl_meet (xs : List Method) (d : Nat) (s : Search) :
    ∃ new : List Method, new.Nodup ∧ (∀ x, x ∈ new ↔ x ∈ xs ∧ x ∉ s.met.map (·.1)) ∧
      xs.foldl (Search.meet d) s = ⟨s.queue ++ new.map (·, d), s.met ++ new.map (·, d)⟩ := by
  induction xs generalizing s with
  | nil => exact ⟨[], List.nodup_nil, by simp, by simp⟩
  | cons y ys ih =>
    rw [List.foldl_cons, Search.meet]
    split
    · next hmet =>
      rw [hasMet_iff] at hmet
      obtain ⟨new, hnodup, hmem, heq⟩ := ih s
      refine ⟨new, hnodup, ?_, heq⟩
      intro x
      rw [hmem, List.mem_cons]
      constructor
      · exact fun ⟨hx, hnot⟩ => ⟨.inr hx, hnot⟩
      · rintro ⟨rfl | hx, hnot⟩
        · exact absurd hmet hnot
        · exact ⟨hx, hnot⟩
    · next hunmet =>
      rw [hasMet_iff] at hunmet
      obtain ⟨new, hnodup, hmem, heq⟩ := ih ⟨s.queue ++ [(y, d)], s.met ++ [(y, d)]⟩
      have hmem' : ∀ x, x ∈ new ↔ x ∈ ys ∧ x ∉ s.met.map (·.1) ∧ x ≠ y := by
        intro x
        rw [hmem]
        simp
      refine ⟨y :: new, ?_, ?_, ?_⟩
      · refine List.nodup_cons.2 ⟨?_, hnodup⟩
        rw [hmem']
        exact fun h => h.2.2 rfl
      · intro x
        rw [List.mem_cons, List.mem_cons, hmem']
        by_cases hx : x = y
        · simp [hx, hunmet]
        · simp [hx]
      · rw [heq]
        simp

/-- What a round does to a search whose queue is not empty. -/
theorem pop?_cases (h : r.pop? depth ⟨(m, d) :: queue, met⟩ = some s') :
    (depth ≤ d ∧ s' = ⟨queue, met⟩) ∨
      d < depth ∧ ∃ new : List Method, new.Nodup ∧
        (∀ x, x ∈ new ↔ (m, x) ∈ r.edges ∧ x ∉ met.map (·.1)) ∧
        s' = ⟨queue ++ new.map (·, d + 1), met ++ new.map (·, d + 1)⟩ := by
  obtain rfl : r.expand depth m d ⟨queue, met⟩ = s' := Option.some.inj h
  unfold expand
  split
  · next hd =>
    obtain ⟨new, hnodup, hmem, heq⟩ := foldl_meet (r.successors m) (d + 1) ⟨queue, met⟩
    simp only [mem_successors] at hmem
    exact .inr ⟨hd, new, hnodup, hmem, heq⟩
  · next hd => exact .inl ⟨Nat.not_lt.1 hd, rfl⟩

/-! ## What is known after any number of rounds -/

/-- The lengths of the chains, not empty, that lead from a method to one of the seeds. -/
def chainLengths (c : CallGraph) (seeds : List Method) (x : Method) : Set Nat :=
  {k | 1 ≤ k ∧ ∃ seed ∈ seeds, c.Chain k x seed}

/-- What is known of a search after `n` rounds. The graph `c` has the edges of `r` turned round. -/
structure Labelled (c : CallGraph) (r : IndexedGraph) (seeds : List Method) (depth n : Nat)
    (s : Search) : Prop where
  /-- Every entry is taken out once. -/
  counted : n + s.queue.length = (seeds.filter r.contains).length + s.met.length
  once : (s.met.map (·.1)).Nodup
  ascending : s.queue.Pairwise (·.2 ≤ ·.2)
  /-- Nothing queued or met is more than one deeper than the front of the queue. -/
  close : ∀ p ∈ s.queue.head?, ∀ q, q ∈ s.queue ∨ q ∈ s.met → q.2 ≤ p.2 + 1
  /-- Every entry is a seed or was met. -/
  origin : ∀ p ∈ s.queue, (p.1 ∈ seeds ∧ p.2 = 0) ∨ p ∈ s.met
  /-- What was taken out of the queue was expanded, if it was not too deep. -/
  expanded : ∀ p, (p.1 ∈ seeds ∧ r.contains p.1 = true ∧ p.2 = 0) ∨ p ∈ s.met →
    p ∈ s.queue ∨ (p.2 < depth → ∀ x, (p.1, x) ∈ r.edges → ∃ k ≤ p.2 + 1, (x, k) ∈ s.met)
  bounded : ∀ p ∈ s.met, p.2 ≤ depth
  shortest : ∀ p ∈ s.met, IsLeast (chainLengths c seeds p.1) p.2

theorem labelled_seeded (c : CallGraph) (r : IndexedGraph) (seeds : List Method) (depth : Nat) :
    Labelled c r seeds depth 0 (r.seeded seeds) := by
  have hqueue : ∀ p, p ∈ (r.seeded seeds).queue ↔
      p.1 ∈ seeds ∧ r.contains p.1 = true ∧ p.2 = 0 := by
    rintro ⟨m, d⟩
    simp only [seeded, List.mem_map, List.mem_filter, Prod.mk.injEq]
    constructor
    · rintro ⟨m, ⟨hm, hcontains⟩, rfl, rfl⟩
      exact ⟨hm, hcontains, rfl⟩
    · rintro ⟨hm, hcontains, rfl⟩
      exact ⟨m, ⟨hm, hcontains⟩, rfl, rfl⟩
  have hmet : ∀ p, p ∉ (r.seeded seeds).met := fun p hp => nomatch hp
  exact {
    counted := by simp [seeded]
    once := List.nodup_nil
    ascending := by
      refine List.pairwise_of_forall_mem_list fun p hp q hq => ?_
      rw [((hqueue p).1 hp).2.2]
      exact Nat.zero_le _
    close := by
      rintro p - q (hq | hq)
      · rw [((hqueue q).1 hq).2.2]
        exact Nat.zero_le _
      · exact absurd hq (hmet q)
    origin := fun p hp => .inl ⟨((hqueue p).1 hp).1, ((hqueue p).1 hp).2.2⟩
    expanded := by
      rintro p (hp | hp)
      · exact .inl ((hqueue p).2 hp)
      · exact absurd hp (hmet p)
    bounded := fun p hp => absurd hp (hmet p)
    shortest := fun p hp => absurd hp (hmet p) }

variable {c : CallGraph}

/-- A chain no longer than the depths in the queue was followed to its end, and what it leads to was
met no deeper than it is long. -/
theorem Labelled.met_of_chain (h : Labelled c r seeds depth n s)
    (hturned : ∀ a b, (a, b) ∈ c.edges ↔ (b, a) ∈ r.edges) {seed : Method} (hseed : seed ∈ seeds)
    (hchain : c.Chain (k + 1) x seed) (hk : k < depth) (hqueue : ∀ p ∈ s.queue, k < p.2) :
    ∃ j ≤ k + 1, (x, j) ∈ s.met := by
  induction k generalizing x with
  | zero =>
    cases hchain with
    | step hedge hrest =>
      cases hrest
      have hback := (hturned _ _).1 hedge
      have hvertex : r.contains seed = true := contains_iff.2 (r.toGraph.ends_mem _ hback).1
      rcases h.expanded (seed, 0) (.inl ⟨hseed, hvertex, rfl⟩) with hqueued | hexpanded
      · exact absurd (hqueue _ hqueued) (Nat.lt_irrefl 0)
      · exact hexpanded hk x hback
  | succ k ih =>
    cases hchain with
    | @step _ _ y _ hedge hrest =>
      obtain ⟨j, hj, hy⟩ := ih hrest (by omega) fun p hp => by
        have hlt := hqueue p hp
        omega
      rcases h.expanded (y, j) (.inr hy) with hqueued | hexpanded
      · have hlt : k + 1 < j := hqueue _ hqueued
        omega
      · obtain ⟨i, hi, hx⟩ := hexpanded (show j < depth by omega) x ((hturned _ _).1 hedge)
        exact ⟨i, by simp only at hi; omega, hx⟩

/-- An entry at the full depth is dropped. -/
theorem Labelled.drop (h : Labelled c r seeds depth n ⟨(m, d) :: queue, met⟩) (hd : depth ≤ d) :
    Labelled c r seeds depth (n + 1) ⟨queue, met⟩ where
  counted := by
    have hcounted := h.counted
    simp only [List.length_cons] at hcounted ⊢
    omega
  once := h.once
  ascending := (List.pairwise_cons.1 h.ascending).2
  close := by
    intro p hp q hq
    have hfront : d ≤ p.2 := (List.pairwise_cons.1 h.ascending).1 p (List.mem_of_mem_head? hp)
    have hq' := h.close (m, d) rfl q (hq.imp_left (List.mem_cons_of_mem _))
    simp only at hq'
    omega
  origin := fun p hp => h.origin p (List.mem_cons_of_mem _ hp)
  expanded := by
    intro p hp
    rcases h.expanded p hp with hqueued | hexpanded
    · rcases List.mem_cons.1 hqueued with rfl | hqueued
      · exact .inr fun hlt => absurd hlt (Nat.not_lt.2 hd)
      · exact .inl hqueued
    · exact .inr hexpanded
  bounded := h.bounded
  shortest := h.shortest

/-- An entry that is expanded: what its round meets is one deeper, and by no shorter chain. -/
theorem Labelled.expand (h : Labelled c r seeds depth n ⟨(m, d) :: queue, met⟩)
    (hturned : ∀ a b, (a, b) ∈ c.edges ↔ (b, a) ∈ r.edges) (hd : d < depth) {new : List Method}
    (hnodup : new.Nodup) (hnew : ∀ x, x ∈ new ↔ (m, x) ∈ r.edges ∧ x ∉ met.map (·.1)) :
    Labelled c r seeds depth (n + 1)
      ⟨queue ++ new.map (·, d + 1), met ++ new.map (·, d + 1)⟩ := by
  have hfront : ∀ p ∈ (m, d) :: queue, d ≤ p.2 := by
    intro p hp
    rcases List.mem_cons.1 hp with rfl | hp
    · exact Nat.le_refl _
    · exact (List.pairwise_cons.1 h.ascending).1 p hp
  have hclose : ∀ q, q ∈ queue ∨ q ∈ met → q.2 ≤ d + 1 := fun q hq =>
    h.close (m, d) rfl q (hq.imp_left (List.mem_cons_of_mem _))
  have hentry : ∀ q, q ∈ new.map (·, d + 1) ↔ q.1 ∈ new ∧ q.2 = d + 1 := by
    rintro ⟨x, j⟩
    simp only [List.mem_map, Prod.mk.injEq]
    constructor
    · rintro ⟨x, hx, rfl, rfl⟩
      exact ⟨hx, rfl⟩
    · rintro ⟨hx, rfl⟩
      exact ⟨x, hx, rfl, rfl⟩
  exact {
    counted := by
      have hcounted := h.counted
      simp only [List.length_cons, List.length_append, List.length_map] at hcounted ⊢
      omega
    once := by
      rw [List.map_append, List.map_map]
      have hsame : new.map ((·.1) ∘ fun x => (x, d + 1)) = new := List.map_id new
      rw [hsame]
      exact h.once.append hnodup fun x hx hmem => ((hnew x).1 hmem).2 hx
    ascending := by
      refine List.pairwise_append.2 ⟨(List.pairwise_cons.1 h.ascending).2, ?_, ?_⟩
      · refine List.pairwise_of_forall_mem_list fun p hp q hq => ?_
        exact Nat.le_of_eq (((hentry p).1 hp).2.trans ((hentry q).1 hq).2.symm)
      · intro p hp q hq
        rw [((hentry q).1 hq).2]
        exact hclose p (.inl hp)
    close := by
      intro p hp q hq
      have hp' : d ≤ p.2 := by
        rcases List.mem_append.1 (List.mem_of_mem_head? hp) with hp | hp
        · exact hfront p (List.mem_cons_of_mem _ hp)
        · have heq := ((hentry p).1 hp).2
          omega
      have hq' : q.2 ≤ d + 1 := by
        simp only [List.mem_append] at hq
        rcases hq with (hq | hq) | hq | hq
        · exact hclose q (.inl hq)
        · exact Nat.le_of_eq ((hentry q).1 hq).2
        · exact hclose q (.inr hq)
        · exact Nat.le_of_eq ((hentry q).1 hq).2
      omega
    origin := by
      intro p hp
      rcases List.mem_append.1 hp with hp | hp
      · exact (h.origin p (List.mem_cons_of_mem _ hp)).imp_right (List.mem_append_left _)
      · exact .inr (List.mem_append_right _ hp)
    expanded := by
      intro p hp
      have hold : (p.1 ∈ seeds ∧ r.contains p.1 = true ∧ p.2 = 0) ∨ p ∈ met →
          p ∈ queue ++ new.map (·, d + 1) ∨ (p.2 < depth → ∀ x, (p.1, x) ∈ r.edges →
            ∃ k ≤ p.2 + 1, (x, k) ∈ met ++ new.map (·, d + 1)) := by
        intro hp
        rcases h.expanded p hp with hqueued | hexpanded
        · rcases List.mem_cons.1 hqueued with rfl | hqueued
          · -- the entry itself: its successors were met before, or are met now
            refine .inr fun _ x hx => ?_
            by_cases hmet : x ∈ met.map (·.1)
            · obtain ⟨q, hq, rfl⟩ := List.mem_map.1 hmet
              exact ⟨q.2, hclose q (.inr hq), List.mem_append_left _ hq⟩
            · exact ⟨d + 1, Nat.le_refl _,
                List.mem_append_right _ ((hentry _).2 ⟨(hnew x).2 ⟨hx, hmet⟩, rfl⟩)⟩
          · exact .inl (List.mem_append_left _ hqueued)
        · refine .inr fun hlt x hx => ?_
          obtain ⟨j, hj, hmem⟩ := hexpanded hlt x hx
          exact ⟨j, hj, List.mem_append_left _ hmem⟩
      rcases hp with hp | hp
      · exact hold (.inl hp)
      · rcases List.mem_append.1 hp with hp | hp
        · exact hold (.inr hp)
        · exact .inl (List.mem_append_right _ hp)
    bounded := by
      intro p hp
      rcases List.mem_append.1 hp with hp | hp
      · exact h.bounded p hp
      · rw [((hentry p).1 hp).2]
        exact hd
    shortest := by
      intro p hp
      rcases List.mem_append.1 hp with hp | hp
      · exact h.shortest p hp
      · obtain ⟨x, j⟩ := p
        obtain ⟨hx, rfl⟩ := (hentry (x, j)).1 hp
        obtain ⟨hedge, hunmet⟩ := (hnew x).1 hx
        constructor
        · -- the chain of the entry, with one more call in front
          obtain ⟨seed, hseed, hchain⟩ : ∃ seed ∈ seeds, c.Chain d m seed := by
            rcases h.origin (m, d) List.mem_cons_self with ⟨hseed, rfl⟩ | hmet
            · exact ⟨m, hseed, .refl m⟩
            · exact (h.shortest (m, d) hmet).1.2
          exact ⟨Nat.succ_pos d, seed, hseed, .step ((hturned _ _).2 hedge) hchain⟩
        · rintro j ⟨hj, seed, hseed, hchain⟩
          -- a shorter chain was followed before
          by_contra hlt
          obtain ⟨k, rfl⟩ := Nat.exists_eq_add_of_le' hj
          obtain ⟨i, -, hmet⟩ := h.met_of_chain hturned hseed hchain (by omega) fun p hp => by
            have hle := hfront p hp
            omega
          exact hunmet (List.mem_map.2 ⟨(x, i), hmet, rfl⟩) }

/-- A round keeps what is known. -/
theorem Labelled.pop (h : Labelled c r seeds depth n s)
    (hturned : ∀ a b, (a, b) ∈ c.edges ↔ (b, a) ∈ r.edges) (hpop : r.pop? depth s = some s') :
    Labelled c r seeds depth (n + 1) s' := by
  obtain ⟨queue, met⟩ := s
  cases queue with
  | nil => cases hpop
  | cons entry queue =>
    obtain ⟨m, d⟩ := entry
    rcases pop?_cases hpop with ⟨hd, rfl⟩ | ⟨hd, new, hnodup, hnew, rfl⟩
    · exact h.drop hd
    · exact h.expand hturned hd hnodup hnew

theorem Labelled.pops (hturned : ∀ a b, (a, b) ∈ c.edges ↔ (b, a) ∈ r.edges)
    (h : Pops r depth n (r.seeded seeds) s) : Labelled c r seeds depth n s := by
  generalize hstart : r.seeded seeds = start at h
  induction h with
  | none => exact hstart ▸ labelled_seeded c r seeds depth
  | next _ hpop ih => exact (ih hstart).pop hturned hpop

/-! ## The end of the search -/

theorem pop?_eq_none_iff : r.pop? depth s = none ↔ s.queue = [] := by
  obtain ⟨queue, met⟩ := s
  cases queue with
  | nil => simp [pop?]
  | cons entry queue => simp [pop?]

theorem finish_of_pop? (h : r.pop? depth s = some s') : r.finish depth s = r.finish depth s' := by
  rw [finish]
  split
  · next hnone =>
    rw [h] at hnone
    cases hnone
  · next hsome =>
    rw [h] at hsome
    cases hsome
    rfl

/-- A search is finished by some number of rounds. -/
theorem exists_pops_finish (r : IndexedGraph) (depth : Nat) (s : Search) :
    ∃ n, Pops r depth n s (r.finish depth s) ∧ (r.finish depth s).queue = [] := by
  induction s using finish.induct r depth with
  | case1 s hnone =>
    have hend : r.finish depth s = s := by
      rw [finish]
      split
      · rfl
      · next hsome =>
        rw [hnone] at hsome
        cases hsome
    rw [hend]
    exact ⟨0, .none s, pop?_eq_none_iff.1 hnone⟩
  | case2 s s' hpop ih =>
    obtain ⟨n, hpops, hempty⟩ := ih
    rw [finish_of_pop? hpop]
    exact ⟨n + 1, .head hpop hpops, hempty⟩

/-- Wherever the rounds have led, the search ends the same. -/
theorem Pops.finish_eq (h : Pops r depth n s s') : r.finish depth s' = r.finish depth s := by
  induction h with
  | none => rfl
  | next _ hpop ih => rw [← finish_of_pop? hpop, ih]

theorem Pops.trans (h : Pops r depth n s s') (h' : Pops r depth k s' s'') :
    Pops r depth (n + k) s s'' := by
  induction h' with
  | none => exact h
  | next _ hpop ih => exact .next (ih h) hpop

theorem met_prefix_of_pop? (h : r.pop? depth s = some s') : s.met <+: s'.met := by
  obtain ⟨queue, met⟩ := s
  cases queue with
  | nil => cases h
  | cons entry queue =>
    obtain ⟨m, d⟩ := entry
    rcases pop?_cases h with ⟨-, rfl⟩ | ⟨-, new, -, -, rfl⟩
    · exact List.prefix_refl _
    · exact List.prefix_append _ _

theorem Pops.met_prefix (h : Pops r depth n s s') : s.met <+: s'.met := by
  induction h with
  | none => exact List.prefix_refl _
  | next _ hpop ih => exact ih.trans (met_prefix_of_pop? hpop)

/-! ## The search for callers -/

/-- A search for the callers of the seeds after `n` rounds. -/
structure Orderly (g : IndexedGraph) (seeds : List Method) (depth n : Nat) (s : Search) : Prop where
  /-- Depths do not fall from the front of the queue to its back. -/
  ascending : s.queue.Pairwise (·.2 ≤ ·.2)
  close : ∀ p ∈ s.queue, ∀ q ∈ s.queue, q.2 ≤ p.2 + 1
  /-- Seeds are queued at depth 0, and methods that are met with the depth at which they are met. -/
  queued : ∀ p ∈ s.queue, (p.1 ∈ seeds ∧ p.2 = 0) ∨ p ∈ s.met
  /-- No method is met twice. -/
  once : (s.met.map (·.1)).Nodup
  /-- What was met stays, and new methods come behind it. -/
  met : s.met <+: (g.reverse.finish depth (g.reverse.seeded seeds)).met
  /-- The depth of a method is the length of its shortest chain of calls, not empty, to a seed. -/
  shortest : ∀ p ∈ s.met, IsLeast (chainLengths g.toGraph seeds p.1) p.2 ∧ p.2 ≤ depth
  /-- There are no more rounds than seeds that are vertices and methods in the end. -/
  rounds : n ≤ (seeds.filter g.contains).length + (g.reverse.reach seeds depth).length

theorem mem_edges_toGraph_iff (a b : Method) :
    (a, b) ∈ g.toGraph.edges ↔ (b, a) ∈ g.reverse.edges := by
  have hedges : g.reverse.edges = g.toGraph.reverse.edges :=
    congrArg CallGraph.edges (toGraph_reverse g)
  rw [hedges, CallGraph.mem_edges_reverse]

theorem contains_reverse (g : IndexedGraph) : g.reverse.contains = g.contains := by
  funext m
  have hmethods : g.reverse.methods = g.methods := congrArg CallGraph.methods (toGraph_reverse g)
  rw [Bool.eq_iff_iff, contains_iff, contains_iff, hmethods]

/-- The rounds from the seeds to the end of the search are as many as the seeds that are vertices
and the methods that are met. -/
theorem pops_finish (g : IndexedGraph) (seeds : List Method) (depth : Nat) :
    Pops g.reverse depth ((seeds.filter g.contains).length + (g.reverse.reach seeds depth).length)
      (g.reverse.seeded seeds) (g.reverse.finish depth (g.reverse.seeded seeds)) := by
  obtain ⟨n, hpops, hempty⟩ := exists_pops_finish g.reverse depth (g.reverse.seeded seeds)
  have hcounted := (Labelled.pops mem_edges_toGraph_iff hpops).counted
  rw [hempty, contains_reverse] at hcounted
  have hn : n = (seeds.filter g.contains).length + (g.reverse.reach seeds depth).length := by
    rw [reach, List.length_map]
    exact hcounted
  exact hn ▸ hpops

theorem Pops.orderly (h : Pops g.reverse depth n (g.reverse.seeded seeds) s) :
    Orderly g seeds depth n s := by
  have hlabelled : Labelled g.toGraph g.reverse seeds depth n s :=
    Labelled.pops mem_edges_toGraph_iff h
  -- go on to the end from here
  obtain ⟨k, hrest, hempty⟩ := exists_pops_finish g.reverse depth s
  have hcounted := (Labelled.pops mem_edges_toGraph_iff (h.trans hrest)).counted
  have hmet := hrest.met_prefix
  rw [hempty, contains_reverse] at hcounted
  rw [h.finish_eq] at hmet hcounted
  exact {
    ascending := hlabelled.ascending
    close := by
      intro p hp q hq
      obtain ⟨front, hfront⟩ : ∃ front, front ∈ s.queue.head? := by
        cases hqueue : s.queue with
        | nil =>
          rw [hqueue] at hp
          cases hp
        | cons front rest => exact ⟨front, rfl⟩
      have hle : front.2 ≤ p.2 := by
        obtain ⟨rest, hcons⟩ : ∃ rest, s.queue = front :: rest := List.head?_eq_some_iff.1 hfront
        have hascending := hlabelled.ascending
        rw [hcons] at hp hascending
        rcases List.mem_cons.1 hp with rfl | hp
        · exact Nat.le_refl _
        · exact (List.pairwise_cons.1 hascending).1 p hp
      have hclose := hlabelled.close front hfront q (.inl hq)
      omega
    queued := hlabelled.origin
    once := hlabelled.once
    met := hmet
    shortest := fun p hp => ⟨hlabelled.shortest p hp, hlabelled.bounded p hp⟩
    rounds := by
      rw [reach, List.length_map]
      simp only [List.length_nil] at hcounted
      omega }

theorem mem_reach_reverse_iff :
    x ∈ g.reverse.reach seeds depth ↔ x ∈ g.toGraph.transitiveCallers seeds depth := by
  obtain ⟨n, hpops, hempty⟩ := exists_pops_finish g.reverse depth (g.reverse.seeded seeds)
  have hlabelled : Labelled g.toGraph g.reverse seeds depth n _ :=
    Labelled.pops mem_edges_toGraph_iff hpops
  rw [CallGraph.mem_transitiveCallers, reach, List.mem_map]
  constructor
  · rintro ⟨p, hp, rfl⟩
    obtain ⟨hpos, seed, hseed, hchain⟩ := (hlabelled.shortest p hp).1
    exact ⟨seed, hseed, p.2, hpos, hlabelled.bounded p hp, hchain⟩
  · rintro ⟨seed, hseed, k, hpos, hk, hchain⟩
    obtain ⟨j, rfl⟩ := Nat.exists_eq_add_of_le' hpos
    obtain ⟨i, -, hmet⟩ := hlabelled.met_of_chain mem_edges_toGraph_iff hseed hchain hk (by
      rw [hempty]
      exact fun p hp => nomatch hp)
    exact ⟨(x, i), hmet, rfl⟩

/-- In the search for callers, depths never fall along the queue and differ by one at most, no
method is met twice, and each is met with the length of its shortest chain of calls to a seed. The
search ends with an empty queue, after as many rounds as there are seeds in the graph and methods
met, and no run of it has more. What it has met in the end are the callers of the seeds. -/
theorem breadth_first_labels (g : IndexedGraph) (seeds : List Method) (depth : Nat) :
    (∀ n s, Pops g.reverse depth n (g.reverse.seeded seeds) s → Orderly g seeds depth n s) ∧
    (∃ s, Pops g.reverse depth
        ((seeds.filter g.contains).length + (g.reverse.reach seeds depth).length)
        (g.reverse.seeded seeds) s ∧
      s.queue = [] ∧ s.met.map (·.1) = g.reverse.reach seeds depth) ∧
    (g.reverse.reach seeds depth).Perm (g.toGraph.transitiveCallers seeds depth) := by
  have hend := pops_finish g seeds depth
  obtain ⟨-, -, hempty⟩ := exists_pops_finish g.reverse depth (g.reverse.seeded seeds)
  refine ⟨fun n s h => h.orderly, ⟨_, hend, hempty, rfl⟩, ?_⟩
  refine (List.perm_ext_iff_of_nodup ?_ ?_).2 fun x => mem_reach_reverse_iff
  · exact hend.orderly.once
  · exact (CallGraph.search_nodup _ g.toGraph.reverse.methods_nodup).1

/-- Two methods that call each other, and one that calls the first. -/
def mutualCalls : IndexedGraph :=
  ofEdges []
    [(⟨"Loop", "main"⟩, ⟨"Loop", "run"⟩), (⟨"Loop", "run"⟩, ⟨"Loop", "step"⟩),
      (⟨"Loop", "step"⟩, ⟨"Loop", "run"⟩)]

/-- A seed given twice, and one that is no vertex. After a round the queue holds two depths, and the
search ends after five rounds: two for the seeds, three for the methods that are met, of which one
is the seed itself. -/
theorem breadth_first_labels_mutualCalls :
    Pops mutualCalls.reverse 9 1
        (mutualCalls.reverse.seeded [⟨"Loop", "step"⟩, ⟨"Loop", "stop"⟩, ⟨"Loop", "step"⟩])
        ⟨[(⟨"Loop", "step"⟩, 0), (⟨"Loop", "run"⟩, 1)], [(⟨"Loop", "run"⟩, 1)]⟩ ∧
      Orderly mutualCalls [⟨"Loop", "step"⟩, ⟨"Loop", "stop"⟩, ⟨"Loop", "step"⟩] 9 1
        ⟨[(⟨"Loop", "step"⟩, 0), (⟨"Loop", "run"⟩, 1)], [(⟨"Loop", "run"⟩, 1)]⟩ ∧
      (mutualCalls.reverse.reach [⟨"Loop", "step"⟩, ⟨"Loop", "stop"⟩, ⟨"Loop", "step"⟩] 9).Perm
        [⟨"Loop", "run"⟩, ⟨"Loop", "main"⟩, ⟨"Loop", "step"⟩] := by
  have hround : Pops mutualCalls.reverse 9 1
      (mutualCalls.reverse.seeded [⟨"Loop", "step"⟩, ⟨"Loop", "stop"⟩, ⟨"Loop", "step"⟩])
      ⟨[(⟨"Loop", "step"⟩, 0), (⟨"Loop", "run"⟩, 1)], [(⟨"Loop", "run"⟩, 1)]⟩ :=
    .next (.none _) (by decide +kernel)
  obtain ⟨horderly, -, hperm⟩ := breadth_first_labels mutualCalls
    [⟨"Loop", "step"⟩, ⟨"Loop", "stop"⟩, ⟨"Loop", "step"⟩] 9
  refine ⟨hround, horderly 1 _ hround, hperm.trans ?_⟩
  decide +kernel

end ChangeImpact.IndexedGraph
