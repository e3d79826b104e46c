import ChangeImpact.CallGraph.Callers
import Mathlib.Data.List.Basic
import Mathlib.Tactic.Common

/-!
# What a search for callers finds

The bounded search is compared with chains of calls, counted by their length.

* `CallGraph.Chain` — a chain of `k` edges from one method to another;
* `CallGraph.ChainIn` — the same through given methods only. The search is described by chains
  through methods that it has not met so far, which is what makes its rounds compose;
* `Frontier.Layered` — the queue holds at most two neighbouring depths, the smaller first;
* `mem_search_iff` — a search from a layered frontier finds the ends of the chains that fit into
  the depth, and no others;
* `transitiveCallers_exact` — the search for callers finds who has a chain of 1 to `depth` calls to
  a seed.
-/

namespace ChangeImpact.CallGraph

/-! ## Chains -/

/-- A chain of `k` edges that leads from one method to another. -/
inductive Chain (g : CallGraph) : Nat → Method → Method → Prop where
  | refl (x : Method) : Chain g 0 x x
  | step {k : Nat} {x y z : Method} (hxy : (x, y) ∈ g.edges) (hyz : Chain g k y z) :
    Chain g (k + 1) x z

/-- A chain whose methods, the first one apart, are all in the list `u`. -/
inductive ChainIn (g : CallGraph) (u : List Method) : Nat → Method → Method → Prop where
  | refl (x : Method) : ChainIn g u 0 x x
  | step {k : Nat} {x y z : Method} (hxy : (x, y) ∈ g.edges) (hy : y ∈ u)
    (hyz : ChainIn g u k y z) : ChainIn g u (k + 1) x z

variable {g : CallGraph}

/-- Every chain runs through vertices. -/
theorem chainIn_methods_iff {k : Nat} {x y : Method} :
    g.ChainIn g.methods k x y ↔ g.Chain k x y := by
  constructor
  · intro h
    induction h with
    | refl x => exact .refl x
    | step hxy _ _ ih => exact .step hxy ih
  · intro h
    induction h with
    | refl x => exact .refl x
    | step hxy _ ih => exact .step hxy (g.ends_mem _ hxy).2 ih

theorem ChainIn.mono {u v : List Method} (huv : ∀ x ∈ u, x ∈ v) {k : Nat} {x y : Method}
    (h : g.ChainIn u k x y) : g.ChainIn v k x y := by
  induction h with
  | refl x => exact .refl x
  | step hxy hy _ ih => exact .step hxy (huv _ hy) ih

theorem Chain.append {j k : Nat} {x y z : Method} (h : g.Chain j x y) (h' : g.Chain k y z) :
    g.Chain (j + k) x z := by
  induction h with
  | refl x => simpa using h'
  | @step j x w y hxw _ ih =>
    have hw : g.Chain (j + k + 1) x z := .step hxw (ih h')
    rwa [Nat.add_right_comm] at hw

theorem mem_edges_reverse {x y : Method} : (x, y) ∈ g.reverse.edges ↔ (y, x) ∈ g.edges := by
  simp only [reverse, List.mem_map, Prod.exists, Prod.mk.injEq]
  constructor
  · rintro ⟨a, b, hab, rfl, rfl⟩
    exact hab
  · intro h
    exact ⟨y, x, h, rfl, rfl⟩

theorem Chain.of_reverse {k : Nat} {x y : Method} (h : g.reverse.Chain k x y) :
    g.Chain k y x := by
  induction h with
  | refl x => exact .refl x
  | step hxy _ ih => exact ih.append (.step (mem_edges_reverse.1 hxy) (.refl _))

/-- A chain read backwards is a chain of the turned graph. -/
theorem chain_reverse_iff {k : Nat} {x y : Method} : g.reverse.Chain k x y ↔ g.Chain k y x := by
  refine ⟨Chain.of_reverse, fun h => ?_⟩
  induction h with
  | refl x => exact .refl x
  | step hxy _ ih => exact ih.append (.step (mem_edges_reverse.2 hxy) (.refl _))

/-- A chain with at least one edge starts at a vertex. -/
theorem Chain.start_mem {k : Nat} {x y : Method} (h : g.Chain (k + 1) x y) : x ∈ g.methods := by
  cases h with
  | step hxy _ => exact (g.ends_mem _ hxy).1

/-- A chain through `u` stays in the part `v` of `u`, or it enters it for good at a method that is
not in `v`. What follows that method is shorter than the whole. -/
theorem ChainIn.leave {u v : List Method} {k : Nat} {x y : Method} (h : g.ChainIn u k x y) :
    g.ChainIn v k x y ∨ ∃ f ∈ u, f ∉ v ∧ ∃ j < k, g.ChainIn v j f y := by
  induction h with
  | refl x => exact .inl (.refl x)
  | @step k x w y hxw hw _ ih =>
    rcases ih with ih | ⟨f, hfu, hfv, j, hj, hchain⟩
    · by_cases hwv : w ∈ v
      · exact .inl (.step hxw hwv ih)
      · exact .inr ⟨w, hw, hwv, k, Nat.lt_succ_self k, ih⟩
    · exact .inr ⟨f, hfu, hfv, j, by omega, hchain⟩

/-! ## Rounds of the search -/

/-- The queue holds depths in order, and none is more than one deeper than the first. -/
structure Frontier.Layered (s : Frontier) : Prop where
  ascending : s.queue.Pairwise (·.2 ≤ ·.2)
  close : ∀ p ∈ s.queue.head?, ∀ q ∈ s.queue, q.2 ≤ p.2 + 1

variable {m x : Method} {d depth : Nat} {queue : List (Method × Nat)} {unmet : List Method}

theorem mem_expand_found {p : Method × Nat} :
    p ∈ (g.expand m d queue unmet).1 ↔ p.1 ∈ unmet ∧ (m, p.1) ∈ g.edges ∧ p.2 = d + 1 := by
  obtain ⟨y, k⟩ := p
  simp only [expand, List.mem_map, List.mem_filter, decide_eq_true_eq, Prod.mk.injEq]
  constructor
  · rintro ⟨a, ⟨ha, hma⟩, rfl, rfl⟩
    exact ⟨ha, hma, rfl⟩
  · rintro ⟨hy, hmy, rfl⟩
    exact ⟨y, ⟨hy, hmy⟩, rfl, rfl⟩

theorem mem_expand_unmet :
    x ∈ (g.expand m d queue unmet).2.unmet ↔ x ∈ unmet ∧ (m, x) ∉ g.edges := by
  simp [expand]

theorem mem_expand_queue {p : Method × Nat} :
    p ∈ (g.expand m d queue unmet).2.queue ↔
      p ∈ queue ∨ p ∈ (g.expand m d queue unmet).1 := by
  simp [expand]

/-- Dropping the first entry keeps the layers. -/
theorem Frontier.Layered.drop {p : Method × Nat}
    (h : Frontier.Layered ⟨p :: queue, unmet⟩) : Frontier.Layered ⟨queue, unmet⟩ := by
  have hasc := List.pairwise_cons.1 h.ascending
  refine ⟨hasc.2, fun a ha q hq => ?_⟩
  have hpa : p.2 ≤ a.2 := hasc.1 a (List.mem_of_mem_head? ha)
  have hqp : q.2 ≤ p.2 + 1 := h.close p rfl q (List.mem_cons_of_mem _ hq)
  omega

/-- A round keeps the layers: what it queues is one deeper than the entry that it expands. -/
theorem Frontier.Layered.expand (h : Frontier.Layered ⟨(m, d) :: queue, unmet⟩) :
    Frontier.Layered (g.expand m d queue unmet).2 := by
  have hasc := List.pairwise_cons.1 h.ascending
  have hclose : ∀ q ∈ queue, d ≤ q.2 ∧ q.2 ≤ d + 1 := fun q hq =>
    ⟨hasc.1 q hq, h.close (m, d) rfl q (List.mem_cons_of_mem _ hq)⟩
  have hfound : ∀ q ∈ (g.expand m d queue unmet).1, q.2 = d + 1 := fun q hq =>
    (mem_expand_found.1 hq).2.2
  have hall : ∀ q ∈ (g.expand m d queue unmet).2.queue, d ≤ q.2 ∧ q.2 ≤ d + 1 := by
    intro q hq
    rcases mem_expand_queue.1 hq with hq | hq
    · exact hclose q hq
    · have := hfound q hq
      omega
  constructor
  · refine List.pairwise_append.2 ⟨hasc.2, ?_, fun a ha b hb => ?_⟩
    · refine List.pairwise_of_forall_mem_list fun a ha b hb => ?_
      exact Nat.le_of_eq ((hfound a ha).trans (hfound b hb).symm)
    · rw [hfound b hb]
      exact (hclose a ha).2
  · intro p hp q hq
    have hp' := hall p (List.mem_of_mem_head? hp)
    have hq' := hall q hq
    omega

/-- A search from a layered frontier finds exactly the ends of the chains that run through unmet
methods and fit into the depth. -/
theorem mem_search_iff (s : Frontier) (hs : s.Layered) (x : Method) :
    (∃ k, (x, k) ∈ g.search depth s) ↔
      ∃ p ∈ s.queue, ∃ k, 1 ≤ k ∧ p.2 + k ≤ depth ∧ g.ChainIn s.unmet k p.1 x := by
  induction s using CallGraph.search.induct g depth with
  | case1 unmet => simp [search]
  | case2 m d queue unmet hd round ih =>
    rw [search, if_pos hd]
    specialize ih hs.expand
    have hsub : ∀ y ∈ round.2.unmet, y ∈ unmet := fun y hy => (mem_expand_unmet.1 hy).1
    constructor
    · rintro ⟨k, hk⟩
      rcases List.mem_append.1 hk with hk | hk
      · -- met in this round
        obtain ⟨hx, hmx, -⟩ := mem_expand_found.1 hk
        exact ⟨(m, d), by simp, 1, Nat.le_refl 1, hd, .step hmx hx (.refl x)⟩
      · -- met later, from an old entry or from one of this round
        obtain ⟨p, hp, j, hj, hdj, hchain⟩ := ih.1 ⟨k, hk⟩
        have hold : g.ChainIn unmet j p.1 x := hchain.mono hsub
        rcases mem_expand_queue.1 hp with hp | hp
        · exact ⟨p, List.mem_cons_of_mem _ hp, j, hj, hdj, hold⟩
        · obtain ⟨hpu, hmp, hpd⟩ := mem_expand_found.1 hp
          exact ⟨(m, d), by simp, j + 1, by omega, by simp only; omega, .step hmp hpu hold⟩
    · rintro ⟨p, hp, k, hk, hdk, hchain⟩
      have hdp : d ≤ p.2 := by
        rcases List.mem_cons.1 hp with rfl | hp
        · exact Nat.le_refl _
        · exact (List.pairwise_cons.1 hs.ascending).1 p hp
      -- Where does the chain last touch what this round meets?
      rcases hchain.leave (v := round.2.unmet) with hchain | ⟨f, hfu, hfv, j, hj, hchain⟩
      · rcases List.mem_cons.1 hp with rfl | hp
        · -- the first step from `m` leads to an unmet successor, which this round meets
          cases hchain with
          | refl => omega
          | step hmy hy _ => exact absurd hmy (mem_expand_unmet.1 hy).2
        · obtain ⟨i, hi⟩ := ih.2 ⟨p, mem_expand_queue.2 (.inl hp), k, hk, hdk, hchain⟩
          exact ⟨i, List.mem_append_right _ hi⟩
      · have hmf : (m, f) ∈ g.edges := by
          by_contra hmf
          exact hfv (mem_expand_unmet.2 ⟨hfu, hmf⟩)
        have hf : (f, d + 1) ∈ round.1 := mem_expand_found.2 ⟨hfu, hmf, rfl⟩
        rcases Nat.eq_zero_or_pos j with rfl | hj0
        · cases hchain
          exact ⟨d + 1, List.mem_append_left _ hf⟩
        · obtain ⟨i, hi⟩ :=
            ih.2 ⟨(f, d + 1), mem_expand_queue.2 (.inr hf), j, hj0, by simp only; omega, hchain⟩
          exact ⟨i, List.mem_append_right _ hi⟩
  | case3 m d queue unmet hd ih =>
    rw [search, if_neg hd, ih hs.drop]
    constructor
    · rintro ⟨p, hp, hrest⟩
      exact ⟨p, List.mem_cons_of_mem _ hp, hrest⟩
    · rintro ⟨p, hp, k, hk, hdk, hchain⟩
      rcases List.mem_cons.1 hp with rfl | hp
      · -- an entry at the full depth is the start of no chain that fits
        simp only at hdk
        omega
      · exact ⟨p, hp, k, hk, hdk, hchain⟩

/-- The depths that a search notes are between 1 and the bound. -/
theorem search_depth_le (s : Frontier) :
    ∀ p ∈ g.search depth s, 1 ≤ p.2 ∧ p.2 ≤ depth := by
  induction s using CallGraph.search.induct g depth with
  | case1 unmet => simp [search]
  | case2 m d queue unmet hd round ih =>
    intro p hp
    rw [search, if_pos hd] at hp
    rcases List.mem_append.1 hp with hp | hp
    · have hpd := (mem_expand_found.1 hp).2.2
      omega
    · exact ih p hp
  | case3 m d queue unmet hd ih =>
    rw [search, if_neg hd]
    exact ih

/-- A search meets only unmet methods, each once. -/
theorem search_nodup (s : Frontier) (hs : s.unmet.Nodup) :
    ((g.search depth s).map (·.1)).Nodup ∧ ∀ p ∈ g.search depth s, p.1 ∈ s.unmet := by
  induction s using CallGraph.search.induct g depth with
  | case1 unmet => simp [search]
  | case2 m d queue unmet hd round ih =>
    rw [search, if_pos hd]
    obtain ⟨hnodup, hmem⟩ := ih (hs.filter _)
    have hfound : (round.1.map (·.1)).Nodup := by
      have hmap : round.1.map (·.1) = unmet.filter fun y => (m, y) ∈ g.edges := by
        simp [round, expand, Function.comp_def]
      rw [hmap]
      exact hs.filter _
    constructor
    · rw [List.map_append]
      refine List.nodup_append.2 ⟨hfound, hnodup, ?_⟩
      rintro a ha b hb rfl
      obtain ⟨p, hp, rfl⟩ := List.mem_map.1 ha
      obtain ⟨q, hq, hqp⟩ := List.mem_map.1 hb
      have hunmet := (mem_expand_unmet.1 (hmem q hq)).2
      exact hunmet (hqp ▸ (mem_expand_found.1 hp).2.1)
    · intro p hp
      rcases List.mem_append.1 hp with hp | hp
      · exact (mem_expand_found.1 hp).1
      · exact (mem_expand_unmet.1 (hmem p hp)).1
  | case3 m d queue unmet hd ih =>
    rw [search, if_neg hd]
    exact ih hs

/-! ## The whole search -/

theorem layered_seedFrontier (g : CallGraph) (seeds : List Method) :
    (g.seedFrontier seeds).Layered := by
  have hzero : ∀ p ∈ (g.seedFrontier seeds).queue, p.2 = 0 := by
    intro p hp
    obtain ⟨s, -, rfl⟩ := List.mem_map.1 hp
    rfl
  constructor
  · refine List.pairwise_of_forall_mem_list fun a ha b hb => ?_
    exact Nat.le_of_eq ((hzero a ha).trans (hzero b hb).symm)
  · intro p _ q hq
    rw [hzero q hq]
    omega

theorem mem_reach_iff {seeds : List Method} :
    x ∈ g.reach seeds depth ↔ ∃ s ∈ seeds, ∃ k, 1 ≤ k ∧ k ≤ depth ∧ g.Chain k s x := by
  have hsearch : (∃ k, (x, k) ∈ g.search depth (g.seedFrontier seeds)) ↔ _ :=
    mem_search_iff _ (layered_seedFrontier g seeds) x
  rw [reach, List.mem_map, Prod.exists]
  simp only [exists_and_right, exists_eq_right]
  rw [hsearch]
  simp only [seedFrontier, List.mem_map, List.mem_filter, chainIn_methods_iff]
  constructor
  · rintro ⟨_, ⟨s, ⟨hs, -⟩, rfl⟩, k, hk, hkd, hchain⟩
    exact ⟨s, hs, k, hk, by simpa using hkd, hchain⟩
  · rintro ⟨s, hs, k, hk, hkd, hchain⟩
    -- a chain with an edge starts at a vertex, so the seed was queued
    obtain ⟨j, rfl⟩ := Nat.exists_eq_add_of_le' hk
    have hmem : g.contains s = true := List.contains_iff_mem.2 hchain.start_mem
    exact ⟨(s, 0), ⟨s, ⟨hs, hmem⟩, rfl⟩, j + 1, hk, by simpa using hkd, hchain⟩

theorem mem_transitiveCallers {seeds : List Method} :
    x ∈ g.transitiveCallers seeds depth ↔
      ∃ s ∈ seeds, ∃ k, 1 ≤ k ∧ k ≤ depth ∧ g.Chain k x s := by
  simp only [transitiveCallers, mem_reach_iff, chain_reverse_iff]

/-- The search for callers finds the methods with a chain of 1 to `depth` calls to a seed, and lists
each of them once. The depths it counts stay within the bound, and so within a machine word. -/
theorem transitiveCallers_exact (g : CallGraph) (seeds : List Method) (depth : UInt32) :
    (∀ x, x ∈ g.transitiveCallers seeds depth.toNat ↔
      ∃ s ∈ seeds, ∃ k, 1 ≤ k ∧ k ≤ depth.toNat ∧ g.Chain k x s) ∧
    (g.transitiveCallers seeds depth.toNat).Nodup ∧
    ∀ p ∈ g.reverse.search depth.toNat (g.reverse.seedFrontier seeds),
      1 ≤ p.2 ∧ p.2 ≤ depth.toNat ∧ p.2 < UInt32.size := by
  refine ⟨fun x => mem_transitiveCallers, (search_nodup _ g.reverse.methods_nodup).1, ?_⟩
  intro p hp
  obtain ⟨hone, hle⟩ := search_depth_le _ p hp
  exact ⟨hone, hle, Nat.lt_of_le_of_lt hle depth.toNat_lt⟩

end ChangeImpact.CallGraph
