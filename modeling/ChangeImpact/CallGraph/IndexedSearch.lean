import ChangeImpact.CallGraph.Indexed

/-!
# Searching a numbered graph

Breadth-first search along the edges of a numbered graph, bounded in depth. An entry is taken from
the front of the queue; the methods that its edges lead to are looked at one by one, and each that
was not met before is queued at the back, one deeper.

* `IndexedGraph.Search` — what is queued and what was met;
* `IndexedGraph.pop?` — one round; `IndexedGraph.finish` — all rounds until the queue is empty;
* `IndexedGraph.reach` — what chains of length 1 to `depth` lead to.
-/

namespace ChangeImpact.IndexedGraph

/-- The state of a search. Methods are queued and met with the length of the chain that led to
them. -/
structure Search where
  queue : List (Method × Nat)
  met : List (Method × Nat)
deriving DecidableEq, Repr

/-- Whether the method was met. -/
def Search.hasMet (s : Search) (m : Method) : Bool := s.met.any (·.1 == m)

/-- Meets a method at a depth, and queues it unless it was met before. -/
def Search.meet (depth : Nat) (s : Search) (m : Method) : Search :=
  if s.hasMet m then s else ⟨s.queue ++ [(m, depth)], s.met ++ [(m, depth)]⟩

/-- Before the first round: the seeds that are vertices, at depth 0. -/
def seeded (g : IndexedGraph) (seeds : List Method) : Search :=
  ⟨(seeds.filter g.contains).map (·, 0), []⟩

/-- Meets what the edges from a method lead to, if that is not too deep. -/
def expand (g : IndexedGraph) (depth : Nat) (m : Method) (d : Nat) (s : Search) : Search :=
  if d < depth then (g.successors m).foldl (Search.meet (d + 1)) s else s

/-- One round, for the entry at the front of the queue. -/
def pop? (g : IndexedGraph) (depth : Nat) (s : Search) : Option Search :=
  match s.queue with
  | [] => none
  | (m, d) :: queue => some (g.expand depth m d ⟨queue, s.met⟩)

/-! ## The rounds end -/

/-- The methods not met so far. -/
def unmet (g : IndexedGraph) (s : Search) : List Method := g.methods.filter (!s.hasMet ·)

/-- What is queued, and what can still be queued. -/
def pending (g : IndexedGraph) (s : Search) : Nat := s.queue.length + (g.unmet s).length

theorem mem_methods_of_successor {g : IndexedGraph} {m x : Method} (h : x ∈ g.successors m) :
    x ∈ g.methods := by
  unfold successors at h
  split at h
  · cases h
  · obtain ⟨l, -, hx⟩ := List.mem_filterMap.1 h
    exact List.mem_of_getElem? hx

/-- A method moves to the queue at most. -/
theorem pending_meet (g : IndexedGraph) (d : Nat) (s : Search) {m : Method} (hm : m ∈ g.methods) :
    g.pending (s.meet d m) ≤ g.pending s := by
  unfold Search.meet
  split
  · exact Nat.le_refl _
  · next hnew =>
    have hunmet : g.unmet ⟨s.queue ++ [(m, d)], s.met ++ [(m, d)]⟩ =
        (g.unmet s).filter fun x => !(m == x) := by
      unfold unmet
      rw [List.filter_filter]
      refine List.filter_congr fun x _ => ?_
      simp [Search.hasMet, Bool.and_comm]
    have hfewer : ((g.unmet s).filter fun x => !(m == x)).length < (g.unmet s).length := by
      rw [List.length_filter_lt_length_iff_exists]
      exact ⟨m, List.mem_filter.2 ⟨hm, by simpa using hnew⟩, by simp⟩
    unfold pending
    rw [hunmet, List.length_append, List.length_singleton]
    omega

theorem pending_foldl_meet (g : IndexedGraph) (d : Nat) (s : Search) {xs : List Method}
    (hxs : ∀ x ∈ xs, x ∈ g.methods) : g.pending (xs.foldl (Search.meet d) s) ≤ g.pending s := by
  induction xs generalizing s with
  | nil => exact Nat.le_refl _
  | cons x xs ih =>
    have hfirst := g.pending_meet d s (hxs x List.mem_cons_self)
    exact Nat.le_trans (ih _ fun y hy => hxs y (List.mem_cons_of_mem _ hy)) hfirst

/-- A round takes an entry from the queue for good. -/
theorem pending_pop? {g : IndexedGraph} {depth : Nat} {s s' : Search}
    (h : g.pop? depth s = some s') : g.pending s' < g.pending s := by
  obtain ⟨queue, met⟩ := s
  cases queue with
  | nil => cases h
  | cons entry queue =>
    obtain ⟨m, d⟩ := entry
    obtain rfl : g.expand depth m d ⟨queue, met⟩ = s' := Option.some.inj h
    have hrest : g.pending ⟨queue, met⟩ < g.pending ⟨(m, d) :: queue, met⟩ := by
      show queue.length + (g.unmet ⟨queue, met⟩).length <
        queue.length + 1 + (g.unmet ⟨queue, met⟩).length
      omega
    unfold expand
    split
    · exact Nat.lt_of_le_of_lt
        (g.pending_foldl_meet _ _ fun x hx => mem_methods_of_successor hx) hrest
    · exact hrest

/-- The search when all rounds are done. -/
def finish (g : IndexedGraph) (depth : Nat) (s : Search) : Search :=
  match _hpop : g.pop? depth s with
  | none => s
  | some s' => g.finish depth s'
termination_by g.pending s
decreasing_by exact pending_pop? _hpop

/-- The methods that chains of 1 to `depth` edges from the seeds lead to, in the order in which they
are met. -/
def reach (g : IndexedGraph) (seeds : List Method) (depth : Nat) : List Method :=
  (g.finish depth (g.seeded seeds)).met.map (·.1)

end ChangeImpact.IndexedGraph
