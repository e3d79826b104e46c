import ChangeImpact.CallGraph
import ChangeImpact.Word

/-!
# Searching for callers

Breadth-first search along the edges of a graph, bounded in depth. The queue holds methods with the
length of the chain that led to them; a method is queued the first time it is met and never again.
The methods not met so far are part of the state, which is what ends the search: every round moves
one entry out of the queue or out of that list.

* `CallGraph.search` — the rounds; the answer lists each method met with its depth;
* `CallGraph.reach` — what chains of length 1 to `depth` lead to;
* `CallGraph.transitiveCallers` — the same along the turned edges: who calls the seeds, directly
  or through others.
-/

namespace ChangeImpact.CallGraph

/-- The state of a search: what is still to be expanded, and what has not been met. -/
structure Frontier where
  queue : List (Method × Nat)
  unmet : List Method

/-- One round for the entry `(m, d)`: its unmet successors are queued one deeper. -/
def expand (g : CallGraph) (m : Method) (d : Nat) (queue : List (Method × Nat))
    (unmet : List Method) : List (Method × Nat) × Frontier :=
  let found := (unmet.filter fun x => (m, x) ∈ g.edges).map (·, d + 1)
  (found, ⟨queue ++ found, unmet.filter fun x => (m, x) ∉ g.edges⟩)

theorem length_expand (g : CallGraph) (m : Method) (d : Nat) (queue : List (Method × Nat))
    (unmet : List Method) :
    (g.expand m d queue unmet).2.queue.length + (g.expand m d queue unmet).2.unmet.length =
      queue.length + unmet.length := by
  simp only [expand, List.length_append, List.length_map]
  have h := List.length_eq_countP_add_countP (fun x => decide ((m, x) ∈ g.edges)) (l := unmet)
  simp only [List.countP_eq_length_filter, decide_eq_true_eq] at h
  omega

/-- The methods met from a frontier, each with its depth, in the order they are met. -/
def search (g : CallGraph) (depth : Nat) (s : Frontier) : List (Method × Nat) :=
  match s with
  | ⟨[], _⟩ => []
  | ⟨(m, d) :: queue, unmet⟩ =>
    if d < depth then
      let round := g.expand m d queue unmet
      round.1 ++ g.search depth round.2
    else g.search depth ⟨queue, unmet⟩
termination_by s.queue.length + s.unmet.length
decreasing_by
  · simp only [length_expand, List.length_cons]
    omega
  · simp

/-- The frontier before the first round: the seeds that are vertices, at depth 0. -/
def seedFrontier (g : CallGraph) (seeds : List Method) : Frontier :=
  ⟨(seeds.filter g.contains).map (·, 0), g.methods⟩

/-- The methods that chains of 1 to `depth` edges from the seeds lead to, nearest first. -/
def reach (g : CallGraph) (seeds : List Method) (depth : Nat) : List Method :=
  (g.search depth (g.seedFrontier seeds)).map (·.1)

/-- The methods with a chain of 1 to `depth` calls to one of the seeds. -/
def transitiveCallers (g : CallGraph) (seeds : List Method) (depth : Nat) : List Method :=
  g.reverse.reach seeds depth

/-- A depth no chain of distinct methods exceeds. -/
def unbounded : Nat := maxWord32

end ChangeImpact.CallGraph
