import ChangeImpact.Method

/-!
# Call graphs

A graph of methods with an edge from each caller to what it calls. Vertices and edges stand in the
order in which they were first added, each once, and both ends of an edge are vertices.

* `CallGraph.ofEdges` — from methods and edges; every end becomes a vertex;
* `CallGraph.reverse` — every edge turned round, all orders kept;
* `CallGraph.callees`, `CallGraph.callers` — direct neighbours.
-/

namespace ChangeImpact

/-- A call graph; the pair `(a, b)` says that `a` calls `b`. -/
structure CallGraph where
  methods : List Method
  edges : List (Method × Method)
  methods_nodup : methods.Nodup
  edges_nodup : edges.Nodup
  ends_mem : ∀ e ∈ edges, e.1 ∈ methods ∧ e.2 ∈ methods

namespace CallGraph

/-- The graph of the given methods and edges, with the ends of all edges as vertices. -/
def ofEdges (methods : List Method) (edges : List (Method × Method)) : CallGraph where
  methods := firstOccurrences (methods ++ edges.flatMap fun e => [e.1, e.2])
  edges := firstOccurrences edges
  methods_nodup := nodup_firstOccurrences _
  edges_nodup := nodup_firstOccurrences _
  ends_mem := by
    intro e he
    rw [mem_firstOccurrences] at he
    constructor <;> rw [mem_firstOccurrences, List.mem_append, List.mem_flatMap] <;> right <;>
      exact ⟨e, he, by simp⟩

/-- The graph without methods. -/
def empty : CallGraph := ofEdges [] []

/-- The graph with every edge turned round; vertices and edges keep their order. -/
def reverse (g : CallGraph) : CallGraph where
  methods := g.methods
  edges := g.edges.map fun e => (e.2, e.1)
  methods_nodup := g.methods_nodup
  edges_nodup := by
    refine List.Pairwise.map _ ?_ g.edges_nodup
    intro a b h hs
    exact h (by cases a; cases b; simp_all)
  ends_mem := by
    intro e he
    obtain ⟨f, hf, rfl⟩ := List.mem_map.1 he
    exact (g.ends_mem f hf).symm

/-- Whether the method is a vertex. -/
def contains (g : CallGraph) (m : Method) : Bool :=
  g.methods.contains m

/-- The ends of the edges that leave a method. -/
def callees (g : CallGraph) (m : Method) : List Method :=
  (g.edges.filter (·.1 == m)).map (·.2)

/-- The methods that call a method directly. -/
def callers (g : CallGraph) (m : Method) : List Method :=
  g.reverse.callees m

end CallGraph

end ChangeImpact
