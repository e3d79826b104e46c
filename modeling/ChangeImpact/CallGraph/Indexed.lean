import ChangeImpact.CallGraph

/-!
# Call graphs by number

How a call graph is put together. A method gets the next number when it is first met, an index leads
back from the method to its number, and edges are pairs of numbers.

* `IndexedGraph` — methods, index and edges; the index is the inverse of the list of methods, and no
  edge is there twice;
* `IndexedGraph.addMethod`, `IndexedGraph.addEdge` — the two ways in which a graph grows;
* `IndexedGraph.ofEdges`, `IndexedGraph.reverse` — a graph from methods and edges, and the graph
  with every edge turned round, both grown from nothing;
* `IndexedGraph.successors` — direct neighbours;
* `IndexedGraph.toGraph` — the call graph without its numbers.
-/

namespace ChangeImpact

/-- A call graph whose methods are numbered. -/
structure IndexedGraph where
  /-- The methods in the order of their numbers. -/
  methods : List Method
  /-- The number of every method, the latest first. -/
  index : List (Method × Nat)
  /-- The edges by the numbers of their ends, in the order in which they came. -/
  links : List (Nat × Nat)
  index_iff : ∀ m i, index.lookup m = some i ↔ methods[i]? = some m
  links_nodup : links.Nodup
  links_lt : ∀ l ∈ links, l.1 < methods.length ∧ l.2 < methods.length

namespace IndexedGraph

/-- The graph without methods. -/
def empty : IndexedGraph where
  methods := []
  index := []
  links := []
  index_iff := by simp
  links_nodup := List.nodup_nil
  links_lt := by simp

/-- The number of a method. -/
def number? (g : IndexedGraph) (m : Method) : Option Nat :=
  g.index.lookup m

/-- Whether the method is a vertex. -/
def contains (g : IndexedGraph) (m : Method) : Bool :=
  (g.number? m).isSome

/-! ## Growing -/

/-- The graph with a further method, which gets the next number. -/
def extend (g : IndexedGraph) (m : Method) (hnew : g.number? m = none) : IndexedGraph where
  methods := g.methods ++ [m]
  index := (m, g.methods.length) :: g.index
  links := g.links
  index_iff := by
    intro m' i
    rw [List.lookup_cons, getElem?_concat_iff, ← g.index_iff]
    by_cases hm : m' = m
    · -- the method had no number before
      subst hm
      have hnone : g.index.lookup m' = none := hnew
      simp [hnone, eq_comm]
    · have hne : (m' == m) = false := beq_eq_false_iff_ne.2 hm
      simp [hne, hm]
  links_nodup := g.links_nodup
  links_lt := by
    intro l hl
    have hlt := g.links_lt l hl
    rw [List.length_append]
    omega

/-- Adds a method, unless it is there. The answer is its number and the graph that has it. -/
def addMethod (g : IndexedGraph) (m : Method) : Nat × IndexedGraph :=
  match h : g.number? m with
  | some i => (i, g)
  | none => (g.methods.length, g.extend m h)

/-- Adds an edge, unless it is there. -/
def addEdge (g : IndexedGraph) (i j : Nat) (hi : i < g.methods.length)
    (hj : j < g.methods.length) : IndexedGraph where
  methods := g.methods
  index := g.index
  links := addNew g.links (i, j)
  index_iff := g.index_iff
  links_nodup := nodup_addNew _ g.links_nodup
  links_lt := by
    intro l hl
    rcases mem_addNew.1 hl with hl | rfl
    · exact g.links_lt l hl
    · exact ⟨hi, hj⟩

/-- The number that a method gets is the place where it stands. -/
theorem getElem?_addMethod (g : IndexedGraph) (m : Method) :
    (g.addMethod m).2.methods[(g.addMethod m).1]? = some m := by
  unfold addMethod
  split
  · next i h => exact (g.index_iff m i).1 h
  · simp [extend]

/-- Methods stay where they are. -/
theorem getElem?_addMethod_of_lt (g : IndexedGraph) (m : Method) {i : Nat}
    (hi : i < g.methods.length) : (g.addMethod m).2.methods[i]? = g.methods[i]? := by
  unfold addMethod
  split
  · rfl
  · exact List.getElem?_append_left hi

theorem addMethod_lt (g : IndexedGraph) (m : Method) :
    (g.addMethod m).1 < (g.addMethod m).2.methods.length :=
  (List.getElem?_eq_some_iff.1 (g.getElem?_addMethod m)).1

theorem length_le_addMethod (g : IndexedGraph) (m : Method) :
    g.methods.length ≤ (g.addMethod m).2.methods.length := by
  unfold addMethod
  split
  · exact Nat.le_refl _
  · simp [extend]

/-- Adds both ends of an edge, and the edge. -/
def connect (g : IndexedGraph) (e : Method × Method) : IndexedGraph :=
  let first := g.addMethod e.1
  let second := first.2.addMethod e.2
  second.2.addEdge first.1 second.1
    (Nat.lt_of_lt_of_le (g.addMethod_lt e.1) (first.2.length_le_addMethod e.2))
    (first.2.addMethod_lt e.2)

/-- The graph of the given methods and edges, with the ends of all edges as vertices. -/
def ofEdges (methods : List Method) (edges : List (Method × Method)) : IndexedGraph :=
  edges.foldl connect (methods.foldl (fun g m => (g.addMethod m).2) empty)

/-! ## Reading -/

/-- The edge between two numbers. -/
def edgeAt? (g : IndexedGraph) (l : Nat × Nat) : Option (Method × Method) := do
  return (← g.methods[l.1]?, ← g.methods[l.2]?)

/-- The edges as methods, in the order in which they came. -/
def edges (g : IndexedGraph) : List (Method × Method) :=
  g.links.filterMap g.edgeAt?

/-- The methods that the edges from a method lead to, the latest edge first. -/
def successors (g : IndexedGraph) (m : Method) : List Method :=
  match g.number? m with
  | none => []
  | some i => (g.links.filter (·.1 == i)).reverse.filterMap (g.methods[·.2]?)

/-- The graph with every edge turned round. -/
def reverse (g : IndexedGraph) : IndexedGraph :=
  ofEdges g.methods (g.edges.map Prod.swap)

theorem edgeAt?_eq_some_iff {g : IndexedGraph} {l : Nat × Nat} {e : Method × Method} :
    g.edgeAt? l = some e ↔ g.methods[l.1]? = some e.1 ∧ g.methods[l.2]? = some e.2 := by
  unfold edgeAt?
  cases g.methods[l.1]? <;> cases g.methods[l.2]? <;> simp [Prod.ext_iff]

/-- A method stands in one place. -/
theorem place_unique {g : IndexedGraph} {m : Method} {i j : Nat} (hi : g.methods[i]? = some m)
    (hj : g.methods[j]? = some m) : i = j := by
  rw [← g.index_iff] at hi hj
  exact Option.some.inj (hi.symm.trans hj)

/-- The call graph without its numbers. -/
def toGraph (g : IndexedGraph) : CallGraph where
  methods := g.methods
  edges := g.edges
  methods_nodup := by
    refine List.pairwise_iff_getElem.2 fun i j hi hj hij heq => ?_
    have hplace : i = j :=
      place_unique (List.getElem?_eq_getElem hi) (heq ▸ List.getElem?_eq_getElem hj)
    omega
  edges_nodup := by
    refine List.pairwise_filterMap.2 (g.links_nodup.imp ?_)
    rintro l l' hne e he _ he' rfl
    -- both ends stand in one place
    obtain ⟨hfirst, hsecond⟩ := edgeAt?_eq_some_iff.1 he
    obtain ⟨hfirst', hsecond'⟩ := edgeAt?_eq_some_iff.1 he'
    exact hne (Prod.ext (place_unique hfirst hfirst') (place_unique hsecond hsecond'))
  ends_mem := by
    intro e he
    obtain ⟨l, -, hl⟩ := List.mem_filterMap.1 he
    obtain ⟨hfirst, hsecond⟩ := edgeAt?_eq_some_iff.1 hl
    exact ⟨List.mem_of_getElem? hfirst, List.mem_of_getElem? hsecond⟩

end IndexedGraph

end ChangeImpact
