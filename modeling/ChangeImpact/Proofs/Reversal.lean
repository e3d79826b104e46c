import ChangeImpact.CallGraph.Indexed
import ChangeImpact.Proofs.FirstOccurrences

/-!
# Graphs grown step by step, and turned round

A numbered graph grows by one method or one edge at a time. What its methods and edges are after any
number of steps is said here without numbers, and from it what turning the graph round does.

* `methods_addMethod`, `edges_connect` — one step; `methods_ofEdges`, `edges_ofEdges` — all of them;
* `mem_successors` — the neighbours of a method are those of its edges;
* `CallGraph.ofEdges_self` — a graph is read back from its own methods and edges;
* `toGraph_ofEdges`, `toGraph_reverse` — without the numbers, the graphs are those of `CallGraph`;
* `TurnsRound`, `reversal_exact` — a graph and its reverse, all of both.
-/

namespace ChangeImpact

/-! ## Graphs without numbers -/

namespace CallGraph

theorem eq_of_lists {g h : CallGraph} (hmethods : g.methods = h.methods)
    (hedges : g.edges = h.edges) : g = h := by
  cases g
  cases h
  cases hmethods
  cases hedges
  rfl

/-- A graph is read back from its own methods and edges. -/
theorem ofEdges_self (g : CallGraph) : ofEdges g.methods g.edges = g := by
  apply eq_of_lists
  · -- the ends of the edges are no new methods
    have hends : (g.edges.flatMap fun e => [e.1, e.2]) ⊆ g.methods := by
      intro m hm
      obtain ⟨e, he, hend⟩ := List.mem_flatMap.1 hm
      simp only [List.mem_cons, List.not_mem_nil, or_false] at hend
      rcases hend with rfl | rfl
      · exact (g.ends_mem e he).1
      · exact (g.ends_mem e he).2
    show firstOccurrences (g.methods ++ _) = g.methods
    rw [firstOccurrences_append_of_subset hends, firstOccurrences_of_nodup g.methods_nodup]
  · exact firstOccurrences_of_nodup g.edges_nodup

theorem reverse_reverse (g : CallGraph) : g.reverse.reverse = g := by
  apply eq_of_lists
  · rfl
  · show (g.edges.map Prod.swap).map Prod.swap = g.edges
    rw [List.map_map, Prod.swap_swap_eq, List.map_id]

end CallGraph

namespace IndexedGraph

variable {g : IndexedGraph} {m x : Method} {e : Method × Method} {l : Nat × Nat}

/-! ## Numbers -/

theorem number?_eq_some_iff {i : Nat} : g.number? m = some i ↔ g.methods[i]? = some m :=
  g.index_iff m i

theorem number?_eq_none_iff : g.number? m = none ↔ m ∉ g.methods := by
  rw [Option.eq_none_iff_forall_ne_some, List.mem_iff_getElem?, not_exists]
  simp only [Ne, number?_eq_some_iff]

theorem contains_iff : g.contains m = true ↔ m ∈ g.methods := by
  rw [contains, ← Option.ne_none_iff_isSome, Ne, number?_eq_none_iff, not_not]

/-- An edge is there if the numbers of its ends are linked. -/
theorem mem_edges_iff (h : g.edgeAt? l = some e) : e ∈ g.edges ↔ l ∈ g.links := by
  unfold edges
  rw [List.mem_filterMap]
  constructor
  · rintro ⟨l', hl', he⟩
    obtain ⟨hfirst, hsecond⟩ := edgeAt?_eq_some_iff.1 h
    obtain ⟨hfirst', hsecond'⟩ := edgeAt?_eq_some_iff.1 he
    have hsame : l' = l := Prod.ext (place_unique hfirst' hfirst) (place_unique hsecond' hsecond)
    exact hsame ▸ hl'
  · intro hl
    exact ⟨l, hl, h⟩

/-- Every link is an edge. -/
theorem exists_edgeAt? (hl : l ∈ g.links) : ∃ e, g.edgeAt? l = some e := by
  obtain ⟨hfirst, hsecond⟩ := g.links_lt l hl
  refine ⟨(g.methods[l.1], g.methods[l.2]), edgeAt?_eq_some_iff.2 ⟨?_, ?_⟩⟩
  · exact List.getElem?_eq_getElem hfirst
  · exact List.getElem?_eq_getElem hsecond

theorem length_edges (g : IndexedGraph) : g.edges.length = g.links.length := by
  unfold edges
  rw [List.length_filterMap_eq_countP, List.countP_eq_length]
  intro l hl
  obtain ⟨e, he⟩ := exists_edgeAt? hl
  rw [he]
  rfl

/-- The neighbours of a method are the ends of its edges. -/
theorem mem_successors : x ∈ g.successors m ↔ (m, x) ∈ g.edges := by
  unfold successors
  cases hnumber : g.number? m with
  | none =>
    -- a method without a number is the end of no edge
    simp only [List.not_mem_nil, false_iff]
    intro hedge
    exact number?_eq_none_iff.1 hnumber (g.toGraph.ends_mem _ hedge).1
  | some i =>
    have hplace : g.methods[i]? = some m := number?_eq_some_iff.1 hnumber
    simp only [List.mem_filterMap, List.mem_reverse, List.mem_filter, beq_iff_eq]
    constructor
    · rintro ⟨l, ⟨hl, rfl⟩, hx⟩
      exact (mem_edges_iff (edgeAt?_eq_some_iff.2 ⟨hplace, hx⟩)).2 hl
    · intro hedge
      obtain ⟨l, hl, hread⟩ := List.mem_filterMap.1 hedge
      obtain ⟨hm, hx⟩ := edgeAt?_eq_some_iff.1 hread
      exact ⟨l, ⟨hl, place_unique hm hplace⟩, hx⟩

/-! ## One step -/

theorem methods_addMethod (g : IndexedGraph) (m : Method) :
    (g.addMethod m).2.methods = addNew g.methods m := by
  unfold addMethod addNew
  split
  · next i hnumber =>
    rw [if_pos (List.mem_of_getElem? (number?_eq_some_iff.1 hnumber))]
  · next hnumber =>
    rw [if_neg (number?_eq_none_iff.1 hnumber)]
    rfl

theorem links_addMethod (g : IndexedGraph) (m : Method) : (g.addMethod m).2.links = g.links := by
  unfold addMethod
  split <;> rfl

/-- A further method changes no edge: those that are there keep their numbers. -/
theorem edges_addMethod (g : IndexedGraph) (m : Method) : (g.addMethod m).2.edges = g.edges := by
  unfold edges
  rw [links_addMethod]
  refine List.filterMap_congr fun l hl => ?_
  obtain ⟨hfirst, hsecond⟩ := g.links_lt l hl
  unfold edgeAt?
  rw [g.getElem?_addMethod_of_lt m hfirst, g.getElem?_addMethod_of_lt m hsecond]

theorem edges_addEdge {i j : Nat} (hi : i < g.methods.length) (hj : j < g.methods.length)
    (h : g.edgeAt? (i, j) = some e) : (g.addEdge i j hi hj).edges = addNew g.edges e := by
  have hedges : (g.addEdge i j hi hj).edges = (addNew g.links (i, j)).filterMap g.edgeAt? := rfl
  rw [hedges]
  unfold addNew
  by_cases hold : (i, j) ∈ g.links
  · rw [if_pos hold, if_pos ((mem_edges_iff h).2 hold)]
    rfl
  · have hnew : e ∉ g.edges := fun hmem => hold ((mem_edges_iff h).1 hmem)
    rw [if_neg hold, if_neg hnew, List.filterMap_append]
    simp [h, edges]

theorem methods_connect (g : IndexedGraph) (e : Method × Method) :
    (g.connect e).methods = addNew (addNew g.methods e.1) e.2 := by
  have hmethods : (g.connect e).methods = ((g.addMethod e.1).2.addMethod e.2).2.methods := rfl
  rw [hmethods, methods_addMethod, methods_addMethod]

theorem edges_connect (g : IndexedGraph) (e : Method × Method) :
    (g.connect e).edges = addNew g.edges e := by
  -- the number of the first end still leads to it when the second has come
  have hread : ((g.addMethod e.1).2.addMethod e.2).2.edgeAt?
      ((g.addMethod e.1).1, ((g.addMethod e.1).2.addMethod e.2).1) = some e := by
    refine edgeAt?_eq_some_iff.2 ⟨?_, getElem?_addMethod _ e.2⟩
    rw [getElem?_addMethod_of_lt _ _ (g.addMethod_lt e.1)]
    exact g.getElem?_addMethod e.1
  unfold connect
  dsimp only
  rw [edges_addEdge _ _ hread, edges_addMethod, edges_addMethod]

/-! ## All steps -/

theorem methods_foldl_addMethod (ms : List Method) (g : IndexedGraph) :
    (ms.foldl (fun g m => (g.addMethod m).2) g).methods = ms.foldl addNew g.methods := by
  induction ms generalizing g with
  | nil => rfl
  | cons m ms ih => rw [List.foldl_cons, ih, methods_addMethod, List.foldl_cons]

theorem edges_foldl_addMethod (ms : List Method) (g : IndexedGraph) :
    (ms.foldl (fun g m => (g.addMethod m).2) g).edges = g.edges := by
  induction ms generalizing g with
  | nil => rfl
  | cons m ms ih => rw [List.foldl_cons, ih, edges_addMethod]

theorem methods_foldl_connect (es : List (Method × Method)) (g : IndexedGraph) :
    (es.foldl connect g).methods = (es.flatMap fun e => [e.1, e.2]).foldl addNew g.methods := by
  induction es generalizing g with
  | nil => rfl
  | cons e es ih =>
    rw [List.foldl_cons, ih, methods_connect, List.flatMap_cons, List.foldl_append]
    rfl

theorem edges_foldl_connect (es : List (Method × Method)) (g : IndexedGraph) :
    (es.foldl connect g).edges = es.foldl addNew g.edges := by
  induction es generalizing g with
  | nil => rfl
  | cons e es ih => rw [List.foldl_cons, ih, edges_connect, List.foldl_cons]

theorem methods_ofEdges (methods : List Method) (edges : List (Method × Method)) :
    (ofEdges methods edges).methods =
      firstOccurrences (methods ++ edges.flatMap fun e => [e.1, e.2]) := by
  unfold ofEdges firstOccurrences
  rw [methods_foldl_connect, methods_foldl_addMethod, List.foldl_append]
  rfl

theorem edges_ofEdges (methods : List Method) (edges : List (Method × Method)) :
    (ofEdges methods edges).edges = firstOccurrences edges := by
  unfold ofEdges firstOccurrences
  rw [edges_foldl_connect, edges_foldl_addMethod]
  rfl

/-- Without its numbers, a graph that was grown is the graph of its methods and edges. -/
theorem toGraph_ofEdges (methods : List Method) (edges : List (Method × Method)) :
    (ofEdges methods edges).toGraph = CallGraph.ofEdges methods edges :=
  CallGraph.eq_of_lists (methods_ofEdges methods edges) (edges_ofEdges methods edges)

/-- Growing the edges again, turned round, turns the graph round. -/
theorem toGraph_reverse (g : IndexedGraph) : g.reverse.toGraph = g.toGraph.reverse := by
  have hread : g.reverse.toGraph =
      CallGraph.ofEdges g.toGraph.reverse.methods g.toGraph.reverse.edges :=
    toGraph_ofEdges g.methods (g.edges.map Prod.swap)
  rw [hread, CallGraph.ofEdges_self]

/-! ## A graph and its reverse -/

/-- A graph grown from methods and edges, and the same graph turned round. -/
structure TurnsRound (given : List Method) (calls : List (Method × Method))
    (g r : IndexedGraph) : Prop where
  /-- The methods in the order in which they were first met, the ends of an edge from first to
  second. -/
  methods : IsFirstOccurrences (given ++ calls.flatMap fun e => [e.1, e.2]) g.methods
  edges : IsFirstOccurrences calls g.edges
  /-- The same methods in the same order. -/
  reverse_methods : r.methods = g.methods
  /-- The same edges in the same order, each turned round. -/
  reverse_edges : r.edges = g.edges.map Prod.swap
  /-- Methods are found in both graphs, those that nobody calls as well. -/
  contains : ∀ m, (g.contains m = true ↔ m ∈ g.methods) ∧ (r.contains m = true ↔ m ∈ g.methods)
  callees : ∀ a b, b ∈ g.successors a ↔ (a, b) ∈ calls
  callers : ∀ a b, a ∈ r.successors b ↔ b ∈ g.successors a
  edgeCount : r.links.length = g.links.length
  /-- Turning round what was read off the reverse gives the graph again. -/
  back : (ofEdges r.methods r.edges).reverse.toGraph = g.toGraph
  /-- Without their numbers, both are the graphs that the analyses work on. -/
  toGraph : g.toGraph = CallGraph.ofEdges given calls ∧
    r.toGraph = (CallGraph.ofEdges given calls).reverse

/-- A graph grown from any methods and edges has each of them once, in order, and turning it round
turns its edges round and changes nothing else. -/
theorem reversal_exact (methods : List Method) (edges : List (Method × Method)) :
    TurnsRound methods edges (ofEdges methods edges) (ofEdges methods edges).reverse := by
  have hreverse :
      (ofEdges methods edges).reverse.toGraph = (ofEdges methods edges).toGraph.reverse :=
    toGraph_reverse _
  have hmethods : (ofEdges methods edges).reverse.methods = (ofEdges methods edges).methods :=
    congrArg CallGraph.methods hreverse
  have hedges :
      (ofEdges methods edges).reverse.edges = (ofEdges methods edges).edges.map Prod.swap :=
    congrArg CallGraph.edges hreverse
  exact {
    methods := by
      rw [methods_ofEdges]
      exact isFirstOccurrences _
    edges := by
      rw [edges_ofEdges]
      exact isFirstOccurrences _
    reverse_methods := hmethods
    reverse_edges := hedges
    contains := by
      intro m
      refine ⟨contains_iff, ?_⟩
      rw [contains_iff, hmethods]
    callees := by
      intro a b
      rw [mem_successors, edges_ofEdges, mem_firstOccurrences]
    callers := by
      intro a b
      rw [mem_successors, mem_successors, hedges, List.mem_map]
      constructor
      · rintro ⟨⟨a', b'⟩, hedge, heq⟩
        obtain ⟨rfl, rfl⟩ := Prod.mk.inj heq
        exact hedge
      · intro hedge
        exact ⟨(a, b), hedge, rfl⟩
    edgeCount := by
      rw [← length_edges, ← length_edges, hedges, List.length_map]
    back := by
      -- the reverse is read back from its methods and edges
      have hread : (ofEdges (ofEdges methods edges).reverse.methods
          (ofEdges methods edges).reverse.edges).toGraph =
            (ofEdges methods edges).reverse.toGraph := by
        rw [toGraph_ofEdges]
        exact CallGraph.ofEdges_self (ofEdges methods edges).reverse.toGraph
      rw [toGraph_reverse, hread, hreverse, CallGraph.reverse_reverse]
    toGraph := by
      rw [hreverse, toGraph_ofEdges]
      exact ⟨rfl, rfl⟩ }

-- an edge given twice, a loop, and an end that is not among the methods
example :
    (ofEdges [⟨"A", "run"⟩]
      [(⟨"A", "main"⟩, ⟨"A", "run"⟩), (⟨"A", "run"⟩, ⟨"A", "run"⟩),
        (⟨"A", "main"⟩, ⟨"A", "run"⟩)]).reverse.edges =
      [(⟨"A", "run"⟩, ⟨"A", "main"⟩), (⟨"A", "run"⟩, ⟨"A", "run"⟩)] := by
  decide

end IndexedGraph

end ChangeImpact
