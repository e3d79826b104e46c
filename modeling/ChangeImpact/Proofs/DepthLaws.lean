import ChangeImpact.Proofs.ImpactLaws
import Mathlib.Data.List.Sort
import Mathlib.Logic.Relation

/-!
# Searching deeper

A deeper search, or one in a graph with more calls, finds more, until the depth is the number of
vertices. Beyond that there is nothing left to find, and what is found is the transitive closure of
the calls.

* `Invokes`, `calls_none_iff_transGen` — calls of any length are the transitive closure of single
  calls;
* `FindsAll`, `NeverTruncated`, `deep_search_exact` — a search that is deep enough finds all
  callers;
* `Calls.of_subset` — more edges keep the calls; `Loosens`, `getD_unbounded_le` — looser bounds;
* `Grows`, `report_monotone` — what becomes of methods, tests and gaps in a deeper search.
-/

namespace ChangeImpact

namespace CallGraph

variable {g g' : CallGraph} {x y : Method} {depth : Nat} {bound : Option Nat}

/-! ## All callers -/

/-- The first method calls the second directly. -/
def Invokes (g : CallGraph) (a b : Method) : Prop := (a, b) ∈ g.edges

/-- A chain with an edge leads along the transitive closure of single calls. -/
theorem Chain.transGen {k : Nat} (h : g.Chain (k + 1) x y) : Relation.TransGen g.Invokes x y := by
  induction k generalizing x with
  | zero =>
    cases h with
    | step hedge hrest =>
      cases hrest
      exact .single hedge
  | succ k ih =>
    cases h with
    | step hedge hrest => exact .head hedge (ih hrest)

/-- Calls of any length are the transitive closure of single calls. -/
theorem calls_none_iff_transGen : g.Calls none x y ↔ Relation.TransGen g.Invokes x y := by
  constructor
  · rintro ⟨k, hk, -, hchain⟩
    obtain ⟨j, rfl⟩ := Nat.exists_eq_add_of_le' hk
    exact hchain.transGen
  · intro h
    induction h with
    | single hedge => exact ⟨1, Nat.le_refl 1, by simp, .step hedge (.refl _)⟩
    | tail _ hedge ih =>
      obtain ⟨k, hk, -, hchain⟩ := ih
      exact ⟨k + 1, by omega, by simp, hchain.append (.step hedge (.refl _))⟩

/-- The list has all that call a seed, directly or through others, each once and nothing else. -/
structure FindsAll (g : CallGraph) (seeds found : List Method) : Prop where
  mem_iff : ∀ x, x ∈ found ↔ ∃ s ∈ seeds, Relation.TransGen g.Invokes x s
  nodup : found.Nodup

/-- A search as deep as the graph has vertices finds all callers. -/
theorem findsAll_of_saturated (hsize : g.methods.length ≤ depth) (seeds : List Method) :
    FindsAll g seeds (g.transitiveCallers seeds depth) where
  mem_iff := by
    intro x
    simp only [mem_transitiveCallers_iff_calls, calls_of_saturated hsize, calls_none_iff_transGen]
  nodup := (search_nodup _ g.reverse.methods_nodup).1

/-! ## More calls -/

theorem Chain.of_subset (hsub : g.edges ⊆ g'.edges) {k : Nat} (h : g.Chain k x y) :
    g'.Chain k x y := by
  induction h with
  | refl x => exact .refl x
  | step hedge _ ih => exact .step (hsub hedge) ih

/-- More edges keep the calls. -/
theorem Calls.of_subset (hsub : g.edges ⊆ g'.edges) (h : g.Calls bound x y) :
    g'.Calls bound x y := by
  obtain ⟨k, hk, hbound, hchain⟩ := h
  exact ⟨k, hk, hbound, hchain.of_subset hsub⟩

theorem edges_ofEdges_subset {methods : List Method} {edges more : List (Method × Method)}
    (h : edges ⊆ more) : (ofEdges methods edges).edges ⊆ (ofEdges methods more).edges := by
  intro e he
  exact mem_firstOccurrences.2 (h (mem_firstOccurrences.1 he))

/-- The second bound admits no less than the first. No bound admits most. -/
def Loosens (b c : Option Nat) : Prop := ∀ e ∈ c, ∃ d ∈ b, d ≤ e

/-- A looser bound is a greater depth, where depths are words. -/
theorem getD_unbounded_le {b c : Option Nat} (hword : ∀ d ∈ b, d ≤ unbounded) (h : Loosens b c) :
    b.getD unbounded ≤ c.getD unbounded := by
  cases c with
  | none =>
    cases b with
    | none => exact Nat.le_refl _
    | some d => exact hword d rfl
  | some e =>
    obtain ⟨d, hd, hle⟩ := h e rfl
    obtain rfl : b = some d := hd
    exact hle

end CallGraph

namespace Impact

open CallGraph Coverage

variable {g g' : CallGraph} {tests further changed impacted impacted' : List Method}
  {config config' : Config.Analysis} {depth depth' : Nat} {m t : Method}

/-! ## Searches that leave nothing out -/

/-- No search of the graph is cut off where no depth is given. -/
structure NeverTruncated (g : CallGraph) : Prop where
  search : ∀ seeds, FindsAll g seeds (g.transitiveCallers seeds unbounded)
  allCallers : ∀ m, FindsAll g [m] (allCallers g m)
  relatedTests : ∀ tests m t,
    t ∈ relatedTests g tests none m ↔ t ∈ tests ∧ Relation.TransGen g.Invokes t m
  /-- A method has a gap if a test is demanded of it and none calls it, however far. -/
  gaps : ∀ tests changed impacted m, m ∈ (analyze g tests none changed impacted).1.map (·.method) ↔
    Demands tests changed impacted m ∧ ¬∃ t ∈ tests, Relation.TransGen g.Invokes t m

/-- The methods with gaps. -/
theorem mem_gap_methods {bound : Option Nat} :
    m ∈ (analyze g tests bound changed impacted).1.map (·.method) ↔
      Demands tests changed impacted m ∧ ¬Covered g tests (some (bound.getD unbounded)) m := by
  rw [List.mem_map]
  constructor
  · rintro ⟨gap, hgap, rfl⟩
    exact (mem_gaps.1 hgap).1
  · intro hm
    exact ⟨gapOf g m, mem_gaps.2 ⟨hm, rfl⟩, rfl⟩

theorem neverTruncated (hnumbered : g.Numbered) : NeverTruncated g where
  search := findsAll_of_saturated hnumbered
  allCallers := by
    intro m
    have hfinds := findsAll_of_saturated hnumbered [m]
    refine ⟨?_, (ascending_sortedSet _).nodup⟩
    intro x
    rw [allCallers, mem_sortedSet]
    exact hfinds.mem_iff x
  relatedTests := by
    intro tests m t
    rw [mem_relatedTests, calls_getD_unbounded fun _ => hnumbered, calls_none_iff_transGen]
  gaps := by
    intro tests changed impacted m
    rw [mem_gap_methods, covered_getD_unbounded fun _ => hnumbered]
    simp only [Covered, calls_none_iff_transGen]

/-- A search whose depth is not less than the number of vertices finds all callers of the seeds, and
so does every search without a depth, as vertices are numbered by words. -/
theorem deep_search_exact (g : CallGraph) :
    (∀ depth, g.methods.length ≤ depth → ∀ seeds,
      FindsAll g seeds (g.transitiveCallers seeds depth)) ∧
    (g.Numbered → NeverTruncated g) :=
  ⟨fun _ hsize seeds => findsAll_of_saturated hsize seeds, neverTruncated⟩

/-- Three methods that call each other in a ring. -/
def ring : CallGraph :=
  .ofEdges []
    [(⟨"Ring", "first"⟩, ⟨"Ring", "second"⟩), (⟨"Ring", "second"⟩, ⟨"Ring", "third"⟩),
      (⟨"Ring", "third"⟩, ⟨"Ring", "first"⟩)]

/-- A method of the ring calls itself through three calls, as many as there are methods, and through
no fewer. -/
theorem deep_search_exact_ring :
    (ring.methods.length ≤ 3 ∧
      FindsAll ring [⟨"Ring", "first"⟩] (ring.transitiveCallers [⟨"Ring", "first"⟩] 3) ∧
      ⟨"Ring", "first"⟩ ∈ ring.transitiveCallers [⟨"Ring", "first"⟩] 3 ∧
      ⟨"Ring", "first"⟩ ∉ ring.transitiveCallers [⟨"Ring", "first"⟩] 2) ∧
    ring.Numbered ∧ NeverTruncated ring := by
  have hsize : ring.methods.length ≤ 3 := by decide +kernel
  have hnumbered : ring.Numbered := by decide +kernel
  refine ⟨⟨hsize, ?_, by decide +kernel, by decide +kernel⟩, hnumbered, ?_⟩
  · exact (deep_search_exact ring).1 3 hsize _
  · exact (deep_search_exact ring).2 hnumbered

/-! ## Searches that find more -/

/-- The second result has all that the first one has. -/
structure Grows (a b : Result) : Prop where
  impacted : a.impacted ⊆ b.impacted
  tests : ∀ owner name, a.tests.Lists owner name → b.tests.Lists owner name

/-- A deeper search in a graph with more edges finds more. -/
theorem grows_impact (hsub : g.edges ⊆ g'.edges) (hdepth : config.maxDepth ≤ config'.maxDepth) :
    Grows (impact g tests config changed) (impact g' tests config' changed) where
  impacted := by
    intro t ht
    obtain ⟨m, hm, hcalls⟩ := mem_impacted.1 ht
    exact mem_impacted.2 ⟨m, hm, (hcalls.of_subset hsub).widen hdepth⟩
  tests := by
    intro owner name hlists
    obtain ⟨htest, m, hm, hcalls⟩ := lists_impact.1 hlists
    refine lists_impact.2 ⟨htest, m, hm, ?_⟩
    rcases hcalls with hdirect | hcalls
    · exact .inl (hdirect.of_subset hsub)
    · exact .inr ((hcalls.of_subset hsub).widen hdepth)

theorem demands_mono (himpacted : impacted ⊆ impacted') (h : Demands tests changed impacted m) :
    Demands tests changed impacted' m :=
  ⟨h.1.imp_right fun hm => himpacted hm, h.2⟩

/-- With fewer tests, no method is business that was not. -/
theorem isBusiness_anti (htests : tests ⊆ further) (h : isBusiness further m = true) :
    isBusiness tests m = true := by
  unfold isBusiness at h ⊢
  simp only [Bool.and_eq_true, Bool.not_eq_true', ← Bool.not_eq_true, List.contains_iff_mem] at h ⊢
  obtain ⟨⟨⟨⟨hnoTest, hminted⟩, hframework⟩, hutility⟩, haccessor⟩ := h
  exact ⟨⟨⟨⟨fun hm => hnoTest (htests hm), hminted⟩, hframework⟩, hutility⟩, haccessor⟩

theorem covered_mono (htests : tests ⊆ further) (hdepth : depth ≤ depth')
    (h : Covered g tests (some depth) m) : Covered g further (some depth') m := by
  obtain ⟨t, ht, hcalls⟩ := h
  exact ⟨t, htests ht, hcalls.widen hdepth⟩

instance : Std.Antisymm Gap.Precedes := ⟨fun _ _ hab hba => absurd hba hab.asymm⟩

/-- More impacted methods keep the gaps, in their order. -/
theorem gaps_sublist {bound : Option Nat} (himpacted : impacted ⊆ impacted') :
    (analyze g tests bound changed impacted).1.Sublist
      (analyze g tests bound changed impacted').1 := by
  have hsubset : (analyze g tests bound changed impacted).1 ⊆
      (analyze g tests bound changed impacted').1 := by
    intro gap hgap
    obtain ⟨⟨hdemands, huncovered⟩, heq⟩ := mem_gaps.1 hgap
    exact mem_gaps.2 ⟨⟨demands_mono himpacted hdemands, huncovered⟩, heq⟩
  have hordered := gaps_ordered g tests bound changed impacted
  refine List.sublist_of_subperm_of_pairwise ?_ hordered
    (gaps_ordered g tests bound changed impacted')
  exact List.subperm_of_subset (nodup_of_precedes hordered) hsubset

/-- More tests and a looser bound on the search for them make no gap. -/
theorem no_new_gap {bound bound' : Option Nat} (htests : tests ⊆ further)
    (hdepth : bound.getD unbounded ≤ bound'.getD unbounded)
    (h : m ∈ (analyze g further bound' changed impacted).1.map (·.method)) :
    m ∈ (analyze g tests bound changed impacted).1.map (·.method) := by
  obtain ⟨⟨hmem, hbusiness⟩, huncovered⟩ := mem_gap_methods.1 h
  refine mem_gap_methods.2 ⟨⟨hmem, isBusiness_anti htests hbusiness⟩, ?_⟩
  intro hcovered
  exact huncovered (covered_mono htests hdepth hcovered)

/-- Reports are monotone. More calls and a greater depth add methods and tests. A greater depth
keeps all gaps. More tests and a looser bound on the search for them make no gap; bounds are words
of 32 bits. -/
theorem report_monotone (methods : List Method) (edges more : List (Method × Method))
    (tests further changed : List Method) (config config' : Config.Analysis) :
    (edges ⊆ more → config.maxDepth ≤ config'.maxDepth →
      Grows (impact (.ofEdges methods edges) tests config changed)
        (impact (.ofEdges methods more) tests config' changed)) ∧
    (config.maxDepth ≤ config'.maxDepth → config'.gapSearchDepth = config.gapSearchDepth →
      (report (.ofEdges methods edges) tests config changed).gaps.Sublist
        (report (.ofEdges methods edges) tests config' changed).gaps) ∧
    ((∀ d ∈ config.gapSearchDepth, d ≤ unbounded) → tests ⊆ further →
      config'.maxDepth = config.maxDepth → Loosens config.gapSearchDepth config'.gapSearchDepth →
      ∀ m, m ∉ (report (.ofEdges methods edges) tests config changed).gaps.map (·.method) →
        m ∉ (report (.ofEdges methods edges) further config' changed).gaps.map (·.method)) := by
  refine ⟨?_, ?_, ?_⟩
  · intro hsub hdepth
    exact grows_impact (edges_ofEdges_subset hsub) hdepth
  · intro hdepth hbound
    rw [gaps_report, gaps_report, hbound]
    exact gaps_sublist (grows_impact (List.Subset.refl _) hdepth).impacted
  · intro hword htests hdepth hloosens m hnone hgap
    rw [gaps_report] at hnone hgap
    -- the impacted methods hang neither on the tests nor on the bound
    have himpacted : (impact (.ofEdges methods edges) further config' changed).impacted =
        (impact (.ofEdges methods edges) tests config changed).impacted := by
      show sortedSet (transitiveCallers _ _ _) = sortedSet (transitiveCallers _ _ _)
      rw [hdepth]
    rw [himpacted] at hgap
    exact hnone (no_new_gap htests (getD_unbounded_le hword hloosens) hgap)

/-- A sale that a test calls, and what it calls in turn. -/
def saleCalls : List (Method × Method) :=
  [(⟨"SaleTest", "testSell"⟩, ⟨"Sale", "sell"⟩), (⟨"Web", "order"⟩, ⟨"Sale", "sell"⟩),
    (⟨"Sale", "sell"⟩, ⟨"Sale", "price"⟩), (⟨"Sale", "price"⟩, ⟨"Sale", "tax"⟩)]

/-- A second test calls the price. -/
def moreSaleCalls : List (Method × Method) :=
  saleCalls ++ [(⟨"PriceTest", "testPrice"⟩, ⟨"Sale", "price"⟩)]

/-- The first test. -/
def saleTests : List Method := [⟨"SaleTest", "testSell"⟩]

/-- Both tests. -/
def moreSaleTests : List Method := [⟨"SaleTest", "testSell"⟩, ⟨"PriceTest", "testPrice"⟩]

/-- The two ends of the calls among the methods of the sale. -/
def saleChanged : List Method := [⟨"Sale", "sell"⟩, ⟨"Sale", "tax"⟩]

/-- Every search follows one call. -/
def nearConfig : Config.Analysis :=
  { (default : Config.Analysis) with maxDepth := 1, gapSearchDepth := some 1 }

/-- Three calls are followed from the change. -/
def farConfig : Config.Analysis := { nearConfig with maxDepth := 3 }

/-- All calls are followed in search of tests. -/
def looseConfig : Config.Analysis := { nearConfig with gapSearchDepth := none }

/-- From one call to three, the search finds the test that sells, and the gap of `tax` stays. `sell`
has no gap, since its test calls it directly, and gets none from a further test and a farther
search. -/
theorem report_monotone_sale :
    (saleCalls ⊆ moreSaleCalls ∧ nearConfig.maxDepth ≤ farConfig.maxDepth ∧
      Grows (impact (.ofEdges [] saleCalls) saleTests nearConfig [⟨"Sale", "tax"⟩])
        (impact (.ofEdges [] moreSaleCalls) saleTests farConfig [⟨"Sale", "tax"⟩]) ∧
      (impact (.ofEdges [] saleCalls) saleTests nearConfig [⟨"Sale", "tax"⟩]).tests = [] ∧
      (impact (.ofEdges [] moreSaleCalls) saleTests farConfig [⟨"Sale", "tax"⟩]).tests =
        [("SaleTest", ["testSell"])]) ∧
    (farConfig.gapSearchDepth = nearConfig.gapSearchDepth ∧
      gapOf (.ofEdges [] saleCalls) ⟨"Sale", "tax"⟩ ∈
        (report (.ofEdges [] saleCalls) saleTests nearConfig saleChanged).gaps ∧
      gapOf (.ofEdges [] saleCalls) ⟨"Sale", "tax"⟩ ∈
        (report (.ofEdges [] saleCalls) saleTests farConfig saleChanged).gaps) ∧
    (∀ d ∈ nearConfig.gapSearchDepth, d ≤ unbounded) ∧ saleTests ⊆ moreSaleTests ∧
      looseConfig.maxDepth = nearConfig.maxDepth ∧
      Loosens nearConfig.gapSearchDepth looseConfig.gapSearchDepth ∧
      ⟨"Sale", "sell"⟩ ∉
        (report (.ofEdges [] saleCalls) saleTests nearConfig saleChanged).gaps.map (·.method) ∧
      ⟨"Sale", "sell"⟩ ∉
        (report (.ofEdges [] saleCalls) moreSaleTests looseConfig saleChanged).gaps.map
          (·.method) := by
  have hcalls : saleCalls ⊆ moreSaleCalls := List.subset_append_left _ _
  have hdepth : nearConfig.maxDepth ≤ farConfig.maxDepth := by decide
  have hword : ∀ d ∈ nearConfig.gapSearchDepth, d ≤ unbounded := by decide
  have htests : saleTests ⊆ moreSaleTests := by decide
  have hloosens : Loosens nearConfig.gapSearchDepth looseConfig.gapSearchDepth := by
    rintro e ⟨⟩
  have hgap : gapOf (.ofEdges [] saleCalls) ⟨"Sale", "tax"⟩ ∈
      (report (.ofEdges [] saleCalls) saleTests nearConfig saleChanged).gaps := by
    refine mem_gaps.2 ⟨mem_untestedOf_iff.1 ?_, rfl⟩
    decide +kernel
  have hcovered : ⟨"Sale", "sell"⟩ ∉
      (report (.ofEdges [] saleCalls) saleTests nearConfig saleChanged).gaps.map (·.method) := by
    rw [gaps_report, mem_gap_methods, ← mem_untestedOf_iff]
    decide +kernel
  refine ⟨⟨hcalls, hdepth, ?_, ?_, ?_⟩, ⟨rfl, hgap, ?_⟩, hword, htests, rfl, hloosens, hcovered, ?_⟩
  · exact (report_monotone [] saleCalls moreSaleCalls saleTests [] _ nearConfig farConfig).1 hcalls
      hdepth
  · decide +kernel
  · decide +kernel
  · exact ((report_monotone [] saleCalls [] saleTests [] _ nearConfig farConfig).2.1
      hdepth rfl).subset hgap
  · exact (report_monotone [] saleCalls [] saleTests moreSaleTests _ nearConfig looseConfig).2.2
      hword htests rfl hloosens _ hcovered

end Impact

end ChangeImpact
