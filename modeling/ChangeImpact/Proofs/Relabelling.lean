import ChangeImpact.Impact.Analysis
import ChangeImpact.Proofs.AscendingLists
import ChangeImpact.Proofs.Callers
import Mathlib.Data.Set.Function

/-!
# Minted names do not matter

Two graphs that differ in the minted names only give the same report: the same tests, the same
counts, and gaps that differ in nothing but the minted names among their callers.

* `CallGraph.Relabels` — a one-to-one renaming of vertices that keeps edges and ordinary methods;
* `CallGraph.Relabels.Carries` — two lists of methods that correspond under it; callers do;
* `Coverage.Gap.Summary` — what of a gap does not hang on minted names;
* `Impact.Corresponds` — graphs, tests and changes that differ in minted names only; `tests_eq`,
  `stats_eq`, `gaps_eq` — what their reports have in common.
-/

namespace ChangeImpact

instance : Std.TransOrd Method :=
  inferInstanceAs (Std.TransCmp (compareLex (compareOn Method.owner) (compareOn Method.name)))

namespace CallGraph

variable {σ : Method → Method} {g g' : CallGraph}

/-! ## Relabelled graphs -/

/-- A one-to-one renaming of the vertices that keeps the edges. Minted names stay minted, and all
other names stay what they are. -/
structure Relabels (σ : Method → Method) (g g' : CallGraph) : Prop where
  methods : Set.BijOn σ {m | m ∈ g.methods} {m | m ∈ g'.methods}
  edges : ∀ a ∈ g.methods, ∀ b ∈ g.methods, (σ a, σ b) ∈ g'.edges ↔ (a, b) ∈ g.edges
  fixes : ∀ m, m.isSynthetic = false → σ m = m
  minted : ∀ m ∈ g.methods, m.isSynthetic = true → (σ m).isSynthetic = true

/-- Lists of vertices that correspond. -/
structure Relabels.Carries (σ : Method → Method) (g g' : CallGraph) (l l' : List Method) :
    Prop where
  source : ∀ m ∈ l, m ∈ g.methods
  target : ∀ m ∈ l', m ∈ g'.methods
  mem_iff : ∀ m ∈ g.methods, σ m ∈ l' ↔ m ∈ l

namespace Relabels

/-- A vertex with an ordinary name comes from itself. -/
theorem ordinary_of_image (h : Relabels σ g g') {m a : Method} (ha : a ∈ g.methods) (heq : σ a = m)
    (hm : m.isSynthetic = false) : a = m := by
  cases hs : a.isSynthetic with
  | true =>
    have hminted := h.minted a ha hs
    rw [heq, hm] at hminted
    cases hminted
  | false => rw [← heq, h.fixes a hs]

/-- The edges are renamed with their ends. -/
theorem edges_bijOn (h : Relabels σ g g') :
    Set.BijOn (Prod.map σ σ) {e | e ∈ g.edges} {e | e ∈ g'.edges} := by
  refine ⟨?_, ?_, ?_⟩
  · rintro ⟨a, b⟩ hedge
    obtain ⟨ha, hb⟩ := g.ends_mem _ hedge
    exact (h.edges a ha b hb).2 hedge
  · rintro ⟨a, b⟩ hedge ⟨c, d⟩ hedge' heq
    obtain ⟨ha, hb⟩ := g.ends_mem _ hedge
    obtain ⟨hc, hd⟩ := g.ends_mem _ hedge'
    obtain ⟨hac, hbd⟩ := Prod.mk.inj heq
    rw [Prod.mk.injEq]
    exact ⟨h.methods.injOn ha hc hac, h.methods.injOn hb hd hbd⟩
  · rintro ⟨a', b'⟩ hedge
    obtain ⟨ha', hb'⟩ := g'.ends_mem _ hedge
    obtain ⟨a, ha, rfl⟩ := h.methods.surjOn ha'
    obtain ⟨b, hb, rfl⟩ := h.methods.surjOn hb'
    exact ⟨(a, b), (h.edges a ha b hb).1 hedge, rfl⟩

variable {l l' : List Method}

theorem Carries.bijOn (hl : Carries σ g g' l l') (h : Relabels σ g g') :
    Set.BijOn σ {m | m ∈ l} {m | m ∈ l'} := by
  refine ⟨?_, ?_, ?_⟩
  · intro m hm
    exact (hl.mem_iff m (hl.source m hm)).2 hm
  · exact h.methods.injOn.mono fun m hm => hl.source m hm
  · intro m hm
    obtain ⟨a, ha, rfl⟩ := h.methods.surjOn (hl.target m hm)
    exact ⟨a, (hl.mem_iff a ha).1 hm, rfl⟩

/-- Ordinary methods are in the one list if they are in the other. -/
theorem Carries.ordinary (hl : Carries σ g g' l l') (h : Relabels σ g g') {m : Method}
    (hm : m.isSynthetic = false) : m ∈ l' ↔ m ∈ l := by
  constructor
  · intro hmem
    obtain ⟨a, ha, heq⟩ := h.methods.surjOn (hl.target m hmem)
    obtain rfl := h.ordinary_of_image ha heq hm
    rw [← heq] at hmem
    exact (hl.mem_iff a ha).1 hmem
  · intro hmem
    have himage := (hl.mem_iff m (hl.source m hmem)).2 hmem
    rwa [h.fixes m hm] at himage

theorem Carries.length_eq (hl : Carries σ g g' l l') (h : Relabels σ g g') (hnodup : l.Nodup)
    (hnodup' : l'.Nodup) : l'.length = l.length := by
  have hmap : (l.map σ).Nodup := by
    refine List.Nodup.map_on ?_ hnodup
    intro a ha b hb heq
    exact h.methods.injOn (hl.source a ha) (hl.source b hb) heq
  have hperm : l'.Perm (l.map σ) := by
    refine (List.perm_ext_iff_of_nodup hnodup' hmap).2 ?_
    intro m
    rw [List.mem_map]
    constructor
    · intro hm
      exact (hl.bijOn h).surjOn hm
    · rintro ⟨a, ha, rfl⟩
      exact (hl.bijOn h).mapsTo ha
  rw [hperm.length_eq, List.length_map]

theorem Carries.sortedSet (hl : Carries σ g g' l l') :
    Carries σ g g' (sortedSet l) (sortedSet l') where
  source := fun m hm => hl.source m (mem_sortedSet.1 hm)
  target := fun m hm => hl.target m (mem_sortedSet.1 hm)
  mem_iff := fun m hm => by rw [mem_sortedSet, mem_sortedSet, hl.mem_iff m hm]

end Relabels

theorem Chain.eq_of_zero {a b : Method} (h : g.Chain 0 a b) : a = b := by
  cases h
  rfl

namespace Relabels

variable {l l' : List Method}

/-- Chains run alike. -/
theorem chain_iff (h : Relabels σ g g') {k : Nat} {a b : Method} (ha : a ∈ g.methods)
    (hb : b ∈ g.methods) : g'.Chain k (σ a) (σ b) ↔ g.Chain k a b := by
  induction k generalizing a with
  | zero =>
    constructor
    · intro hchain
      rw [h.methods.injOn ha hb hchain.eq_of_zero]
      exact .refl b
    · intro hchain
      cases hchain
      exact .refl _
  | succ k ih =>
    constructor
    · intro hchain
      cases hchain with
      | step hedge hrest =>
        -- the vertex in between has a name in the first graph as well
        obtain ⟨c, hc, rfl⟩ := h.methods.surjOn (g'.ends_mem _ hedge).2
        exact .step ((h.edges a ha c hc).1 hedge) ((ih hc).1 hrest)
    · intro hchain
      cases hchain with
      | @step _ _ c _ hedge hrest =>
        have hc : c ∈ g.methods := (g.ends_mem _ hedge).2
        exact .step ((h.edges a ha c hc).2 hedge) ((ih hc).2 hrest)

/-- Callers of corresponding methods correspond. -/
theorem Carries.transitiveCallers (hl : Carries σ g g' l l') (h : Relabels σ g g') (depth : Nat) :
    Carries σ g g' (g.transitiveCallers l depth) (g'.transitiveCallers l' depth) := by
  have hvertex : ∀ {g : CallGraph} {l : List Method}, ∀ m ∈ g.transitiveCallers l depth,
      m ∈ g.methods := by
    intro g l m hm
    obtain ⟨s, -, k, hk, -, hchain⟩ := mem_transitiveCallers.1 hm
    obtain ⟨k, rfl⟩ : ∃ j, k = j + 1 := ⟨k - 1, by omega⟩
    exact hchain.start_mem
  refine ⟨hvertex, hvertex, ?_⟩
  intro m hm
  rw [mem_transitiveCallers, mem_transitiveCallers]
  constructor
  · rintro ⟨s', hs', k, hk, hdepth, hchain⟩
    obtain ⟨s, hs, rfl⟩ := (hl.bijOn h).surjOn hs'
    exact ⟨s, hs, k, hk, hdepth, (h.chain_iff hm (hl.source s hs)).1 hchain⟩
  · rintro ⟨s, hs, k, hk, hdepth, hchain⟩
    refine ⟨σ s, (hl.bijOn h).mapsTo hs, k, hk, hdepth, ?_⟩
    exact (h.chain_iff hm (hl.source s hs)).2 hchain

end Relabels

theorem mem_callers {c m : Method} : c ∈ g.callers m ↔ (c, m) ∈ g.edges := by
  unfold callers callees
  simp only [List.mem_map, List.mem_filter, beq_iff_eq]
  constructor
  · rintro ⟨⟨a, b⟩, ⟨hedge, rfl⟩, rfl⟩
    exact mem_edges_reverse.1 hedge
  · intro hedge
    exact ⟨(m, c), ⟨mem_edges_reverse.2 hedge, rfl⟩, rfl⟩

/-- The direct callers of a vertex. -/
theorem Relabels.callers (h : Relabels σ g g') {m : Method} (hm : m ∈ g.methods) :
    Relabels.Carries σ g g' (g.callers m) (g'.callers (σ m)) where
  source := fun _ hc => (g.ends_mem _ (mem_callers.1 hc)).1
  target := fun _ hc => (g'.ends_mem _ (mem_callers.1 hc)).1
  mem_iff := fun c hc => by rw [mem_callers, mem_callers, h.edges c hc m hm]

end CallGraph

/-! ## Gaps -/

namespace Coverage

/-- What of a gap does not hang on minted names: its callers are only counted. -/
structure Gap.Summary where
  method : Method
  riskLevel : RiskLevel
  riskScore : Nat
  callers : Nat
  reason : String
deriving DecidableEq, Repr

/-- The summary of a gap. -/
def Gap.summary (g : Gap) : Gap.Summary :=
  ⟨g.method, g.riskLevel, g.riskScore, g.callers.length, g.reason⟩

/-- The order of gaps, by their summaries. -/
def Gap.Summary.before (a b : Gap.Summary) : Bool :=
  match compare b.riskLevel.rank a.riskLevel.rank with
  | .lt => true
  | .gt => false
  | .eq =>
    match compare b.callers a.callers with
    | .lt => true
    | .gt => false
    | .eq => (compare a.method b.method).isLE

/-- Gaps are put in order by what their summaries say. -/
theorem summary_mergeSort (gaps : List Gap) :
    (gaps.mergeSort Gap.before).map Gap.summary =
      (gaps.map Gap.summary).mergeSort Gap.Summary.before :=
  List.map_mergeSort fun _ _ _ _ => rfl

/-- What is counted of gaps can be counted of their summaries. -/
theorem countP_riskLevel (gaps : List Gap) (level : RiskLevel) :
    gaps.countP (·.riskLevel = level) = (gaps.map Gap.summary).countP (·.riskLevel = level) := by
  rw [List.countP_map]
  rfl

theorem isSynthetic_of_isBusiness {tests : List Method} {m : Method}
    (h : isBusiness tests m = true) : m.isSynthetic = false := by
  unfold isBusiness at h
  simp only [Bool.and_eq_true, Bool.not_eq_true'] at h
  exact h.1.1.1.2

end Coverage

/-! ## Reports -/

namespace Impact

open CallGraph CallGraph.Relabels Coverage

/-- Two graphs, tests and changes that differ in minted names only. -/
structure Corresponds (σ : Method → Method) (g g' : CallGraph) (tests tests' : List Method)
    (changed changed' : List Method) : Prop where
  graph : Relabels σ g g'
  mem_tests : ∀ m, m ∈ tests' ↔ m ∈ tests
  ordinary : ∀ m ∈ tests, m.isSynthetic = false
  changes : Carries σ g g' changed changed'

variable {σ : Method → Method} {g g' : CallGraph} {tests tests' changed changed' : List Method}
  {config : Config.Analysis} {m : Method}

theorem Corresponds.contains_tests (h : Corresponds σ g g' tests tests' changed changed')
    (m : Method) : tests'.contains m = tests.contains m := by
  rw [Bool.eq_iff_iff, List.contains_iff_mem, List.contains_iff_mem, h.mem_tests]

/-- The impacted methods correspond. -/
theorem Corresponds.impacted (h : Corresponds σ g g' tests tests' changed changed')
    (config : Config.Analysis) :
    Carries σ g g' (impact g tests config changed).impacted
      (impact g' tests' config changed').impacted :=
  (h.changes.transitiveCallers h.graph config.maxDepth).sortedSet

/-- An ordinary method calls a changed method in the one graph if it does in the other. -/
theorem Corresponds.calls_changed (h : Corresponds σ g g' tests tests' changed changed')
    (hm : m.isSynthetic = false) :
    m ∈ changed'.flatMap g'.callers ↔ m ∈ changed.flatMap g.callers := by
  rw [List.mem_flatMap, List.mem_flatMap]
  constructor
  · rintro ⟨c', hc', hcaller⟩
    obtain ⟨c, hc, rfl⟩ := (h.changes.bijOn h.graph).surjOn hc'
    have hcarries := h.graph.callers (h.changes.source c hc)
    exact ⟨c, hc, (hcarries.ordinary h.graph hm).1 hcaller⟩
  · rintro ⟨c, hc, hcaller⟩
    have hcarries := h.graph.callers (h.changes.source c hc)
    exact ⟨σ c, (h.changes.bijOn h.graph).mapsTo hc, (hcarries.ordinary h.graph hm).2 hcaller⟩

theorem groupByOwner_congr {l l' : List Method} (h : ∀ m, m ∈ l' ↔ m ∈ l) :
    groupByOwner l' = groupByOwner l := by
  have hnames : ∀ owner, sortedSet ((l'.filter (·.owner == owner)).map (·.name)) =
      sortedSet ((l.filter (·.owner == owner)).map (·.name)) := by
    intro owner
    refine sortedSet_congr fun name => ?_
    simp only [List.mem_map, List.mem_filter, h]
  have howners : sortedSet (l'.map (·.owner)) = sortedSet (l.map (·.owner)) := by
    refine sortedSet_congr fun owner => ?_
    simp only [List.mem_map, h]
  unfold groupByOwner
  rw [howners]
  exact List.map_congr_left fun owner _ => by rw [hnames]

/-- The impacted tests are the same. -/
theorem Corresponds.tests_eq (h : Corresponds σ g g' tests tests' changed changed') :
    (impact g' tests' config changed').tests = (impact g tests config changed).tests := by
  refine groupByOwner_congr fun m => ?_
  rw [List.mem_filter, List.mem_filter, h.contains_tests]
  refine and_congr_left fun htest => ?_
  have hm := h.ordinary m (List.contains_iff_mem.1 htest)
  rw [List.mem_append, List.mem_append, h.calls_changed hm]
  exact or_congr_left ((h.impacted config).ordinary h.graph hm)

/-- The business methods of a change. -/
def businessOf (tests changed impacted : List Method) : List Method :=
  sortedSet ((changed ++ impacted).filter (isBusiness tests))

/-- The business methods of a change that no test reaches. -/
def untestedOf (g : CallGraph) (tests : List Method) (depth : Option Nat)
    (changed impacted : List Method) : List Method :=
  (businessOf tests changed impacted).filter fun m => (relatedTests g tests depth m).isEmpty

variable {impacted impacted' : List Method} {depth : Option Nat}

/-- The business methods are the same. -/
theorem Corresponds.business_eq (h : Corresponds σ g g' tests tests' changed changed')
    (himpacted : Carries σ g g' impacted impacted') :
    businessOf tests' changed' impacted' = businessOf tests changed impacted := by
  have hbusiness : ∀ m, isBusiness tests' m = isBusiness tests m := by
    intro m
    unfold isBusiness
    rw [h.contains_tests]
  refine sortedSet_congr fun m => ?_
  rw [List.mem_filter, List.mem_filter, hbusiness, List.mem_append, List.mem_append]
  refine and_congr_left fun hm => ?_
  have hordinary := isSynthetic_of_isBusiness hm
  exact or_congr (h.changes.ordinary h.graph hordinary) (himpacted.ordinary h.graph hordinary)

/-- A business method is reached by tests in the one graph if it is in the other. -/
theorem Corresponds.relatedTests_isEmpty (h : Corresponds σ g g' tests tests' changed changed')
    (depth : Option Nat) (hm : m ∈ g.methods) (hordinary : m.isSynthetic = false) :
    (relatedTests g' tests' depth m).isEmpty = (relatedTests g tests depth m).isEmpty := by
  have hseed : Carries σ g g' [m] [m] := by
    have hfix := h.graph.fixes m hordinary
    refine ⟨?_, ?_, ?_⟩
    · intro x hx
      obtain rfl := List.mem_singleton.1 hx
      exact hm
    · intro x hx
      obtain rfl := List.mem_singleton.1 hx
      exact hfix ▸ h.graph.methods.mapsTo hm
    · intro x hx
      rw [List.mem_singleton, List.mem_singleton]
      constructor
      · intro heq
        exact h.graph.ordinary_of_image hx heq hordinary
      · rintro rfl
        exact hfix
  have hcallers := hseed.transitiveCallers h.graph (depth.getD CallGraph.unbounded)
  rw [Bool.eq_iff_iff, List.isEmpty_iff, List.isEmpty_iff, List.eq_nil_iff_forall_not_mem,
    List.eq_nil_iff_forall_not_mem]
  refine forall_congr' fun x => not_congr ?_
  unfold relatedTests
  rw [List.mem_filter, List.mem_filter, h.contains_tests]
  refine and_congr_left fun htest => ?_
  exact hcallers.ordinary h.graph (h.ordinary x (List.contains_iff_mem.1 htest))

/-- The gap of an ordinary method, its callers counted. -/
theorem Corresponds.summary_gapOf (h : Corresponds σ g g' tests tests' changed changed')
    (hm : m ∈ g.methods) (hordinary : m.isSynthetic = false) :
    (gapOf g' m).summary = (gapOf g m).summary := by
  have hcallers := h.graph.callers hm
  rw [h.graph.fixes m hordinary] at hcallers
  have hlength : (sortedSet (g'.callers m)).length = (sortedSet (g.callers m)).length :=
    hcallers.sortedSet.length_eq h.graph (ascending_sortedSet _).nodup (ascending_sortedSet _).nodup
  unfold gapOf Gap.summary
  simp only [hlength]

theorem mem_businessOf (h : Corresponds σ g g' tests tests' changed changed')
    (himpacted : Carries σ g g' impacted impacted') (hm : m ∈ businessOf tests changed impacted) :
    m ∈ g.methods ∧ m.isSynthetic = false := by
  obtain ⟨hmem, hbusiness⟩ := List.mem_filter.1 (mem_sortedSet.1 hm)
  refine ⟨?_, isSynthetic_of_isBusiness hbusiness⟩
  rcases List.mem_append.1 hmem with hmem | hmem
  · exact h.changes.source m hmem
  · exact himpacted.source m hmem

/-- The untested methods are the same. -/
theorem Corresponds.untested_eq (h : Corresponds σ g g' tests tests' changed changed')
    (himpacted : Carries σ g g' impacted impacted') :
    untestedOf g' tests' depth changed' impacted' = untestedOf g tests depth changed impacted := by
  unfold untestedOf
  rw [h.business_eq himpacted]
  refine List.filter_congr fun m hm => ?_
  obtain ⟨hvertex, hordinary⟩ := mem_businessOf h himpacted hm
  exact h.relatedTests_isEmpty depth hvertex hordinary

theorem analyze_gaps_eq (g : CallGraph) (tests : List Method) (depth : Option Nat)
    (changed impacted : List Method) :
    (analyze g tests depth changed impacted).1 =
      ((untestedOf g tests depth changed impacted).map (gapOf g)).mergeSort Gap.before := by
  unfold analyze untestedOf businessOf
  simp only [List.partition_eq_filter_filter]

/-- The gaps are the same, their callers counted. -/
theorem Corresponds.gaps_eq (h : Corresponds σ g g' tests tests' changed changed')
    (himpacted : Carries σ g g' impacted impacted') :
    (analyze g' tests' depth changed' impacted').1.map Gap.summary =
      (analyze g tests depth changed impacted).1.map Gap.summary := by
  rw [analyze_gaps_eq, analyze_gaps_eq, summary_mergeSort, summary_mergeSort,
    h.untested_eq himpacted, List.map_map, List.map_map]
  congr 1
  refine List.map_congr_left fun m hm => ?_
  obtain ⟨hvertex, hordinary⟩ := mem_businessOf h himpacted (List.mem_filter.1 hm).1
  exact h.summary_gapOf hvertex hordinary

/-- The counts of a change, by its business methods, the untested ones and the summaries of gaps. -/
theorem analyze_stats_eq (g : CallGraph) (tests : List Method) (depth : Option Nat)
    (changed impacted : List Method) :
    (analyze g tests depth changed impacted).2 =
      { business := (businessOf tests changed impacted).length
        covered := (businessOf tests changed impacted).length -
          (untestedOf g tests depth changed impacted).length
        highGaps := ((analyze g tests depth changed impacted).1.map Gap.summary).countP
          (·.riskLevel = .high)
        mediumGaps := ((analyze g tests depth changed impacted).1.map Gap.summary).countP
          (·.riskLevel = .medium)
        lowGaps := ((analyze g tests depth changed impacted).1.map Gap.summary).countP
          (·.riskLevel = .low) } := by
  rw [← countP_riskLevel, ← countP_riskLevel, ← countP_riskLevel]
  -- every business method is either untested or covered
  have hsplit := List.length_eq_length_filter_add (l := businessOf tests changed impacted)
    fun m => (relatedTests g tests depth m).isEmpty
  unfold analyze
  simp only [List.partition_eq_filter_filter, Stats.mk.injEq, and_true]
  refine ⟨rfl, ?_⟩
  unfold untestedOf
  have hcovered : ((businessOf tests changed impacted).filter
      (not ∘ fun m => (relatedTests g tests depth m).isEmpty)).length =
      (businessOf tests changed impacted).length -
        ((businessOf tests changed impacted).filter
          fun m => (relatedTests g tests depth m).isEmpty).length := by
    simp only [Function.comp_def]
    omega
  exact hcovered

/-- The counts are the same. -/
theorem Corresponds.stats_eq (h : Corresponds σ g g' tests tests' changed changed')
    (himpacted : Carries σ g g' impacted impacted') :
    (analyze g' tests' depth changed' impacted').2 =
      (analyze g tests depth changed impacted).2 := by
  rw [analyze_stats_eq, analyze_stats_eq, h.gaps_eq himpacted, h.untested_eq himpacted,
    h.business_eq himpacted]

end Impact

end ChangeImpact
