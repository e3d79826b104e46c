import ChangeImpact.Proofs.UnitGraph

/-!
# Graph and counts of a build are exact

A build names all declarations of a unit first and resolves their calls afterwards. Its outcome is
said here once for all units, whatever names are written in them.

* `sum_countStrategies`, `mem_countStrategies` — the counts of the rules;
* `countCalls` — how many calls of a unit are resolved in some way;
* `build_exact` — vertices, edges and counts of a build.
-/

namespace ChangeImpact

namespace Build

/-! ## Counts of rules -/

theorem mem_countStrategies {l : List Resolution.Strategy} {s : Resolution.Strategy} {n : Nat} :
    (s, n) ∈ countStrategies l ↔ n = l.count s ∧ n ≠ 0 := by
  have hall : s ∈ Resolution.Strategy.all := by cases s <;> decide
  rw [countStrategies, List.mem_filter, List.mem_map]
  constructor
  · rintro ⟨⟨s', -, heq⟩, hne⟩
    obtain ⟨rfl, rfl⟩ := Prod.mk.inj heq
    exact ⟨rfl, by simpa using hne⟩
  · rintro ⟨rfl, hne⟩
    exact ⟨⟨s, hall, rfl⟩, by simpa using hne⟩

/-- Counts of 0 may be left out of a sum. -/
theorem sum_filter_ne_zero {α : Type} (l : List (α × Nat)) :
    ((l.filter (·.2 ≠ 0)).map (·.2)).sum = (l.map (·.2)).sum := by
  induction l with
  | nil => rfl
  | cons entry l ih =>
    by_cases hzero : entry.2 = 0
    · rw [List.filter_cons_of_neg (by simpa using hzero), ih, List.map_cons, List.sum_cons, hzero,
        Nat.zero_add]
    · rw [List.filter_cons_of_pos (by simpa using hzero), List.map_cons, List.sum_cons, ih,
        List.map_cons, List.sum_cons]

/-- Every resolved call is counted under one rule. -/
theorem sum_countStrategies (l : List Resolution.Strategy) :
    ((countStrategies l).map (·.2)).sum = l.length := by
  rw [countStrategies, sum_filter_ne_zero]
  induction l with
  | nil => rfl
  | cons s l ih =>
    simp only [Resolution.Strategy.all, List.map_cons, List.map_nil, List.sum_cons, List.sum_nil,
      List.length_cons] at ih ⊢
    cases s <;> simp <;> omega

/-! ## Counts of calls -/

/-- The index of all ordinary declarations of a unit. -/
def ordinaryIndex (files : List SourceFacts) : Resolution.Index :=
  .ofList (((sites files).filter (·.declaration.kind = .method)).map (·.declaration.ownMethod))

/-- How many calls of a unit are resolved in a way, each seen from the owner of its vertex. -/
def countCalls (files : List SourceFacts)
    (p : Option (Method × Resolution.Strategy) → Bool) : Nat :=
  ((sites files).map fun x => x.declaration.targets.countP fun target =>
    p ((ordinaryIndex files).resolve target (vertexOf (sites files) x).owner)).sum

theorem countCalls_eq (files : List SourceFacts)
    (p : Option (Method × Resolution.Strategy) → Bool) :
    countCalls files p = (meanings files).countP p := by
  have hindex : ordinaryIndex files = known files := (known_eq files).symm
  rw [countCalls, meanings, List.countP_flatMap, hindex]
  simp only [Function.comp_def, List.countP_map]

/-- A call has a meaning by some rule, or none. -/
theorem length_meanings (files : List SourceFacts) :
    ((meanings files).filterMap fun r => r.map (·.2)).length +
      (meanings files).countP (·.isNone) = countCalls files fun _ => true := by
  rw [countCalls_eq, List.countP_true]
  induction meanings files with
  | nil => rfl
  | cons r rs ih =>
    cases r <;> simp <;> omega

theorem count_strategy_meanings (files : List SourceFacts) (s : Resolution.Strategy) :
    ((meanings files).filterMap fun r => r.map (·.2)).count s =
      countCalls files fun r => r.any (·.2 = s) := by
  rw [countCalls_eq]
  induction meanings files with
  | nil => rfl
  | cons r rs ih =>
    cases r with
    | none => simpa using ih
    | some found =>
      simp only [List.filterMap_cons, Option.map_some, List.count_cons, List.countP_cons, ih,
        Option.any_some, decide_eq_true_eq, beq_iff_eq]

/-! ## All of a build -/

/-- What a build makes of a unit. -/
structure ExactBuild (u : SourceUnit) : Prop where
  /-- The vertices are those of the declarations. -/
  vertices : IsFirstOccurrences ((sites u.files).map (vertexOf (sites u.files)))
    u.build.graph.methods
  edges_nodup : u.build.graph.edges.Nodup
  /-- An edge for every call that is resolved among all ordinary declarations, seen from the owner
  of the calling vertex. -/
  edges : ∀ a b, (a, b) ∈ u.build.graph.edges ↔
    ∃ x ∈ sites u.files, vertexOf (sites u.files) x = a ∧ ∃ target ∈ x.declaration.targets,
      ∃ s, (ordinaryIndex u.files).resolve target a.owner = some (b, s)
  /-- What is called is the vertex of an ordinary declaration. -/
  callees : ∀ a b, (a, b) ∈ u.build.graph.edges →
    ∃ y ∈ sites u.files, y.declaration.kind = .method ∧ vertexOf (sites u.files) y = b
  /-- Each rule that resolved a call has the number of its calls. -/
  strategies : ∀ s n, (s, n) ∈ u.build.stats.resolved ↔
    n = countCalls u.files (fun r => r.any (·.2 = s)) ∧ n ≠ 0
  unresolved : u.build.stats.unresolved = countCalls u.files (·.isNone)
  /-- Every call is counted under one rule or as unresolved. -/
  allCalls : u.build.stats.resolvedCalls + u.build.stats.unresolved =
    ((sites u.files).map (·.declaration.targets.length)).sum
  totalEdges : u.build.stats.totalEdges = u.build.graph.edges.length ∧
    u.build.stats.totalEdges ≤ u.build.stats.resolvedCalls

theorem resolvedCalls_eq (u : SourceUnit) :
    u.build.stats.resolvedCalls = ((meanings u.files).filterMap fun r => r.map (·.2)).length := by
  have hsum (s : BuildStats) : s.resolvedCalls = (s.resolved.map (·.2)).sum := List.foldr_map.symm
  rw [hsum, resolved_eq, sum_countStrategies]

theorem totalEdges_le (u : SourceUnit) :
    u.build.stats.totalEdges ≤ u.build.stats.resolvedCalls := by
  have htotal : u.build.stats.totalEdges = u.build.graph.edges.length := rfl
  rw [htotal, edges_eq, resolvedCalls_eq, ← map_meaning_calls, List.filterMap_map]
  refine Nat.le_trans (length_firstOccurrences_le _) ?_
  rw [List.length_map, List.length_filterMap_eq_countP, List.length_filterMap_eq_countP]
  refine Nat.le_of_eq (List.countP_congr fun c _ => ?_)
  simp [Call.linkOf]

/-- The graph of every unit holds its declarations and their resolved calls and nothing else, and
the counts are those of its calls. -/
theorem build_exact (u : SourceUnit) : ExactBuild u where
  vertices := by
    rw [methods_eq]
    exact isFirstOccurrences _
  edges_nodup := u.build.graph.edges_nodup
  edges := by
    intro a b
    have hindex : ordinaryIndex u.files = known u.files := (known_eq u.files).symm
    rw [mem_edges_iff, hindex]
    simp only [Option.map_eq_some_iff, Prod.exists, exists_eq_right, exists_and_right]
  callees := by
    intro a b hedge
    obtain ⟨x, hx, rfl, target, -, hresolve⟩ := mem_edges_iff.1 hedge
    obtain ⟨r, hr, rfl⟩ := Option.map_eq_some_iff.1 hresolve
    obtain ⟨y, hy, hkind, hown⟩ := mem_ordinary_of_resolve hr
    exact ⟨y, hy, hkind, by rw [vertexOf, hkind]; exact hown⟩
  strategies := by
    intro s n
    rw [resolved_eq, mem_countStrategies, count_strategy_meanings]
  unresolved := by rw [unresolved_eq, countCalls_eq]
  allCalls := by
    have hlength : ((sites u.files).map (·.declaration.targets.length)).sum =
        countCalls u.files fun _ => true := by simp [countCalls]
    rw [hlength, resolvedCalls_eq, unresolved_eq, length_meanings]
  totalEdges := ⟨rfl, totalEdges_le u⟩

end Build

end ChangeImpact
