import ChangeImpact.Proofs.CoverageExactness

/-!
# The tests that a change reaches

Tests come from the search for callers and from the direct callers of the changed methods, and are
listed by owner.

* `ByOwner.Lists`, `ByOwner.Tidy` — what a grouping lists, and its form; `lists_groupByOwner`,
  `tidy_groupByOwner` — what becomes of a list of methods;
* `ByOwner.Tidy.testCount_eq` — a grouping counts every method once;
* `Exercises`, `mem_concernedTests` — the tests that belong to a change;
* `ExactTests`, `impacted_tests_exact` — all that is said of tests.
-/

namespace ChangeImpact.Impact

open CallGraph

/-! ## Groupings -/

/-- The grouping lists the name under the owner. -/
def ByOwner.Lists (tests : ByOwner) (owner name : String) : Prop :=
  ∃ names, (owner, names) ∈ tests ∧ name ∈ names

/-- The owners ascend, and the names of each; no owner is there for nothing. -/
structure ByOwner.Tidy (tests : ByOwner) : Prop where
  owners : Ascending (tests.map (·.1))
  names : ∀ entry ∈ tests, Ascending entry.2
  inhabited : ∀ entry ∈ tests, entry.2 ≠ []

/-- The methods that a grouping lists. -/
def ByOwner.methods (tests : ByOwner) : List Method :=
  tests.flatMap fun entry => entry.2.map (Method.mk entry.1)

variable {ms : List Method} {grouped : ByOwner} {owner name : String} {m : Method}

/-- The names under an owner of a grouping. -/
theorem mem_groupByOwner {names : List String} :
    (owner, names) ∈ groupByOwner ms ↔ (∃ m ∈ ms, m.owner = owner) ∧
      sortedSet ((ms.filter (·.owner == owner)).map (·.name)) = names := by
  unfold groupByOwner
  simp only [List.mem_map, mem_sortedSet, Prod.mk.injEq]
  constructor
  · rintro ⟨_, howner, rfl, hnames⟩
    exact ⟨howner, hnames⟩
  · rintro ⟨howner, hnames⟩
    exact ⟨owner, howner, rfl, hnames⟩

theorem map_owner_groupByOwner (ms : List Method) :
    (groupByOwner ms).map (·.1) = sortedSet (ms.map (·.owner)) := by
  unfold groupByOwner
  rw [List.map_map]
  exact List.map_id _

theorem mem_names_of_owner :
    name ∈ sortedSet ((ms.filter (·.owner == owner)).map (·.name)) ↔ ⟨owner, name⟩ ∈ ms := by
  rw [mem_sortedSet, List.mem_map]
  constructor
  · rintro ⟨m, hm, rfl⟩
    obtain ⟨hmem, howner⟩ := List.mem_filter.1 hm
    rw [← beq_iff_eq.1 howner]
    exact hmem
  · intro hmem
    exact ⟨⟨owner, name⟩, List.mem_filter.2 ⟨hmem, beq_self_eq_true owner⟩, rfl⟩

/-- A grouping lists the methods that it was made of. -/
theorem lists_groupByOwner : (groupByOwner ms).Lists owner name ↔ ⟨owner, name⟩ ∈ ms := by
  constructor
  · rintro ⟨names, hentry, hname⟩
    rw [← (mem_groupByOwner.1 hentry).2] at hname
    exact mem_names_of_owner.1 hname
  · intro hmem
    exact ⟨_, mem_groupByOwner.2 ⟨⟨_, hmem, rfl⟩, rfl⟩, mem_names_of_owner.2 hmem⟩

theorem tidy_groupByOwner (ms : List Method) : (groupByOwner ms).Tidy where
  owners := by
    rw [map_owner_groupByOwner]
    exact ascending_sortedSet _
  names := by
    rintro ⟨owner, names⟩ hentry
    obtain ⟨-, rfl⟩ := mem_groupByOwner.1 hentry
    exact ascending_sortedSet _
  inhabited := by
    rintro ⟨owner, names⟩ hentry
    obtain ⟨⟨m, hm, rfl⟩, rfl⟩ := mem_groupByOwner.1 hentry
    exact List.ne_nil_of_mem (mem_names_of_owner.2 hm)

/-- A grouping that lists nothing is empty. -/
theorem ByOwner.Tidy.eq_nil (h : grouped.Tidy) (hnone : ∀ owner name, ¬grouped.Lists owner name) :
    grouped = [] := by
  cases grouped with
  | nil => rfl
  | cons entry grouped =>
    obtain ⟨name, hname⟩ := List.exists_mem_of_ne_nil _ (h.inhabited entry List.mem_cons_self)
    exact absurd ⟨entry.2, List.mem_cons_self, hname⟩ (hnone entry.1 name)

theorem mem_methods_iff : m ∈ grouped.methods ↔ grouped.Lists m.owner m.name := by
  unfold ByOwner.methods ByOwner.Lists
  rw [List.mem_flatMap]
  constructor
  · rintro ⟨⟨owner, names⟩, hentry, hm⟩
    obtain ⟨name, hname, rfl⟩ := List.mem_map.1 hm
    exact ⟨names, hentry, hname⟩
  · rintro ⟨names, hentry, hname⟩
    exact ⟨(m.owner, names), hentry, List.mem_map.2 ⟨m.name, hname, rfl⟩⟩

theorem testCount_eq_length (grouped : ByOwner) : testCount grouped = grouped.methods.length := by
  unfold testCount ByOwner.methods
  induction grouped with
  | nil => rfl
  | cons entry grouped ih =>
    rw [List.foldr_cons, ih, List.flatMap_cons, List.length_append, List.length_map]

/-- Different owners have different methods, and an owner names none twice. -/
theorem ByOwner.Tidy.nodup_methods (h : grouped.Tidy) : grouped.methods.Nodup := by
  unfold ByOwner.methods
  refine List.nodup_flatMap.2 ⟨?_, ?_⟩
  · intro entry hentry
    refine (h.names entry hentry).nodup.map ?_
    intro name name' heq
    exact (Method.mk.inj heq).2
  · refine (List.pairwise_map.1 h.owners.nodup).imp ?_
    intro entry entry' hne m hm hm'
    obtain ⟨name, -, rfl⟩ := List.mem_map.1 hm
    obtain ⟨name', -, heq⟩ := List.mem_map.1 hm'
    exact hne (Method.mk.inj heq).1.symm

/-- A grouping counts every method that it lists, and each once. -/
theorem ByOwner.Tidy.testCount_eq (h : grouped.Tidy) :
    testCount grouped = {m : Method | grouped.Lists m.owner m.name}.ncard := by
  rw [testCount_eq_length]
  exact (ncard_of_nodup h.nodup_methods fun m => mem_methods_iff.symm).symm

/-! ## The tests of a change -/

/-- The method calls a changed one, directly or within the depth. -/
def Exercises (g : CallGraph) (depth : Nat) (changed : List Method) (t : Method) : Prop :=
  ∃ m ∈ changed, g.Calls (some 1) t m ∨ g.Calls (some depth) t m

variable {g : CallGraph} {tests changed : List Method} {config : Config.Analysis} {t : Method}

/-- The impacted methods are the callers of changed ones within the depth. -/
theorem mem_impacted :
    t ∈ (impact g tests config changed).impacted ↔
      ∃ m ∈ changed, g.Calls (some config.maxDepth) t m := by
  show t ∈ sortedSet _ ↔ _
  rw [mem_sortedSet, mem_transitiveCallers_iff_calls]

/-- Among the impacted methods and the direct callers, the tests are those that exercise the change.
-/
theorem mem_concernedTests :
    t ∈ ((impact g tests config changed).impacted ++ changed.flatMap g.callers).filter
        tests.contains ↔
      t ∈ tests ∧ Exercises g config.maxDepth changed t := by
  rw [List.mem_filter, List.mem_append, mem_impacted, List.mem_flatMap, List.contains_iff_mem,
    and_comm]
  refine and_congr_right fun _ => ?_
  unfold Exercises
  simp only [mem_callers, ← calls_one_iff]
  constructor
  · rintro (⟨m, hm, hcalls⟩ | ⟨m, hm, hcalls⟩)
    · exact ⟨m, hm, .inr hcalls⟩
    · exact ⟨m, hm, .inl hcalls⟩
  · rintro ⟨m, hm, hcalls | hcalls⟩
    · exact .inr ⟨m, hm, hcalls⟩
    · exact .inl ⟨m, hm, hcalls⟩

theorem tests_impact (g : CallGraph) (tests : List Method) (config : Config.Analysis)
    (changed : List Method) :
    (impact g tests config changed).tests =
      groupByOwner (((impact g tests config changed).impacted ++ changed.flatMap g.callers).filter
        tests.contains) :=
  rfl

/-- The tests that are listed are those that exercise the change. -/
theorem lists_impact :
    (impact g tests config changed).tests.Lists owner name ↔
      ⟨owner, name⟩ ∈ tests ∧ Exercises g config.maxDepth changed ⟨owner, name⟩ :=
  lists_groupByOwner.trans mem_concernedTests

/-- From depth 1 on, direct calls are within the depth. -/
theorem exercises_iff {depth : Nat} (hdepth : 1 ≤ depth) :
    Exercises g depth changed t ↔ ∃ m ∈ changed, g.Calls (some depth) t m := by
  unfold Exercises
  refine exists_congr fun m => and_congr_right fun _ => or_iff_right_of_imp ?_
  intro hcalls
  exact hcalls.widen hdepth

/-- The listed tests are right: all of them, no others, in form and in number. -/
structure ExactTests (g : CallGraph) (tests : List Method) (config : Config.Analysis)
    (changed : List Method) (result : Result) : Prop where
  lists : ∀ owner name, result.tests.Lists owner name ↔
    ⟨owner, name⟩ ∈ tests ∧ Exercises g config.maxDepth changed ⟨owner, name⟩
  /-- In particular no owner has an empty list. -/
  tidy : result.tests.Tidy
  count : testCount result.tests = {t | t ∈ tests ∧ Exercises g config.maxDepth changed t}.ncard
  /-- From depth 1 on, the direct callers add nothing to the impacted methods. -/
  direct : 1 ≤ config.maxDepth →
    result.tests = groupByOwner (result.impacted.filter tests.contains) ∧
      ∀ owner name, result.tests.Lists owner name → ⟨owner, name⟩ ∈ result.impacted

/-- The tests that an impact lists are exact, at every depth. -/
theorem impacted_tests_exact (g : CallGraph) (tests : List Method) (config : Config.Analysis)
    (changed : List Method) :
    ExactTests g tests config changed (impact g tests config changed) where
  lists := fun _ _ => lists_impact
  tidy := tidy_groupByOwner _
  count := by
    rw [tests_impact, (tidy_groupByOwner _).testCount_eq]
    congr 1
    ext t
    exact lists_impact
  direct := by
    intro hdepth
    constructor
    · rw [tests_impact]
      refine groupByOwner_congr fun t => ?_
      rw [mem_concernedTests, exercises_iff hdepth, List.mem_filter, mem_impacted,
        List.contains_iff_mem, and_comm (a := t ∈ tests)]
    · intro owner name hlists
      exact mem_impacted.2 ((exercises_iff hdepth).1 (lists_impact.1 hlists).2)

end ChangeImpact.Impact
