import ChangeImpact.Proofs.ImpactedTests

/-!
# Laws of an analysis

* `SearchesEqually`, `SearchesFarther` — how far the search from a change for its callers looks, and
  the search from a method for its tests;
* `searches_agree` — the two find the same tests where they look equally far, and a change that has
  nothing but gaps has no tests;
* `ByOwner.union` — the union of two groupings, owner by owner; `groupByOwner_append` — what it is
  for two lists of methods;
* `Unites`, `report_union` — the report on two changes together is their reports united.
-/

namespace ChangeImpact.Impact

open CallGraph Coverage

variable {g : CallGraph} {tests changed first second both : List Method} {config : Config.Analysis}
  {owner name : String} {t : Method}

theorem gaps_report (g : CallGraph) (tests : List Method) (config : Config.Analysis)
    (changed : List Method) :
    (report g tests config changed).gaps =
      (analyze g tests config.gapSearchDepth changed (impact g tests config changed).impacted).1 :=
  rfl

theorem result_report (g : CallGraph) (tests : List Method) (config : Config.Analysis)
    (changed : List Method) :
    (report g tests config changed).result = impact g tests config changed :=
  rfl

/-! ## Two searches for tests -/

/-- Both searches look equally far: to one depth, or as far as there is anything to find. -/
def SearchesEqually (g : CallGraph) (config : Config.Analysis) : Prop :=
  config.gapSearchDepth = some config.maxDepth ∧ 1 ≤ config.maxDepth ∨
    config.gapSearchDepth = none ∧ g.methods.length ≤ config.maxDepth

/-- The search for tests looks as far as the search for callers, or farther. -/
def SearchesFarther (config : Config.Analysis) : Prop :=
  config.gapSearchDepth = none ∨
    ∃ depth, config.gapSearchDepth = some depth ∧ 1 ≤ config.maxDepth ∧ config.maxDepth ≤ depth

/-- A depth that is not less than the number of vertices is enough to find all who exercise a
change. -/
theorem exercises_of_saturated {depth : Nat} (hsize : g.methods.length ≤ depth) :
    Exercises g depth changed t ↔ ∃ m ∈ changed, g.Calls none t m := by
  unfold Exercises
  refine exists_congr fun m => and_congr_right fun _ => ?_
  rw [calls_of_saturated hsize]
  apply or_iff_right_of_imp
  intro hcalls
  exact hcalls.mono (by simp)

/-- Where both look equally far, a method exercises the change if the search for tests from a
changed method comes to it. -/
theorem exercises_iff_searched (hword : config.maxDepth ≤ unbounded)
    (hequally : SearchesEqually g config) :
    Exercises g config.maxDepth changed t ↔
      ∃ m ∈ changed, g.Calls (some (config.gapSearchDepth.getD unbounded)) t m := by
  rcases hequally with ⟨hsame, hdepth⟩ | ⟨hnone, hsize⟩
  · rw [hsame]
    exact exercises_iff hdepth
  · rw [hnone, exercises_of_saturated hsize]
    have hunbounded : g.methods.length ≤ unbounded := Nat.le_trans hsize hword
    simp only [Option.getD_none, calls_of_saturated hunbounded]

/-- What exercises a change is found by the search for tests if that looks as far. -/
theorem Exercises.searched (hword : config.maxDepth ≤ unbounded) (hfarther : SearchesFarther config)
    (h : Exercises g config.maxDepth changed t) :
    ∃ m ∈ changed, g.Calls (some (config.gapSearchDepth.getD unbounded)) t m := by
  have hbounds : 1 ≤ config.gapSearchDepth.getD unbounded ∧
      config.maxDepth ≤ config.gapSearchDepth.getD unbounded := by
    rcases hfarther with hnone | ⟨depth, hsome, hone, hle⟩
    · rw [hnone]
      exact ⟨by decide, hword⟩
    · rw [hsome]
      exact ⟨Nat.le_trans hone hle, hle⟩
  obtain ⟨m, hm, hcalls | hcalls⟩ := h
  · exact ⟨m, hm, hcalls.widen hbounds.1⟩
  · exact ⟨m, hm, hcalls.widen hbounds.2⟩

/-- The two searches agree on the tests of a change. If they look equally far, the listed tests are
those that are found from its methods one by one. If every method of the change has a gap, no test
is listed. Depths are words of 32 bits. -/
theorem searches_agree (g : CallGraph) (tests : List Method) (config : Config.Analysis)
    (changed : List Method) (hword : config.maxDepth ≤ unbounded) :
    (SearchesEqually g config → ∀ owner name,
      (impact g tests config changed).tests.Lists owner name ↔
        ∃ m ∈ changed, ⟨owner, name⟩ ∈ relatedTests g tests config.gapSearchDepth m) ∧
    (SearchesFarther config →
      (∀ m ∈ changed, ∃ gap ∈ (report g tests config changed).gaps, gap.method = m) →
        (report g tests config changed).result.tests = []) := by
  constructor
  · intro hequally owner name
    rw [lists_impact, exercises_iff_searched hword hequally]
    simp only [mem_relatedTests]
    constructor
    · rintro ⟨htest, m, hm, hcalls⟩
      exact ⟨m, hm, htest, hcalls⟩
    · rintro ⟨m, hm, htest, hcalls⟩
      exact ⟨htest, m, hm, hcalls⟩
  · intro hfarther hgaps
    rw [result_report]
    refine (tidy_groupByOwner _).eq_nil fun owner name hlists => ?_
    obtain ⟨htest, hexercises⟩ := lists_impact.1 hlists
    -- the test that is listed covers a method of the change, which then has no gap
    obtain ⟨m, hm, hcalls⟩ := hexercises.searched hword hfarther
    obtain ⟨gap, hgap, rfl⟩ := hgaps m hm
    rw [gaps_report] at hgap
    exact (mem_gaps.1 hgap).1.2 ⟨_, htest, hcalls⟩

/-- As many calls are followed as the ledger has vertices, and all of them in search of tests. -/
def ledgerConfig : Config.Analysis := { (default : Config.Analysis) with maxDepth := 7 }

/-- The methods of the ledger that no test calls. -/
def ledgerUntested : List Method := [⟨"Book", "audit"⟩, ⟨"Book", "close"⟩]

/-- The test of the ledger is listed for `carry`, which it calls through `post`. No test is listed
for the methods with gaps. -/
theorem searches_agree_ledger :
    ledgerConfig.maxDepth ≤ unbounded ∧
    (SearchesEqually ledger ledgerConfig ∧
      (impact ledger ledgerTests ledgerConfig [⟨"Book", "carry"⟩]).tests.Lists
        "BookTest" "testBook") ∧
    SearchesFarther ledgerConfig ∧
      (∀ m ∈ ledgerUntested,
        ∃ gap ∈ (report ledger ledgerTests ledgerConfig ledgerUntested).gaps, gap.method = m) ∧
      (report ledger ledgerTests ledgerConfig ledgerUntested).result.tests = [] := by
  have hword : ledgerConfig.maxDepth ≤ unbounded := by decide
  have hequally : SearchesEqually ledger ledgerConfig := .inr ⟨rfl, by decide +kernel⟩
  have hfarther : SearchesFarther ledgerConfig := .inl rfl
  have huntested : ∀ m ∈ ledgerUntested,
      m ∈ untestedOf ledger ledgerTests ledgerConfig.gapSearchDepth ledgerUntested
        (impact ledger ledgerTests ledgerConfig ledgerUntested).impacted := by
    decide +kernel
  have hgaps : ∀ m ∈ ledgerUntested,
      ∃ gap ∈ (report ledger ledgerTests ledgerConfig ledgerUntested).gaps, gap.method = m := by
    intro m hm
    exact ⟨gapOf ledger m, mem_gaps.2 ⟨mem_untestedOf_iff.1 (huntested m hm), rfl⟩, rfl⟩
  refine ⟨hword, ⟨hequally, ?_⟩, hfarther, hgaps, ?_⟩
  · refine ((searches_agree ledger ledgerTests ledgerConfig _ hword).1 hequally _ _).2 ?_
    exact ⟨⟨"Book", "carry"⟩, List.mem_cons_self, by decide +kernel⟩
  · exact (searches_agree ledger ledgerTests ledgerConfig _ hword).2 hfarther hgaps

/-! ## Two changes together -/

/-- The union of two groupings, owner by owner. -/
def ByOwner.union (a b : ByOwner) : ByOwner :=
  (sortedSet ((a ++ b).map (·.1))).map fun owner =>
    (owner, sortedSet (((a ++ b).filter (·.1 == owner)).flatMap (·.2)))

theorem lists_append {a b : ByOwner} :
    ByOwner.Lists (a ++ b) owner name ↔ a.Lists owner name ∨ b.Lists owner name := by
  unfold ByOwner.Lists
  simp only [List.mem_append, or_and_right, exists_or]

theorem mem_names_iff_lists {a : ByOwner} :
    name ∈ (a.filter (·.1 == owner)).flatMap (·.2) ↔ a.Lists owner name := by
  unfold ByOwner.Lists
  simp only [List.mem_flatMap, List.mem_filter, beq_iff_eq, Prod.exists]
  constructor
  · rintro ⟨_, names, ⟨hentry, rfl⟩, hname⟩
    exact ⟨names, hentry, hname⟩
  · rintro ⟨names, hentry, hname⟩
    exact ⟨owner, names, ⟨hentry, rfl⟩, hname⟩

/-- Grouping two lists together is uniting their groupings. -/
theorem groupByOwner_append (ms ns : List Method) :
    groupByOwner (ms ++ ns) = (groupByOwner ms).union (groupByOwner ns) := by
  unfold ByOwner.union
  have howners : sortedSet ((ms ++ ns).map (·.owner)) =
      sortedSet ((groupByOwner ms ++ groupByOwner ns).map (·.1)) := by
    refine sortedSet_congr fun owner => ?_
    simp only [List.map_append, List.mem_append, map_owner_groupByOwner, mem_sortedSet]
  rw [← howners]
  refine List.map_congr_left fun owner _ => ?_
  rw [Prod.mk.injEq]
  refine ⟨rfl, sortedSet_congr fun name => ?_⟩
  rw [mem_names_iff_lists, lists_append, lists_groupByOwner, lists_groupByOwner, ← List.mem_append,
    ← mem_names_of_owner, mem_sortedSet]

/-- The report on two changes is united from the reports on each. -/
structure Unites (a b r : Report) : Prop where
  impacted : r.result.impacted = sortedSet (a.result.impacted ++ b.result.impacted)
  tests : r.result.tests = a.result.tests.union b.result.tests
  /-- The same gaps, as whole records. -/
  gaps : ∀ gap, gap ∈ r.gaps ↔ gap ∈ a.gaps ∨ gap ∈ b.gaps
  nodup : r.gaps.Nodup

/-- What is said of some method of two changes together is said of some method of one of them. -/
theorem exists_mem_union (hboth : ∀ m, m ∈ both ↔ m ∈ first ∨ m ∈ second) {p : Method → Prop} :
    (∃ m ∈ both, p m) ↔ (∃ m ∈ first, p m) ∨ ∃ m ∈ second, p m := by
  simp only [hboth, or_and_right, exists_or]

theorem mem_impacted_union (hboth : ∀ m, m ∈ both ↔ m ∈ first ∨ m ∈ second) :
    t ∈ (impact g tests config both).impacted ↔
      t ∈ (impact g tests config first).impacted ∨ t ∈ (impact g tests config second).impacted := by
  simp only [mem_impacted]
  exact exists_mem_union hboth

/-- An analysis of two changes together finds what the analyses of each find: methods, tests and
gaps. -/
theorem report_union (g : CallGraph) (tests : List Method) (config : Config.Analysis)
    {first second both : List Method} (hboth : ∀ m, m ∈ both ↔ m ∈ first ∨ m ∈ second) :
    Unites (report g tests config first) (report g tests config second)
      (report g tests config both) where
  impacted := by
    show sortedSet (g.transitiveCallers both config.maxDepth) = _
    refine sortedSet_congr fun t => ?_
    rw [mem_transitiveCallers_iff_calls, List.mem_append, result_report, result_report,
      mem_impacted, mem_impacted]
    exact exists_mem_union hboth
  tests := by
    -- grouped together, the tests of the two changes are the tests of both
    simp only [result_report, tests_impact]
    rw [← groupByOwner_append]
    refine groupByOwner_congr fun t => ?_
    rw [List.mem_append]
    simp only [mem_concernedTests]
    rw [← and_or_left]
    exact and_congr_right fun _ => exists_mem_union hboth
  gaps := by
    intro gap
    -- a gap says nothing of the change that it belongs to, only whether it does
    simp only [gaps_report, mem_gaps]
    have hdemands : Demands tests both (impact g tests config both).impacted gap.method ↔
        Demands tests first (impact g tests config first).impacted gap.method ∨
          Demands tests second (impact g tests config second).impacted gap.method := by
      unfold Demands
      rw [mem_impacted_union hboth, hboth, ← or_and_right, or_or_or_comm]
    rw [hdemands, or_and_right, or_and_right]
  nodup := nodup_of_precedes (gaps_ordered _ _ _ _ _)

/-- A lift whose stop calls the one door directly and the other through its ride. -/
def lift : CallGraph :=
  .ofEdges []
    [(⟨"Lift", "ride"⟩, ⟨"Lift", "open"⟩), (⟨"Lift", "stop"⟩, ⟨"Lift", "ride"⟩),
      (⟨"Lift", "stop"⟩, ⟨"Lift", "shut"⟩), (⟨"Lift", "call"⟩, ⟨"Lift", "stop"⟩),
      (⟨"LiftTest", "testStop"⟩, ⟨"Lift", "stop"⟩)]

/-- The test of the lift. -/
def liftTests : List Method := [⟨"LiftTest", "testStop"⟩]

/-- Two calls are followed. -/
def liftConfig : Config.Analysis := { (default : Config.Analysis) with maxDepth := 2 }

/-- `stop` is two calls away from `open` and one from `shut`. The search from both goes on from it,
as the search from `shut` does, and comes to its callers. -/
theorem report_union_lift :
    (∀ m, m ∈ [⟨"Lift", "shut"⟩, ⟨"Lift", "open"⟩] ↔
      m ∈ [(⟨"Lift", "open"⟩ : Method)] ∨ m ∈ [(⟨"Lift", "shut"⟩ : Method)]) ∧
    (report lift liftTests liftConfig [⟨"Lift", "open"⟩]).result.impacted =
      [⟨"Lift", "ride"⟩, ⟨"Lift", "stop"⟩] ∧
    (report lift liftTests liftConfig [⟨"Lift", "shut"⟩]).result.impacted =
      [⟨"Lift", "call"⟩, ⟨"Lift", "stop"⟩, ⟨"LiftTest", "testStop"⟩] ∧
    Unites (report lift liftTests liftConfig [⟨"Lift", "open"⟩])
      (report lift liftTests liftConfig [⟨"Lift", "shut"⟩])
      (report lift liftTests liftConfig [⟨"Lift", "shut"⟩, ⟨"Lift", "open"⟩]) := by
  have hboth : ∀ m, m ∈ [⟨"Lift", "shut"⟩, ⟨"Lift", "open"⟩] ↔
      m ∈ [(⟨"Lift", "open"⟩ : Method)] ∨ m ∈ [(⟨"Lift", "shut"⟩ : Method)] := by
    intro m
    simp [or_comm]
  refine ⟨hboth, ?_, ?_, report_union lift liftTests liftConfig hboth⟩
  · rw [result_report]
    decide +kernel
  · rw [result_report]
    decide +kernel

end ChangeImpact.Impact
