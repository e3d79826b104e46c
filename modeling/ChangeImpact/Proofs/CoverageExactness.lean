import ChangeImpact.Proofs.Relabelling
import ChangeImpact.Proofs.Saturation

/-!
# What a coverage analysis finds

The gaps of a change are compared with the calls that tests make. A method that the change demands a
test of is either called by a test or has one gap, and the gaps stand in the one order there is.

* `Gap.Precedes` — the order of gaps, most urgent first; `pairwise_precedes`, `eq_of_precedes` —
  sorted gaps are in it, and it leaves no choice;
* `Demands`, `Covered` — what a change asks for, and what tests provide;
* `mem_relatedTests`, `mem_gaps` — what the search for tests and the analysis find;
* `Assessed`, `coverage_exact` — all of an analysis: gaps, counts and order.
-/

namespace ChangeImpact.Coverage

open CallGraph
open Impact (businessOf untestedOf analyze_gaps_eq)

/-! ## The order of gaps -/

/-- The higher level first, then the one with more callers, then the lesser method. -/
def Gap.Precedes (a b : Gap) : Prop :=
  b.riskLevel.rank < a.riskLevel.rank ∨
    b.riskLevel.rank = a.riskLevel.rank ∧
      (b.callers.length < a.callers.length ∨
        b.callers.length = a.callers.length ∧ compare a.method b.method = .lt)

instance (a b : Gap) : Decidable (a.Precedes b) :=
  inferInstanceAs (Decidable (_ ∨ _ ∧ (_ ∨ _ ∧ _)))

/-- The comparison behind the order. -/
def Gap.order : Gap → Gap → Ordering :=
  compareLex (fun a b => compareOn (·.riskLevel.rank) b a)
    (compareLex (fun a b => compareOn (·.callers.length) b a) (compareOn Gap.method))

instance : Std.TransCmp Gap.order :=
  inferInstanceAs (Std.TransCmp (compareLex _ (compareLex _ _)))

variable {a b : Gap} {gaps others : List Gap}

theorem order_eq_lt_iff : Gap.order a b = .lt ↔ a.Precedes b := by
  simp only [Gap.order, compareLex, compareOn, Ordering.then_eq_lt, Nat.compare_eq_lt,
    Nat.compare_eq_eq, Gap.Precedes]

theorem method_eq_of_order (h : Gap.order a b = .eq) : a.method = b.method := by
  simp only [Gap.order, compareLex, compareOn, Ordering.then_eq_eq] at h
  exact Std.LawfulEqOrd.eq_of_compare h.2.2

/-- Gaps are sorted by the comparison. -/
theorem before_eq_order (a b : Gap) : a.before b = (Gap.order a b).isLE := by
  unfold Gap.before Gap.order
  simp only [compareLex, compareOn]
  cases compare b.riskLevel.rank a.riskLevel.rank with
  | lt => rfl
  | gt => rfl
  | eq => cases compare b.callers.length a.callers.length <;> rfl

theorem Gap.Precedes.irrefl (a : Gap) : ¬a.Precedes a := by
  have hself : Gap.order a a = .eq := Std.ReflCmp.compare_self
  rw [← order_eq_lt_iff, hself]
  simp

theorem Gap.Precedes.asymm (h : a.Precedes b) : ¬b.Precedes a := by
  intro h'
  rw [← order_eq_lt_iff] at h h'
  have hgt := Std.OrientedCmp.gt_iff_lt.2 h
  rw [h'] at hgt
  cases hgt

/-- Sorted gaps of different methods are in order. -/
theorem pairwise_precedes (hmethods : (gaps.map (·.method)).Nodup) :
    (gaps.mergeSort Gap.before).Pairwise Gap.Precedes := by
  have htrans : ∀ a b c : Gap, a.before b = true → b.before c = true → a.before c = true := by
    intro a b c
    simp only [before_eq_order]
    exact Std.TransCmp.isLE_trans
  have htotal : ∀ a b : Gap, (a.before b || b.before a) = true := by
    intro a b
    simp only [before_eq_order, Bool.or_eq_true]
    rw [← Std.OrientedCmp.isGE_eq_isLE (a := a)]
    cases Gap.order a b <;> simp
  have hsorted := List.pairwise_mergeSort htrans htotal gaps
  have hdistinct : ((gaps.mergeSort Gap.before).map (·.method)).Nodup :=
    ((List.mergeSort_perm gaps Gap.before).map _).nodup_iff.2 hmethods
  refine (hsorted.and (List.pairwise_map.1 hdistinct)).imp ?_
  rintro a b ⟨hbefore, hne⟩
  rw [before_eq_order, Ordering.isLE_iff_eq_lt_or_eq_eq] at hbefore
  -- gaps that compare equal are gaps of one method, of which there are no two
  rcases hbefore with hlt | heq
  · exact order_eq_lt_iff.1 hlt
  · exact absurd (method_eq_of_order heq) hne

theorem nodup_of_precedes (h : gaps.Pairwise Gap.Precedes) : gaps.Nodup := by
  refine h.imp ?_
  rintro a b hab rfl
  exact Gap.Precedes.irrefl a hab

/-- Gaps can be put in order in one way only. -/
theorem eq_of_precedes (hgaps : gaps.Pairwise Gap.Precedes) (hothers : others.Pairwise Gap.Precedes)
    (h : ∀ gap, gap ∈ others ↔ gap ∈ gaps) : others = gaps := by
  have hperm : others.Perm gaps :=
    (List.perm_ext_iff_of_nodup (nodup_of_precedes hothers) (nodup_of_precedes hgaps)).2 h
  -- the order is strict, so no two gaps can change places
  refine hperm.eq_of_pairwise ?_ hothers hgaps
  intro a b _ _ hab hba
  exact absurd hba hab.asymm

/-! ## Demand and coverage -/

/-- The change demands a test of the method: it is a business method, changed or impacted. -/
def Demands (tests changed impacted : List Method) (m : Method) : Prop :=
  (m ∈ changed ∨ m ∈ impacted) ∧ isBusiness tests m = true

/-- A test calls the method within the bound. -/
def Covered (g : CallGraph) (tests : List Method) (bound : Option Nat) (m : Method) : Prop :=
  ∃ t ∈ tests, g.Calls bound t m

variable {g : CallGraph} {tests changed impacted : List Method} {depth : Option Nat} {m t : Method}

/-- The search for tests finds the tests that call a method. -/
theorem mem_relatedTests :
    t ∈ relatedTests g tests depth m ↔ t ∈ tests ∧ g.Calls (some (depth.getD unbounded)) t m := by
  unfold relatedTests
  rw [List.mem_filter, mem_transitiveCallers_iff_calls, List.contains_iff_mem, and_comm]
  simp only [List.mem_singleton, exists_eq_left]

theorem relatedTests_isEmpty_iff :
    (relatedTests g tests depth m).isEmpty = true ↔
      ¬Covered g tests (some (depth.getD unbounded)) m := by
  rw [List.isEmpty_iff, List.eq_nil_iff_forall_not_mem]
  simp only [mem_relatedTests, Covered, not_exists]

theorem covered_getD_unbounded (hnumbered : depth = none → g.Numbered) :
    Covered g tests (some (depth.getD unbounded)) m ↔ Covered g tests depth m := by
  unfold Covered
  simp only [calls_getD_unbounded hnumbered]

theorem mem_businessOf_iff :
    m ∈ businessOf tests changed impacted ↔ Demands tests changed impacted m := by
  unfold businessOf Demands
  rw [mem_sortedSet, List.mem_filter, List.mem_append]

theorem mem_untestedOf_iff :
    m ∈ untestedOf g tests depth changed impacted ↔
      Demands tests changed impacted m ∧ ¬Covered g tests (some (depth.getD unbounded)) m := by
  unfold untestedOf
  rw [List.mem_filter, mem_businessOf_iff, relatedTests_isEmpty_iff]

theorem nodup_businessOf : (businessOf tests changed impacted).Nodup :=
  (ascending_sortedSet _).nodup

/-! ## Gaps -/

/-- The gaps of an analysis are those of the methods that demand a test and have none. -/
theorem mem_gaps {gap : Gap} :
    gap ∈ (analyze g tests depth changed impacted).1 ↔
      (Demands tests changed impacted gap.method ∧
        ¬Covered g tests (some (depth.getD unbounded)) gap.method) ∧ gap = gapOf g gap.method := by
  rw [analyze_gaps_eq, List.mem_mergeSort, List.mem_map]
  constructor
  · rintro ⟨m, hm, rfl⟩
    exact ⟨mem_untestedOf_iff.1 hm, rfl⟩
  · rintro ⟨hm, hgap⟩
    exact ⟨gap.method, mem_untestedOf_iff.2 hm, hgap.symm⟩

theorem map_method_gapOf (ms : List Method) : (ms.map (gapOf g)).map (·.method) = ms := by
  rw [List.map_map]
  exact List.map_id ms

/-- The gaps of an analysis are in order. -/
theorem gaps_ordered (g : CallGraph) (tests : List Method) (depth : Option Nat)
    (changed impacted : List Method) :
    (analyze g tests depth changed impacted).1.Pairwise Gap.Precedes := by
  rw [analyze_gaps_eq]
  apply pairwise_precedes
  rw [map_method_gapOf]
  exact nodup_businessOf.filter _

/-- A method has one gap at most. -/
theorem nodup_gap_methods :
    ((analyze g tests depth changed impacted).1.map (·.method)).Nodup := by
  rw [analyze_gaps_eq, ((List.mergeSort_perm _ _).map _).nodup_iff, map_method_gapOf]
  exact nodup_businessOf.filter _

/-- What a gap says of its method. -/
structure Gap.Assesses (g : CallGraph) (gap : Gap) : Prop where
  ascending : Ascending gap.callers
  callers : ∀ c, c ∈ gap.callers ↔ (c, gap.method) ∈ g.edges
  score : gap.riskScore = Coverage.riskScore gap.method gap.callers.length
  level : gap.riskLevel = .ofScore gap.riskScore
  reason : gap.reason = gapReason gap.method gap.callers.length

theorem assesses_gapOf (g : CallGraph) (m : Method) : (gapOf g m).Assesses g where
  ascending := ascending_sortedSet _
  callers := by
    intro c
    show c ∈ sortedSet (g.callers m) ↔ _
    rw [mem_sortedSet, mem_callers]
    rfl
  score := rfl
  level := rfl
  reason := rfl

/-! ## Counts -/

/-- Every gap has one of the three levels. -/
theorem countP_levels (gaps : List Gap) :
    gaps.countP (·.riskLevel = .high) + gaps.countP (·.riskLevel = .medium) +
      gaps.countP (·.riskLevel = .low) = gaps.length := by
  induction gaps with
  | nil => rfl
  | cons gap gaps ih =>
    simp only [List.countP_cons, List.length_cons]
    cases gap.riskLevel <;> simp <;> omega

theorem gapCount_eq_length :
    (analyze g tests depth changed impacted).2.gapCount =
      (analyze g tests depth changed impacted).1.length :=
  countP_levels _

theorem covered_eq :
    (analyze g tests depth changed impacted).2.covered =
      ((businessOf tests changed impacted).filter
        fun m => !(relatedTests g tests depth m).isEmpty).length := by
  unfold analyze businessOf
  simp only [List.partition_eq_filter_filter, Function.comp_def]

/-- Every business method is covered or has a gap. -/
theorem business_eq :
    (analyze g tests depth changed impacted).2.business =
      (analyze g tests depth changed impacted).2.covered +
        (analyze g tests depth changed impacted).2.gapCount := by
  rw [gapCount_eq_length, covered_eq, analyze_gaps_eq, List.length_mergeSort, List.length_map,
    Nat.add_comm]
  -- left are the business methods, split by whether a test is found
  exact List.length_eq_length_filter_add _

/-- An analysis that misses nothing and invents nothing. -/
structure Assessed (g : CallGraph) (tests : List Method) (depth : Option Nat)
    (changed impacted : List Method) (gaps : List Gap) (stats : Stats) : Prop where
  /-- There are gaps for the methods that demand a test and have none, and for no others. -/
  methods : ∀ m, m ∈ gaps.map (·.method) ↔
    Demands tests changed impacted m ∧ ¬Covered g tests depth m
  /-- A method has one gap at most. -/
  single : (gaps.map (·.method)).Nodup
  assesses : ∀ gap ∈ gaps, gap.Assesses g
  business : stats.business = {m | Demands tests changed impacted m}.ncard
  covered : stats.covered = {m | Demands tests changed impacted m ∧ Covered g tests depth m}.ncard
  high : stats.highGaps = gaps.countP (·.riskLevel = .high)
  medium : stats.mediumGaps = gaps.countP (·.riskLevel = .medium)
  low : stats.lowGaps = gaps.countP (·.riskLevel = .low)
  balance : stats.business = stats.covered + stats.gapCount
  gapCount : stats.gapCount = gaps.length
  ordered : gaps.Pairwise Gap.Precedes
  /-- There is no other arrangement of the same gaps in order. -/
  unique : ∀ others : List Gap, others.Pairwise Gap.Precedes → (∀ gap, gap ∈ others ↔ gap ∈ gaps) →
    others = gaps

/-- The analysis of coverage is exact, to any depth and without one. -/
theorem coverage_exact (g : CallGraph) (tests : List Method) (depth : Option Nat)
    (changed impacted : List Method) (hnumbered : depth = none → g.Numbered) :
    Assessed g tests depth changed impacted (analyze g tests depth changed impacted).1
      (analyze g tests depth changed impacted).2 where
  methods := by
    intro m
    rw [List.mem_map, ← covered_getD_unbounded hnumbered]
    constructor
    · rintro ⟨gap, hgap, rfl⟩
      exact (mem_gaps.1 hgap).1
    · intro hm
      exact ⟨gapOf g m, mem_gaps.2 ⟨hm, rfl⟩, rfl⟩
  single := nodup_gap_methods
  assesses := by
    intro gap hgap
    rw [(mem_gaps.1 hgap).2]
    exact assesses_gapOf g gap.method
  business := (ncard_of_nodup nodup_businessOf fun m => mem_businessOf_iff.symm).symm
  covered := by
    rw [covered_eq]
    refine (ncard_of_nodup (nodup_businessOf.filter _) ?_).symm
    intro m
    show Demands tests changed impacted m ∧ _ ↔ _
    rw [List.mem_filter, mem_businessOf_iff, ← covered_getD_unbounded hnumbered, Bool.not_eq_true',
      ← Bool.not_eq_true, relatedTests_isEmpty_iff, not_not]
  high := rfl
  medium := rfl
  low := rfl
  balance := business_eq
  gapCount := gapCount_eq_length
  ordered := gaps_ordered g tests depth changed impacted
  unique := fun _ hothers => eq_of_precedes (gaps_ordered g tests depth changed impacted) hothers

/-- Two methods that call each other, the first of which a test calls, and two that no test calls,
one of them with two callers. -/
def ledger : CallGraph :=
  .ofEdges []
    [(⟨"BookTest", "testBook"⟩, ⟨"Book", "post"⟩), (⟨"Book", "post"⟩, ⟨"Book", "carry"⟩),
      (⟨"Book", "carry"⟩, ⟨"Book", "post"⟩), (⟨"Web", "list"⟩, ⟨"Book", "close"⟩),
      (⟨"Job", "night"⟩, ⟨"Book", "close"⟩), (⟨"Web", "list"⟩, ⟨"Book", "audit"⟩)]

/-- The test that calls into the cycle. -/
def ledgerTests : List Method := [⟨"BookTest", "testBook"⟩]

/-- One method of the cycle and the two without tests. -/
def ledgerChanged : List Method := [⟨"Book", "audit"⟩, ⟨"Book", "carry"⟩, ⟨"Book", "close"⟩]

/-- Both methods of the cycle. -/
def ledgerImpacted : List Method := [⟨"Book", "post"⟩, ⟨"Book", "carry"⟩]

/-- Without a bound the test covers both methods of the cycle, and the gap with more callers comes
first. -/
theorem coverage_exact_ledger :
    (none = (none : Option Nat) → ledger.Numbered) ∧
      Assessed ledger ledgerTests none ledgerChanged ledgerImpacted
        [gapOf ledger ⟨"Book", "close"⟩, gapOf ledger ⟨"Book", "audit"⟩] ⟨4, 2, 0, 0, 2⟩ := by
  have hnumbered : none = (none : Option Nat) → ledger.Numbered := by
    intro _
    decide +kernel
  refine ⟨hnumbered, ?_⟩
  have hassessed := coverage_exact ledger ledgerTests none ledgerChanged ledgerImpacted hnumbered
  have huntested : untestedOf ledger ledgerTests none ledgerChanged ledgerImpacted =
      [⟨"Book", "audit"⟩, ⟨"Book", "close"⟩] := by
    decide +kernel
  -- the sorting does not evaluate, but its result is the only one in order
  have hgaps : [gapOf ledger ⟨"Book", "close"⟩, gapOf ledger ⟨"Book", "audit"⟩] =
      (analyze ledger ledgerTests none ledgerChanged ledgerImpacted).1 := by
    apply hassessed.unique
    · decide +kernel
    · intro gap
      rw [analyze_gaps_eq, List.mem_mergeSort, huntested]
      simp [or_comm]
  have hstats : (analyze ledger ledgerTests none ledgerChanged ledgerImpacted).2 =
      ⟨4, 2, 0, 0, 2⟩ := by
    rw [Impact.analyze_stats_eq, ← hgaps]
    decide +kernel
  rw [← hgaps, hstats] at hassessed
  exact hassessed

end ChangeImpact.Coverage
