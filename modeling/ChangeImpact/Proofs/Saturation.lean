import ChangeImpact.Proofs.Callers

/-!
# Chains need not be long

A chain that comes to a method twice can leave out what lies between. Whoever calls a method at all
calls it through a chain with at most as many calls as the graph has vertices, and a search to that
depth overlooks nobody.

* `CallGraph.Calls` — one method calls another through a chain whose length is bounded, or not;
* `ChainIn.shorten`, `Chain.shorten` — every chain can be shortened to the number of vertices;
* `calls_of_saturated` — a bound of that size is no bound;
* `Numbered`, `calls_getD_unbounded` — neither is the bound that stands for none, as vertices are
  numbered by words.
-/

namespace ChangeImpact.CallGraph

/-- The first method calls the second, directly or through others. Where a bound is given, a chain
of at most that many calls does it. -/
def Calls (g : CallGraph) (bound : Option Nat) (x y : Method) : Prop :=
  ∃ k, 1 ≤ k ∧ (∀ d ∈ bound, k ≤ d) ∧ g.Chain k x y

variable {g : CallGraph} {x y : Method} {d depth : Nat}

theorem calls_some_iff : g.Calls (some d) x y ↔ ∃ k, 1 ≤ k ∧ k ≤ d ∧ g.Chain k x y := by
  simp [Calls]

/-- A call in one step is an edge. -/
theorem calls_one_iff : g.Calls (some 1) x y ↔ (x, y) ∈ g.edges := by
  rw [calls_some_iff]
  constructor
  · rintro ⟨k, hk, hle, hchain⟩
    obtain rfl : k = 1 := by omega
    cases hchain with
    | step hedge hrest =>
      cases hrest
      exact hedge
  · intro hedge
    exact ⟨1, Nat.le_refl 1, Nat.le_refl 1, .step hedge (.refl y)⟩

/-- A wider bound admits more. -/
theorem Calls.mono {b c : Option Nat} (hbc : ∀ e ∈ c, ∃ d ∈ b, d ≤ e) (h : g.Calls b x y) :
    g.Calls c x y := by
  obtain ⟨k, hk, hbound, hchain⟩ := h
  refine ⟨k, hk, ?_, hchain⟩
  intro e he
  obtain ⟨d, hd, hde⟩ := hbc e he
  exact Nat.le_trans (hbound d hd) hde

theorem Calls.widen (h : g.Calls (some d) x y) (hle : d ≤ depth) : g.Calls (some depth) x y := by
  refine h.mono ?_
  rintro e ⟨⟩
  exact ⟨d, rfl, hle⟩

/-- The search for callers, in terms of bounded calls. -/
theorem mem_transitiveCallers_iff_calls {seeds : List Method} :
    x ∈ g.transitiveCallers seeds depth ↔ ∃ s ∈ seeds, g.Calls (some depth) x s := by
  simp only [mem_transitiveCallers, calls_some_iff]

/-! ## Shorter chains -/

/-- A chain through given methods can be shortened to their number. One that has an edge keeps one.
-/
theorem ChainIn.shorten {u : List Method} {k : Nat} (h : g.ChainIn u k x y) :
    ∃ j, j ≤ u.length ∧ (1 ≤ k → 1 ≤ j) ∧ g.ChainIn u j x y := by
  -- by induction on the number of methods that the chain may still use
  induction hn : u.length generalizing u k x with
  | zero =>
    cases h with
    | refl => exact ⟨0, Nat.le_refl 0, id, .refl _⟩
    | step _ hw _ =>
      rw [List.length_eq_zero_iff.1 hn] at hw
      cases hw
  | succ n ih =>
    cases h with
    | refl => exact ⟨0, Nat.zero_le _, id, .refl _⟩
    | @step k _ w _ hxw hw hrest =>
      -- what follows the last visit to `w` does without `w`
      have hlast : ∃ i, g.ChainIn (u.erase w) i w y := by
        rcases hrest.leave (v := u.erase w) with hrest | ⟨f, hf, hfw, i, -, hrest⟩
        · exact ⟨k, hrest⟩
        · have hfeq : f = w := by
            by_contra hne
            exact hfw ((List.mem_erase_of_ne hne).2 hf)
          exact ⟨i, hfeq ▸ hrest⟩
      obtain ⟨i, hlast⟩ := hlast
      have hlength : (u.erase w).length = n := by
        rw [List.length_erase_of_mem hw]
        omega
      obtain ⟨j, hj, -, hshort⟩ := ih hlast hlength
      have hmono : g.ChainIn u j w y := hshort.mono fun _ => List.mem_of_mem_erase
      exact ⟨j + 1, by omega, fun _ => by omega, .step hxw hw hmono⟩

/-- A chain with an edge can be shortened to the number of vertices. -/
theorem Chain.shorten {k : Nat} (h : g.Chain k x y) (hk : 1 ≤ k) :
    ∃ j, 1 ≤ j ∧ j ≤ g.methods.length ∧ g.Chain j x y := by
  obtain ⟨j, hle, hpos, hshort⟩ := (chainIn_methods_iff.2 h).shorten
  exact ⟨j, hpos hk, hle, chainIn_methods_iff.1 hshort⟩

/-- A bound that is not less than the number of vertices admits every call. -/
theorem calls_of_saturated (hsize : g.methods.length ≤ d) :
    g.Calls (some d) x y ↔ g.Calls none x y := by
  constructor
  · intro h
    exact h.mono (by simp)
  · rintro ⟨k, hk, -, hchain⟩
    obtain ⟨j, hpos, hle, hshort⟩ := hchain.shorten hk
    exact calls_some_iff.2 ⟨j, hpos, Nat.le_trans hle hsize, hshort⟩

/-- The vertices can be numbered by words of 32 bits, the greatest of which is the number of none.
-/
def Numbered (g : CallGraph) : Prop := g.methods.length ≤ unbounded

instance (g : CallGraph) : Decidable g.Numbered := inferInstanceAs (Decidable (_ ≤ _))

/-- The depth that stands for no bound bounds nothing. -/
theorem calls_getD_unbounded {bound : Option Nat} (hnumbered : bound = none → g.Numbered) :
    g.Calls (some (bound.getD unbounded)) x y ↔ g.Calls bound x y := by
  cases bound with
  | none => exact calls_of_saturated (hnumbered rfl)
  | some d => rfl

end ChangeImpact.CallGraph
