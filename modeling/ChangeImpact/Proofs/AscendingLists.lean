import ChangeImpact.SortedSet
import Mathlib.Data.List.Nodup
import Mathlib.Data.List.Perm.Basic
import Mathlib.Data.Set.Card

/-!
# Ascending lists

Sets that an answer lists are kept as ascending lists.

* `ascending_sortedSet` — a sorted set ascends, so that it has no repetition (`Ascending.nodup`);
* `Ascending.eq_of_mem_iff` — an ascending list is known by its members;
* `ncard_of_nodup` — the length of a list without repetition is the number of its members.
-/

namespace ChangeImpact

variable {α : Type} [Ord α] [Std.TransOrd α] [Std.LawfulEqOrd α] {l m : List α}

/-- Strictly ascending. -/
def Ascending (l : List α) : Prop := l.Pairwise fun a b => compare a b = .lt

instance (l : List α) : Decidable (Ascending l) := inferInstanceAs (Decidable (l.Pairwise _))

theorem ascending_insertSorted (a : α) (h : Ascending l) : Ascending (insertSorted a l) := by
  induction l with
  | nil => exact List.pairwise_singleton _ _
  | cons b bs ih =>
    obtain ⟨hb, hbs⟩ := List.pairwise_cons.1 h
    rw [insertSorted]
    split
    · next hlt =>
      refine List.pairwise_cons.2 ⟨?_, h⟩
      intro x hx
      rcases List.mem_cons.1 hx with rfl | hx
      · exact hlt
      · exact Std.TransCmp.lt_trans hlt (hb x hx)
    · exact h
    · next hgt =>
      refine List.pairwise_cons.2 ⟨?_, ih hbs⟩
      intro x hx
      rcases mem_insertSorted.1 hx with rfl | hx
      · exact Std.OrientedCmp.gt_iff_lt.1 hgt
      · exact hb x hx

theorem ascending_sortedSet (l : List α) : Ascending (sortedSet l) := by
  induction l with
  | nil => exact List.Pairwise.nil
  | cons a l ih => exact ascending_insertSorted a ih

omit [Std.TransOrd α] in
theorem Ascending.nodup (h : Ascending l) : l.Nodup := by
  refine List.Pairwise.imp ?_ h
  rintro a b hlt rfl
  have hself : compare a a = .eq := Std.ReflCmp.compare_self
  rw [hself] at hlt
  cases hlt

/-- An ascending list is known by its members. -/
theorem Ascending.eq_of_mem_iff (hl : Ascending l) (hm : Ascending m) (h : ∀ x, x ∈ l ↔ x ∈ m) :
    l = m := by
  have hperm : l.Perm m := (List.perm_ext_iff_of_nodup hl.nodup hm.nodup).2 h
  refine hperm.eq_of_pairwise ?_ hl hm
  intro a b _ _ hab hba
  rw [Std.OrientedCmp.gt_iff_lt.2 hab] at hba
  cases hba

theorem sortedSet_congr (h : ∀ x, x ∈ l ↔ x ∈ m) : sortedSet l = sortedSet m := by
  refine (ascending_sortedSet l).eq_of_mem_iff (ascending_sortedSet m) ?_
  intro x
  rw [mem_sortedSet, mem_sortedSet, h]

omit [Ord α] [Std.TransOrd α] [Std.LawfulEqOrd α] in
/-- A list without repetition is as long as the set of its members is large. -/
theorem ncard_of_nodup {s : Set α} (hl : l.Nodup) (h : ∀ x, x ∈ s ↔ x ∈ l) :
    s.ncard = l.length := by
  classical
  have hset : s = l.toFinset := by
    ext x
    rw [h, List.coe_toFinset]
    rfl
  rw [hset, Set.ncard_coe_finset, List.toFinset_card_of_nodup hl]

end ChangeImpact
