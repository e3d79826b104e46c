import ChangeImpact.SortedSet
import Mathlib.Data.List.Induction
import Mathlib.Data.List.Basic

/-!
# Order of first occurrence

A graph keeps its methods and edges in the order in which it meets them, each once.

* `IsFirstOccurrences` — a list without repetition, in the order of another;
* `firstOccurrences_concat` — what one more member does; the others follow by induction from the
  end: `firstOccurrences_append` — members met later stand behind,
  `firstOccurrences_append_of_subset` — those met again add nothing, `firstOccurrences_of_nodup` —
  where none is met again, all are kept.
-/

namespace ChangeImpact

/-- The members of a list, each once, in the order in which they first occur. -/
structure IsFirstOccurrences {α : Type} [DecidableEq α] (l found : List α) : Prop where
  nodup : found.Nodup
  mem_iff : ∀ x, x ∈ found ↔ x ∈ l
  ordered : found.Pairwise fun a b => l.idxOf a < l.idxOf b

variable {α : Type} [DecidableEq α] {l m : List α}

theorem firstOccurrences_concat (l : List α) (a : α) :
    firstOccurrences (l ++ [a]) = addNew (firstOccurrences l) a := by
  simp [firstOccurrences, List.foldl_append]

theorem firstOccurrences_append (l m : List α) :
    firstOccurrences l <+: firstOccurrences (l ++ m) := by
  induction m using List.reverseRecOn with
  | nil => simp
  | append_singleton m a ih =>
    rw [← List.append_assoc, firstOccurrences_concat, addNew]
    split
    · exact ih
    · exact ih.trans (List.prefix_append _ _)

/-- What is met a second time adds nothing. -/
theorem firstOccurrences_append_of_subset (h : m ⊆ l) :
    firstOccurrences (l ++ m) = firstOccurrences l := by
  induction m using List.reverseRecOn with
  | nil => rw [List.append_nil]
  | append_singleton m a ih =>
    obtain ⟨hm, ha⟩ := List.append_subset.1 h
    have hold : a ∈ firstOccurrences l := mem_firstOccurrences.2 (ha (List.mem_singleton_self a))
    rw [← List.append_assoc, firstOccurrences_concat, ih hm, addNew, if_pos hold]

/-- A list without repetition is its own list of first occurrences. -/
theorem firstOccurrences_of_nodup (h : l.Nodup) : firstOccurrences l = l := by
  induction l using List.reverseRecOn with
  | nil => rfl
  | append_singleton l a ih =>
    obtain ⟨hl, -, hdisjoint⟩ := List.nodup_append.1 h
    have hnew : a ∉ l := by
      intro ha
      exact hdisjoint a ha a (List.mem_singleton_self a) rfl
    rw [firstOccurrences_concat, ih hl, addNew, if_neg hnew]

theorem ordered_firstOccurrences (l : List α) :
    (firstOccurrences l).Pairwise fun a b => l.idxOf a < l.idxOf b := by
  induction l using List.reverseRecOn with
  | nil => exact List.Pairwise.nil
  | append_singleton l a ih =>
    -- members of the first part keep their places
    have hkeep : ∀ x ∈ firstOccurrences l, (l ++ [a]).idxOf x = l.idxOf x := by
      intro x hx
      exact List.idxOf_append_of_mem (mem_firstOccurrences.1 hx)
    have hold : (firstOccurrences l).Pairwise fun x y =>
        (l ++ [a]).idxOf x < (l ++ [a]).idxOf y := by
      apply List.Pairwise.imp_of_mem _ ih
      intro x y hx hy hlt
      rw [hkeep x hx, hkeep y hy]
      exact hlt
    rw [firstOccurrences_concat, addNew]
    split
    · exact hold
    · next hnew =>
      have ha : a ∉ l := fun hmem => hnew (mem_firstOccurrences.2 hmem)
      refine List.pairwise_append.2 ⟨hold, List.pairwise_singleton _ _, ?_⟩
      intro x hx y hy
      rw [List.mem_singleton.1 hy, hkeep x hx, List.idxOf_append_of_notMem ha]
      have hlt : l.idxOf x < l.length := List.idxOf_lt_length_of_mem (mem_firstOccurrences.1 hx)
      omega

theorem isFirstOccurrences (l : List α) : IsFirstOccurrences l (firstOccurrences l) :=
  ⟨nodup_firstOccurrences l, fun _ => mem_firstOccurrences, ordered_firstOccurrences l⟩

theorem length_firstOccurrences_le (l : List α) : (firstOccurrences l).length ≤ l.length := by
  induction l using List.reverseRecOn with
  | nil => exact Nat.le_refl 0
  | append_singleton l a ih =>
    rw [firstOccurrences_concat, addNew, List.length_append]
    split
    · omega
    · rw [List.length_append]
      omega

end ChangeImpact
