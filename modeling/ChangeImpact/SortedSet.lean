/-!
# Sets as lists

Finite sets appear in this library in two forms, both lists without repetition:

* in ascending order, where an answer lists them (`insertSorted`, `sortedSet`);
* in order of first occurrence, where a graph keeps its vertices and edges (`addNew`,
  `firstOccurrences`).

Main statements: neither form loses or gains a member (`mem_sortedSet`, `mem_firstOccurrences`),
and the second has no repetition (`nodup_firstOccurrences`).
-/

namespace ChangeImpact

/-! ## Ascending order -/

section Sorted

variable {α : Type} [Ord α]

/-- Puts a member into an ascending list, unless it is there. -/
def insertSorted (a : α) : List α → List α
  | [] => [a]
  | b :: bs =>
    match compare a b with
    | .lt => a :: b :: bs
    | .eq => b :: bs
    | .gt => b :: insertSorted a bs

/-- The members of a list in ascending order, each once. -/
def sortedSet (l : List α) : List α :=
  l.foldr insertSorted []

variable [Std.LawfulEqOrd α]

theorem mem_insertSorted {a x : α} {l : List α} : x ∈ insertSorted a l ↔ x = a ∨ x ∈ l := by
  induction l with
  | nil => simp [insertSorted]
  | cons b bs ih =>
    rw [insertSorted]
    split
    · simp
    · rename_i h
      have : a = b := Std.LawfulEqOrd.eq_of_compare h
      subst this
      simp
    · simp only [List.mem_cons, ih]
      grind

theorem mem_sortedSet {x : α} {l : List α} : x ∈ sortedSet l ↔ x ∈ l := by
  induction l with
  | nil => simp [sortedSet]
  | cons b bs ih =>
    simp only [sortedSet, List.foldr_cons, mem_insertSorted, List.mem_cons] at *
    rw [ih]

end Sorted

/-! ## Order of first occurrence -/

section FirstOccurrence

variable {α : Type} [DecidableEq α]

/-- Appends a member, unless it is there. -/
def addNew (l : List α) (a : α) : List α :=
  if a ∈ l then l else l ++ [a]

/-- The members of a list in order of first occurrence, each once. -/
def firstOccurrences (l : List α) : List α :=
  l.foldl addNew []

theorem mem_addNew {l : List α} {a x : α} : x ∈ addNew l a ↔ x ∈ l ∨ x = a := by
  unfold addNew
  split
  · grind
  · simp

theorem nodup_addNew {l : List α} (a : α) (h : l.Nodup) : (addNew l a).Nodup := by
  unfold addNew
  split
  · exact h
  · grind [List.nodup_append]

theorem mem_foldl_addNew {l acc : List α} {x : α} :
    x ∈ l.foldl addNew acc ↔ x ∈ acc ∨ x ∈ l := by
  induction l generalizing acc with
  | nil => simp
  | cons a as ih => simp only [List.foldl_cons, ih, mem_addNew, List.mem_cons, or_assoc]

theorem mem_firstOccurrences {l : List α} {x : α} : x ∈ firstOccurrences l ↔ x ∈ l := by
  simp [firstOccurrences, mem_foldl_addNew]

theorem nodup_foldl_addNew {l acc : List α} (h : acc.Nodup) : (l.foldl addNew acc).Nodup := by
  induction l generalizing acc with
  | nil => exact h
  | cons a as ih => exact ih (nodup_addNew a h)

theorem nodup_firstOccurrences (l : List α) : (firstOccurrences l).Nodup :=
  nodup_foldl_addNew List.nodup_nil

end FirstOccurrence

/-! ## Places -/

/-- Where the members of a list with one more at its end stand. -/
theorem getElem?_concat_iff {α : Type} {l : List α} {a b : α} {i : Nat} :
    (l ++ [a])[i]? = some b ↔ l[i]? = some b ∨ i = l.length ∧ b = a := by
  rcases Nat.lt_trichotomy i l.length with hlt | rfl | hgt
  · rw [List.getElem?_append_left hlt]
    exact ⟨.inl, fun h => h.resolve_right fun h => Nat.ne_of_lt hlt h.1⟩
  · simp [eq_comm]
  · rw [List.getElem?_eq_none (by simp; omega), List.getElem?_eq_none (by omega)]
    simp only [reduceCtorEq, false_or, false_iff]
    exact fun h => Nat.ne_of_gt hgt h.1

end ChangeImpact
