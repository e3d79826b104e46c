/-!
# Tables

A table keeps a list of values under every key it has met, in the order in which they came.

* `Table.row` — the values under a key;
* `Table.push` — adds a value under a key and leaves all other keys as they are (`Table.row_push`).
-/

namespace ChangeImpact

/-- Lists of values by key. -/
structure Table (α : Type) where
  rows : List (String × List α)
deriving DecidableEq, Repr

namespace Table

variable {α : Type}

/-- The table that has met no key. -/
def empty : Table α := ⟨[]⟩

/-- The values under a key. -/
def row (t : Table α) (key : String) : List α :=
  (t.rows.lookup key).getD []

/-- The rows with a further value under a key. -/
def pushRows (key : String) (a : α) : List (String × List α) → List (String × List α)
  | [] => [(key, [a])]
  | (k, values) :: rows =>
    if k = key then (k, values ++ [a]) :: rows else (k, values) :: pushRows key a rows

/-- Adds a value under a key. -/
def push (t : Table α) (key : String) (a : α) : Table α :=
  ⟨pushRows key a t.rows⟩

theorem lookup_pushRows (key k : String) (a : α) (rows : List (String × List α)) :
    ((pushRows key a rows).lookup k).getD [] =
      if k = key then (rows.lookup k).getD [] ++ [a] else (rows.lookup k).getD [] := by
  induction rows with
  | nil =>
    by_cases hk : k = key
    · simp [pushRows, hk]
    · have hne : (k == key) = false := by simpa using hk
      simp [pushRows, List.lookup_cons, hk, hne]
  | cons first rows ih =>
    obtain ⟨name, values⟩ := first
    rw [pushRows]
    by_cases hname : name = key
    · -- the row is here
      subst hname
      by_cases hk : k = name
      · simp [hk]
      · have hne : (k == name) = false := by simpa using hk
        simp [List.lookup_cons, hk, hne]
    · -- the row is further down
      by_cases hk : k = name
      · subst hk
        simp [hname]
      · have hne : (k == name) = false := by simpa using hk
        simp only [if_neg hname, List.lookup_cons, hne, ih]

/-- A value is added under its key and nowhere else. -/
theorem row_push (t : Table α) (key k : String) (a : α) :
    (t.push key a).row k = if k = key then t.row k ++ [a] else t.row k :=
  lookup_pushRows key k a t.rows

theorem mem_row_push {t : Table α} {key k : String} {a x : α} :
    x ∈ (t.push key a).row k ↔ x ∈ t.row k ∨ (k = key ∧ x = a) := by
  rw [row_push]
  by_cases hk : k = key <;> simp [hk]

theorem nodup_row_push {t : Table α} {key k : String} {a : α} (h : (t.row k).Nodup)
    (hnew : k = key → a ∉ t.row k) : ((t.push key a).row k).Nodup := by
  rw [row_push]
  split
  · next hk =>
    refine List.nodup_append.2 ⟨h, by simp, ?_⟩
    rintro x hx y hy rfl
    rw [List.mem_singleton.1 hy] at hx
    exact hnew hk hx
  · exact h

end Table

end ChangeImpact
