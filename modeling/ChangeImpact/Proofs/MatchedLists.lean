import Mathlib.Data.List.Forall2

/-!
# Lists that match

Two lists match if their members do, one by one. What is found in one of them, taken out of it or
made of it then matches what is found in the other, taken out or made.

* `rel_find?`, `rel_eraseP`, `rel_getLastD`, `exists_of_rel` — members of lists that match;
* `flatMap_eq_of_rel` — what is made of them;
* `rel_cases`, `bind_eq_of_rel` — the same for at most one member.
-/

namespace ChangeImpact

variable {α β : Type} {R : α → α → Prop} {l l' : List α} {o o' : Option α}

theorem rel_find? {p : α → Bool} (hp : ∀ a b, R a b → p b = p a) (h : List.Forall₂ R l l') :
    Option.Rel R (l.find? p) (l'.find? p) := by
  induction h with
  | nil => exact .none
  | @cons a b l l' hab _ ih =>
    rw [List.find?_cons, List.find?_cons, hp a b hab]
    cases p a with
    | true => exact .some hab
    | false => exact ih

theorem rel_eraseP {p : α → Bool} (hp : ∀ a b, R a b → p b = p a) (h : List.Forall₂ R l l') :
    List.Forall₂ R (l.eraseP p) (l'.eraseP p) := by
  induction h with
  | nil => exact .nil
  | @cons a b l l' hab htail ih =>
    rw [List.eraseP_cons, List.eraseP_cons, hp a b hab]
    cases p a with
    | true => exact htail
    | false => exact .cons hab ih

theorem rel_getLastD {a a' : α} (h : List.Forall₂ R l l') (ha : R a a') :
    R (l.getLastD a) (l'.getLastD a') := by
  induction h generalizing a a' with
  | nil => exact ha
  | cons hab _ ih =>
    rw [List.getLastD_cons, List.getLastD_cons]
    exact ih hab

theorem flatMap_eq_of_rel {g g' : α → List β} (h : List.Forall₂ R l l')
    (hg : ∀ a ∈ l, ∀ b ∈ l', R a b → g' b = g a) : l'.flatMap g' = l.flatMap g := by
  induction h with
  | nil => rfl
  | @cons a b l l' hab _ ih =>
    rw [List.flatMap_cons, List.flatMap_cons, hg a List.mem_cons_self b List.mem_cons_self hab,
      ih fun a ha b hb => hg a (List.mem_cons_of_mem _ ha) b (List.mem_cons_of_mem _ hb)]

theorem exists_of_rel (h : List.Forall₂ R l l') {a : α} (ha : a ∈ l) : ∃ b ∈ l', R a b := by
  induction h with
  | nil => cases ha
  | cons hab _ ih =>
    rcases List.mem_cons.1 ha with rfl | ha
    · exact ⟨_, List.mem_cons_self, hab⟩
    · rcases ih ha with ⟨b, hb, hrel⟩
      exact ⟨b, List.mem_cons_of_mem _ hb, hrel⟩

theorem rel_cases (h : Option.Rel R o o') :
    (o = none ∧ o' = none) ∨ ∃ a b, o = some a ∧ o' = some b ∧ R a b := by
  cases h with
  | none => exact .inl ⟨rfl, rfl⟩
  | some hab => exact .inr ⟨_, _, rfl, rfl, hab⟩

theorem bind_eq_of_rel {g g' : α → Option β} (h : Option.Rel R o o')
    (hg : ∀ a b, R a b → g' b = g a) : o'.bind g' = o.bind g := by
  cases h with
  | none => rfl
  | some hab => exact hg _ _ hab

end ChangeImpact
