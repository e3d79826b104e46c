import ChangeImpact.Proofs.CallSites
import ChangeImpact.Proofs.WalkJournal

/-!
# Methods outside of types

A method takes over from all that is active around it. That is harmless where methods stand: in the
body of a type, where nothing is active, or in an anonymous class, where they are no methods of
their own. Here it is said what the walk would meet otherwise.

* `HasLoose` — there is a method in the tree, and in no type of the tree;
* `MethodsInTypes` — what methods and closures are made of has no such methods;
* `active_nil_inside` — then a method that the walk lists is listed where nothing is active.
-/

namespace ChangeImpact.Java

/-- There is a method in the tree that is in no type of the tree. Methods of the anonymous class
that the tree creates do not count. -/
inductive HasLoose : Tree → Prop where
  | method {t : Tree} (h : t.isMethod = true) : HasLoose t
  | child {t c : Tree} (htype : t.isNamedType = false) (hcreation : t.kind ≠ .objectCreation)
    (hc : c ∈ t.children) (h : HasLoose c) : HasLoose t
  | part {t c : Tree} (hcreation : t.kind = .objectCreation) (hc : c ∈ otherParts t)
    (h : HasLoose c) : HasLoose t
  | member {t m : Tree} (hcreation : t.kind = .objectCreation) (hm : m ∈ anonymousMembers t)
    (hplain : m.isMethod = false) (h : HasLoose m) : HasLoose t

/-- In the methods and closures of a tree, methods stand in types of their own. -/
def MethodsInTypes (t : Tree) : Prop :=
  ∀ u, u = t ∨ t.Has u → u.isMethod = true ∨ u.kind = .lambda → ∀ c ∈ u.children, ¬HasLoose c

variable {root t c m : Tree} {s inner : Scope} {deed : Deed} {w : Trace} {path : List Nat}
  {count : Nat}

theorem isMethod_of_name {name : String} (hkind : t.kind = .methodDeclaration)
    (hname : (t.child? .name).map (·.text) = some name) : t.isMethod = true := by
  obtain ⟨child, hchild, -⟩ := Option.map_eq_some_iff.1 hname
  simp [Tree.isMethod, hkind, hchild]

/-- What a path leads to is part of the tree. -/
theorem has_of_at? (h : root.at? path = some t) : t = root ∨ root.Has t := by
  induction path generalizing root with
  | nil =>
    cases h
    exact .inl rfl
  | cons i path ih =>
    obtain ⟨c, hc, hrest⟩ := Option.bind_eq_some_iff.1 h
    have hchild : c ∈ root.children := List.mem_of_getElem? hc
    rcases ih hrest with rfl | hhas
    · exact .inr (.child hchild)
    · exact .inr (.deeper hchild hhas)

theorem active_enter_of_namedType (h : t.isNamedType = true) : (enter s w t).1.active = [] := by
  obtain ⟨htype, hnamed⟩ := Bool.and_eq_true_iff.1 h
  obtain ⟨name, hname⟩ := Option.isSome_iff_exists.1 hnamed
  have hkinds : t.kind = .classDeclaration ∨ t.kind = .interfaceDeclaration ∨
      t.kind = .enumDeclaration ∨ t.kind = .recordDeclaration := by
    simpa [isTypeDeclaration, or_assoc] using htype
  rcases hkinds with hkind | hkind | hkind | hkind <;>
    simp [enter, enterType, hkind, hname, isTypeDeclaration]

/-- Where a tree is walked with something active only if it has no such method, the same is true of
its children. -/
theorem active_nil_inside (hroot : MethodsInTypes root) (ht : root.at? path = some t)
    (hcreation : t.kind ≠ .objectCreation) (hclear : HasLoose t → s.active = [])
    (hc : c ∈ t.children) (hloose : HasLoose c) : (enter s w t).1.active = [] := by
  have hpart := has_of_at? ht
  generalize hscope : (enter s w t).1 = inner
  have hinside := inside_enter s w t
  rw [hscope] at hinside
  generalize deedAt s t = deed at hinside
  cases hinside with
  | method hkind howner hname hinner hactive =>
    exact absurd hloose (hroot t hpart (.inl (isMethod_of_name hkind hname)) c hc)
  | closure hkind howner hinner hactive => exact absurd hloose (hroot t hpart (.inr hkind) c hc)
  | same hdeed =>
    by_cases htype : t.isNamedType = true
    · rw [← hscope]
      exact active_enter_of_namedType htype
    · exact hclear (.child (Bool.not_eq_true _ ▸ htype) hcreation hc hloose)
  | cleared hdeed hactive => exact hactive

/-- A member of an anonymous class that does not become a declaration of its own. -/
theorem active_nil_member (htyped : s.owner = none → s.active = [])
    (hcreation : t.kind = .objectCreation) (hclear : HasLoose t → s.active = [])
    (hm : m ∈ anonymousMembers t) (hmember : anonymousMember? s m = none) (hloose : HasLoose m) :
    s.active = [] := by
  cases hmethod : m.isMethod with
  | false => exact hclear (.member hcreation hm hmethod hloose)
  | true =>
    -- a method with a name, so that there is no type around
    obtain ⟨hkind, hnamed⟩ := Bool.and_eq_true_iff.1 hmethod
    obtain ⟨name, hname⟩ := Option.isSome_iff_exists.1 hnamed
    cases howner : s.owner with
    | none => exact htyped howner
    | some owner => simp [anonymousMember?, eq_of_beq hkind, howner, hname] at hmember

end ChangeImpact.Java
