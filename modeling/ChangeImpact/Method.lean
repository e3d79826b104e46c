import ChangeImpact.SortedSet
import ChangeImpact.Text.Segment

/-!
# Methods

A method is known by the qualified name of the type that owns it and its own simple name.
Parameter types are no part of the identity, so overloads are one method.

* `Method.signature`, `Method.ofSignature` — the one-text form `owner.name` and its reading;
* `Method.simpleOwner` — the owner without package and enclosing types;
* the order of methods: by owner, then by name.
-/

namespace ChangeImpact

/-- A method: its owner's qualified name and its own name. -/
structure Method where
  owner : String
  name : String
deriving DecidableEq, Repr, Hashable, Inhabited

namespace Method

/-- The owner of a method whose signature names none. -/
def unknownOwner : String := "UnknownClass"

/-- The text `owner.name`. -/
def signature (m : Method) : String :=
  m.owner ++ "." ++ m.name

/-- Reads a signature: the name is what follows the last dot. -/
def ofSignature (s : String) : Method :=
  match Text.cutLast "." s with
  | some (owner, name) => ⟨owner, name⟩
  | none => ⟨unknownOwner, s⟩

/-- The owner's last name: no package, no enclosing types. -/
def simpleOwner (m : Method) : String :=
  Text.afterLast "$" (Text.afterLast "." m.owner)

/-! ## Order -/

/-- By owner, then by name. -/
instance : Ord Method where
  compare a b := (compare a.owner b.owner).then (compare a.name b.name)

instance : Std.LawfulEqOrd Method where
  compare_self := by
    intro a
    change (compare a.owner a.owner).then (compare a.name a.name) = .eq
    rw [Std.ReflOrd.compare_self (a := a.owner), Std.ReflOrd.compare_self (a := a.name)]
    rfl
  eq_of_compare := by
    intro a b h
    change (compare a.owner b.owner).then (compare a.name b.name) = .eq at h
    rw [Ordering.then_eq_eq] at h
    have h1 : a.owner = b.owner := Std.LawfulEqOrd.eq_of_compare h.1
    have h2 : a.name = b.name := Std.LawfulEqOrd.eq_of_compare h.2
    cases a
    cases b
    simp_all

end Method

end ChangeImpact
