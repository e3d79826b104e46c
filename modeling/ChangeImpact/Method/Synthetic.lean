import ChangeImpact.Method

/-!
# Minted names

Closures and members of anonymous classes have no name of their own. They get one from the
declaration around them and a number: a closure in `run` becomes `run$lambda$3`, a member of an
anonymous class in `a.Shop` is owned by `a.Shop$Anonymous2`.

* `Method.closure`, `Method.anonymous` — the minted identities;
* `Method.isSynthetic` — recognises names of the minted form.
-/

namespace ChangeImpact.Method

/-- Stands between the name of a closure's method and the closure's number. -/
def closureMarker : String := "$lambda$"

/-- Stands between the owner of an anonymous class and the class's number. -/
def anonymousMarker : String := "$Anonymous"

/-- The `n`-th closure, written in `name` of `owner`. -/
def closure (owner name : String) (n : Nat) : Method :=
  ⟨owner, name ++ closureMarker ++ toString n⟩

/-- The member `name` of the `n`-th anonymous class, written in `owner`. -/
def anonymous (owner name : String) (n : Nat) : Method :=
  ⟨owner ++ anonymousMarker ++ toString n, name⟩

/-- Whether the text ends in the marker followed by at least one decimal digit and nothing else. -/
def numberedBy (marker s : String) : Bool :=
  match Text.cutLast marker s with
  | some (_, digits) => !digits.toList.isEmpty && digits.toList.all Char.isDigit
  | none => false

/-- Whether the method's name or its owner has the minted form. -/
def isSynthetic (m : Method) : Bool :=
  numberedBy closureMarker m.name || numberedBy anonymousMarker m.owner

end ChangeImpact.Method
