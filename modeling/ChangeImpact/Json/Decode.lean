import ChangeImpact.Json.Reader

/-!
# Taking JSON documents apart

A decoder reads a value of some type out of a document. A record is an object with a member for
each of its fields, or an array of its fields in order. Members that are no field are passed over,
whatever they hold; a field may not be given twice.
-/

namespace ChangeImpact.Json

/-- Reads a value out of a document that may nest so many levels further. -/
abbrev Decoder (α : Type) := Nat → Raw → Option α

namespace Decoder

variable {α β : Type}

/-- The value that a function gives, if it gives one. -/
def filterMap (f : α → Option β) (d : Decoder α) : Decoder β :=
  fun depth raw => (d depth raw).bind f

/-- A text. -/
def text : Decoder String := fun _ raw =>
  match raw with
  | .str s => s.decode?
  | _ => none

/-- A whole number in `0 … max`. -/
def number (max : Nat) : Decoder Nat := fun _ raw =>
  match raw with
  | .num n =>
    match n.value? with
    | some (.int n) => if 0 ≤ n ∧ n ≤ max then some n.toNat else none
    | _ => none
  | _ => none

/-- Any value; of members of one name the last counts. -/
def any : Decoder Json := fun depth raw =>
  (raw.value? depth).map canonical

/-- A list of values. -/
def list (item : Decoder α) : Decoder (List α) := fun depth raw =>
  match raw with
  | .arr items => if depth ≤ 1 then none else items.mapM (item (depth - 1))
  | _ => none

/-- The members of an object. -/
def members (item : Decoder α) : Decoder (List (String × α)) := fun depth raw =>
  match raw with
  | .obj ms =>
    if depth ≤ 1 then none
    else ms.mapM fun (name, v) => do return (← name.decode?, ← item (depth - 1) v)
  | _ => none

end Decoder

/-- The fields of a record that are given, by name. -/
abbrev Fields := List (String × Raw)

/-- Adds a member to the fields. -/
def Fields.add (names : List String) (fields : Fields) (member : StringBody × Raw) :
    Option Fields := do
  let name ← member.1.decode?
  if !names.contains name then some fields
  else if (fields.map (·.1)).contains name then none
  else some (fields ++ [(name, member.2)])

/-- The fields that a document gives. -/
def Raw.fields? (names : List String) (depth : Nat) : Raw → Option Fields
  | .obj ms => if depth ≤ 1 then none else ms.foldlM (Fields.add names) []
  | .arr items => if depth ≤ 1 || names.length < items.length then none else some (names.zip items)
  | _ => none

/-- A field that has to be given. -/
def Fields.need {α : Type} (fields : Fields) (depth : Nat) (d : Decoder α) (name : String) :
    Option α :=
  (fields.lookup name).bind (d (depth - 1))

/-- A field that may be left out. -/
def Fields.orElse {α : Type} (fields : Fields) (depth : Nat) (d : Decoder α) (name : String)
    (default : α) : Option α :=
  match fields.lookup name with
  | none => some default
  | some raw => d (depth - 1) raw

end ChangeImpact.Json
