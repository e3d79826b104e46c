import ChangeImpact.Method
import ChangeImpact.Table
import ChangeImpact.Text.Lowercase

/-!
# Resolving calls

A call is a text, `name` or `receiver.name`. Resolution finds the declared method it means, by the
first rule that applies:

1. *qualified* — the receiver is the qualified name of an owner that declares the name;
2. *receiver type* — ignoring case, the receiver's last segment is the simple name of exactly one
   owner that declares the name (so `orderService.save` finds `OrderService.save`);
3. *same owner* — for a call without receiver: the caller's own type declares the name, or else the
   nearest type around it that does;
4. *unique name* — for a call without receiver: only one declared method has the name.

A call that no rule fits leaves the unit and has no meaning here.
-/

namespace ChangeImpact.Resolution

/-- The rule by which a call was resolved. -/
inductive Strategy where
  | qualified
  | receiverType
  | sameOwner
  | uniqueName
deriving DecidableEq, Repr

/-- The name under which a rule is counted. -/
def Strategy.name : Strategy → String
  | qualified => "qualified"
  | receiverType => "receiver_type"
  | sameOwner => "same_owner"
  | uniqueName => "unique_name"

/-- The rules in the order in which they are tried. -/
def Strategy.all : List Strategy :=
  [qualified, receiverType, sameOwner, uniqueName]

/-! ## The index -/

/-- The ordinary methods of a unit in three tables: the names that an owner declares, the owners of
a simple name in lower case, and the methods of a name. -/
structure Index where
  byOwner : Table String
  bySimpleOwner : Table String
  byName : Table Method
deriving DecidableEq, Repr

/-- The index that knows no method. -/
def Index.empty : Index := ⟨.empty, .empty, .empty⟩

/-- Whether the owner declares the name. -/
def Index.declares (d : Index) (owner name : String) : Bool :=
  (d.byOwner.row owner).contains name

/-- Adds a method. An overload changes nothing, and an owner goes under its simple name with the
first of its methods. -/
def Index.insert (d : Index) (m : Method) : Index :=
  if d.declares m.owner m.name then d
  else
    { byOwner := d.byOwner.push m.owner m.name
      bySimpleOwner :=
        if (d.byOwner.row m.owner).isEmpty then
          d.bySimpleOwner.push (Text.lowercase m.simpleOwner) m.owner
        else d.bySimpleOwner
      byName := d.byName.push m.name m }

/-- The index of a list of methods. -/
def Index.ofList (ms : List Method) : Index :=
  ms.foldl Index.insert Index.empty

/-! ## The rules -/

/-- The only element of a list of one. -/
def only {α : Type} : List α → Option α
  | [a] => some a
  | _ => none

/-- Rule 2. -/
def Index.byReceiver (d : Index) (receiver name : String) : Option Method :=
  let owners := d.bySimpleOwner.row (Text.lowercase (Text.afterLast "." receiver))
  (only (owners.filter (d.declares · name))).map (⟨·, name⟩)

/-- What stands before each dollar sign, the shortest first. -/
def beforeDollars : List Char → List (List Char)
  | [] => []
  | c :: cs => (if c = '$' then [[]] else []) ++ (beforeDollars cs).map (c :: ·)

/-- An owner and the types around it, from the inside out. -/
def enclosingOwners (owner : String) : List String :=
  owner :: (beforeDollars owner.toList).reverse.map String.ofList

/-- Rule 3. -/
def Index.bySameOwner (d : Index) (caller name : String) : Option Method :=
  ((enclosingOwners caller).find? (d.declares · name)).map (⟨·, name⟩)

/-- Rule 4. -/
def Index.byUniqueName (d : Index) (name : String) : Option Method :=
  only (d.byName.row name)

/-- A call with its receiver, if it has one. -/
def splitTarget (target : String) : Option String × String :=
  match Text.cutLast "." target with
  | some (receiver, name) => (some receiver, name)
  | none => (none, target)

/-- Resolves a call written in a method of `caller`. -/
def Index.resolve (d : Index) (target caller : String) : Option (Method × Strategy) :=
  let (receiver, name) := splitTarget target
  if name = "" then none
  else
    match receiver with
    | some receiver =>
      if d.declares receiver name then some (⟨receiver, name⟩, .qualified)
      else (d.byReceiver receiver name).map (·, .receiverType)
    | none =>
      match d.bySameOwner caller name with
      | some m => some (m, .sameOwner)
      | none => (d.byUniqueName name).map (·, .uniqueName)

end ChangeImpact.Resolution
