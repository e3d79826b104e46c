import ChangeImpact.SortedSet

/-!
# JSON values

An object keeps its members in the order in which they stand. Where an object is taken as a map,
the last member of a name counts (`Json.get?`), and where it is written canonically its names
ascend (`Json.canonical`).
-/

namespace ChangeImpact

/-- A JSON number: whole numbers of 64 bits are kept exactly, all others as floats. -/
inductive Json.Number where
  | int (n : Int)
  | float (x : Float)
deriving Repr

/-- A JSON value. -/
inductive Json where
  | null
  | bool (b : Bool)
  | num (n : Json.Number)
  | str (s : String)
  | arr (items : List Json)
  | obj (members : List (String × Json))
deriving Repr, Inhabited

namespace Json

/-- A number that counts something. -/
def nat (n : Nat) : Json := .num (.int n)

/-- A list of texts. -/
def strs (l : List String) : Json := .arr (l.map .str)

/-- The value of a member; the last one of the name counts. -/
def lookup (members : List (String × Json)) (name : String) : Option Json :=
  (members.reverse.find? (·.1 == name)).map (·.2)

/-- The value of a member of an object. -/
def get? : Json → String → Option Json
  | .obj members, name => lookup members name
  | _, _ => none

/-- Puts a member into a list with ascending names, in place of one of the same name. -/
def putMember {α : Type} (name : String) (value : α) : List (String × α) → List (String × α)
  | [] => [(name, value)]
  | m :: ms =>
    match compare name m.1 with
    | .lt => (name, value) :: m :: ms
    | .eq => (name, value) :: ms
    | .gt => m :: putMember name value ms

mutual

/-- The same value with ascending names, each once, in every object. -/
def canonical : Json → Json
  | .arr items => .arr (canonicalItems items)
  | .obj members => .obj (canonicalMembers members [])
  | .null => .null
  | .bool b => .bool b
  | .num n => .num n
  | .str s => .str s

/-- The canonical forms of a list of values. -/
def canonicalItems : List Json → List Json
  | [] => []
  | v :: vs => canonical v :: canonicalItems vs

/-- Puts the canonical forms of members, from the first to the last, into the list `done`. -/
def canonicalMembers : List (String × Json) → List (String × Json) → List (String × Json)
  | [], done => done
  | (name, v) :: ms, done => canonicalMembers ms (putMember name (canonical v) done)

end

end Json

end ChangeImpact
