import ChangeImpact.Json.Token

/-!
# Reading JSON

Tokens are put together by a machine with a stack of open arrays and objects: one step a token.
The result is a `Raw` tree, whose strings and numbers are not evaluated yet.

* `Raw.parse?` — the tree of a byte string;
* `Raw.value?` — the value of a tree: every string and number can be represented, and arrays and
  objects nest less than 128 deep;
* `Json.parse?` — both.
-/

namespace ChangeImpact.Json

/-- A JSON document whose strings and numbers are as written. -/
inductive Raw where
  | null
  | bool (b : Bool)
  | num (n : Numeral)
  | str (s : StringBody)
  | arr (items : List Raw)
  | obj (members : List (StringBody × Raw))

/-! ## The machine -/

/-- An array or object that is still open, with what it holds so far, the last first. An object
also has the name read last. -/
inductive Frame where
  | arr (items : List Raw)
  | obj (members : List (StringBody × Raw)) (name : StringBody)

/-- What may come next. -/
inductive Expect where
  /-- A value. -/
  | value
  /-- A value or the end of an array. -/
  | firstItem
  /-- A name or the end of an object. -/
  | firstName
  /-- A name. -/
  | name
  /-- A colon. -/
  | colon
  /-- A comma or the end of what is open; at the outside, nothing. -/
  | after

/-- The machine between two tokens. Outside of all frames a finished value is the `root`. -/
structure Machine where
  stack : List Frame
  expect : Expect
  root : Option Raw

/-- The machine before the first token. -/
def Machine.start : Machine := ⟨[], .value, none⟩

/-- A value is finished. -/
def Machine.finish (m : Machine) (v : Raw) : Machine :=
  match m.stack with
  | [] => { m with expect := .after, root := some v }
  | .arr items :: rest => { m with stack := .arr (v :: items) :: rest, expect := .after }
  | .obj members name :: rest =>
    { m with stack := .obj ((name, v) :: members) name :: rest, expect := .after }

/-- A value starts with the given token. -/
def Machine.begin (m : Machine) : Token → Option Machine
  | .null => some (m.finish .null)
  | .bool b => some (m.finish (.bool b))
  | .num n => some (m.finish (.num n))
  | .str s => some (m.finish (.str s))
  | .openBracket => some { m with stack := .arr [] :: m.stack, expect := .firstItem }
  | .openBrace => some { m with stack := .obj [] ⟨[]⟩ :: m.stack, expect := .firstName }
  | _ => none

/-- One token. -/
def Machine.step (m : Machine) (t : Token) : Option Machine :=
  match m.expect, t, m.stack with
  | .firstItem, .closeBracket, .arr items :: rest =>
    some ({ m with stack := rest }.finish (.arr items.reverse))
  | .firstName, .closeBrace, .obj members _ :: rest =>
    some ({ m with stack := rest }.finish (.obj members.reverse))
  | .firstName, .str s, .obj members _ :: rest =>
    some { m with stack := .obj members s :: rest, expect := .colon }
  | .name, .str s, .obj members _ :: rest =>
    some { m with stack := .obj members s :: rest, expect := .colon }
  | .colon, .colon, _ => some { m with expect := .value }
  | .after, .comma, .arr _ :: _ => some { m with expect := .value }
  | .after, .comma, .obj _ _ :: _ => some { m with expect := .name }
  | .after, .closeBracket, .arr items :: rest =>
    some ({ m with stack := rest }.finish (.arr items.reverse))
  | .after, .closeBrace, .obj members _ :: rest =>
    some ({ m with stack := rest }.finish (.obj members.reverse))
  | .value, t, _ => m.begin t
  | .firstItem, t, _ => m.begin t
  | _, _, _ => none

/-- The tree of a list of tokens that is one value. -/
def Raw.ofTokens? (ts : List Token) : Option Raw := do
  let m ← ts.foldlM Machine.step Machine.start
  if m.stack.isEmpty then m.root else none

/-- The tree of a byte string. -/
def Raw.parse? (b : ByteArray) : Option Raw := do
  Raw.ofTokens? (← Token.scan? (bytesAsChars b))

/-! ## Values -/

/-- How many arrays and objects a document may nest, and one. -/
def nestingLimit : Nat := 128

mutual

/-- The value of a tree within the given number of further levels. -/
def Raw.value? (depth : Nat) : Raw → Option Json
  | .null => some .null
  | .bool b => some (.bool b)
  | .num n => n.value?.map .num
  | .str s => s.decode?.map .str
  | .arr items => if depth ≤ 1 then none else (Raw.items? (depth - 1) items).map .arr
  | .obj members => if depth ≤ 1 then none else (Raw.members? (depth - 1) members).map .obj

/-- The values of a list of trees. -/
def Raw.items? (depth : Nat) : List Raw → Option (List Json)
  | [] => some []
  | v :: vs => do return (← Raw.value? depth v) :: (← Raw.items? depth vs)

/-- The members of an object. -/
def Raw.members? (depth : Nat) : List (StringBody × Raw) → Option (List (String × Json))
  | [] => some []
  | (name, v) :: ms => do
    return (← name.decode?, ← Raw.value? depth v) :: (← Raw.members? depth ms)

end

/-- The value that a byte string spells. -/
def parse? (b : ByteArray) : Option Json := do
  (← Raw.parse? b).value? nestingLimit

end ChangeImpact.Json
