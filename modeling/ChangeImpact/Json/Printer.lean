import ChangeImpact.Json.Number
import ChangeImpact.Text.Hex

/-!
# Writing JSON

* `Json.compact` — without white space;
* `Json.pretty` — a line a member, two blanks a level; empty arrays and objects on one line.
-/

namespace ChangeImpact.Json

open Text (hexDigit)

/-- A character inside a string. -/
def escapeChar (c : Char) : List Char :=
  match c with
  | '"' => ['\\', '"']
  | '\\' => ['\\', '\\']
  | '\x08' => ['\\', 'b']
  | '\x0c' => ['\\', 'f']
  | '\n' => ['\\', 'n']
  | '\r' => ['\\', 'r']
  | '\t' => ['\\', 't']
  | c =>
    if c.toNat < 0x20 then
      ['\\', 'u', '0', '0', hexDigit 'a' (c.toNat / 16), hexDigit 'a' (c.toNat % 16)]
    else [c]

/-- A text in quotes. -/
def quote (s : String) : String :=
  "\"" ++ String.ofList (s.toList.flatMap escapeChar) ++ "\""

mutual

/-- The text without white space. -/
def compact : Json → String
  | .null => "null"
  | .bool b => if b then "true" else "false"
  | .num n => n.text
  | .str s => quote s
  | .arr items => "[" ++ compactItems items ++ "]"
  | .obj members => "\x7b" ++ compactMembers members ++ "\x7d"

/-- Values with commas between them. -/
def compactItems : List Json → String
  | [] => ""
  | [v] => compact v
  | v :: vs => compact v ++ "," ++ compactItems vs

/-- Members with commas between them. -/
def compactMembers : List (String × Json) → String
  | [] => ""
  | [(name, v)] => quote name ++ ":" ++ compact v
  | (name, v) :: ms => quote name ++ ":" ++ compact v ++ "," ++ compactMembers ms

end

/-- A new line at a level. -/
def newLine (level : Nat) : String :=
  "\n" ++ String.ofList (List.replicate (2 * level) ' ')

mutual

/-- The text with a line a member, inside `level` open arrays and objects. -/
def prettyAt (level : Nat) : Json → String
  | .null => "null"
  | .bool b => if b then "true" else "false"
  | .num n => n.text
  | .str s => quote s
  | .arr [] => "[]"
  | .arr items => "[" ++ prettyItems (level + 1) items ++ newLine level ++ "]"
  | .obj [] => "\x7b\x7d"
  | .obj members => "\x7b" ++ prettyMembers (level + 1) members ++ newLine level ++ "\x7d"

/-- Values, each on a line. -/
def prettyItems (level : Nat) : List Json → String
  | [] => ""
  | [v] => newLine level ++ prettyAt level v
  | v :: vs => newLine level ++ prettyAt level v ++ "," ++ prettyItems level vs

/-- Members, each on a line. -/
def prettyMembers (level : Nat) : List (String × Json) → String
  | [] => ""
  | [(name, v)] => newLine level ++ quote name ++ ": " ++ prettyAt level v
  | (name, v) :: ms =>
    newLine level ++ quote name ++ ": " ++ prettyAt level v ++ "," ++ prettyMembers level ms

end

/-- The text with a line a member. -/
def pretty (j : Json) : String :=
  prettyAt 0 j

end ChangeImpact.Json
