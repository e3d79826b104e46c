import ChangeImpact.Java.Tree

/-!
# Grammar: the means

A production reads children from the front of a list of tokens, or fails; after a failure the next
alternative starts from the same tokens. Productions that contain each other are written with open
recursion: they take `go : Goal → Parser Tree`, which reads a whole construct, and
`ChangeImpact.Java.parseGoal` ties the knot.

* `Parser`, `Piece` — readers of values and of lists of children;
* `seq`, `firstOf`, `opt`, `many`, `sepBy` — sequence, ordered choice, repetition;
* `mark`, `word`, `identifier` — single tokens;
* `Goal` — the constructs that contain others.
-/

namespace ChangeImpact.Java

/-- Reads a value from the front of the tokens, or fails. -/
abbrev Parser (α : Type) := List Token → Option (α × List Token)

/-- Reads children. -/
abbrev Piece := Parser (List Child)

/-- The constructs that contain others. -/
inductive Goal where
  | statement
  /-- A statement of a list of statements. -/
  | blockItem
  /-- A member of a class. -/
  | classItem
  /-- A member of an interface. -/
  | interfaceItem
  /-- A construct at the outside of a file. -/
  | topItem
  | block
  | classBody
  | expression
  /-- An expression that is no closure. -/
  | condition
  /-- An expression of operators that bind at least so strongly. -/
  | operators (level : Nat)
  /-- An operand with its signs and steps. -/
  | unary
  /-- An operand with its signs. -/
  | signed
  | primary
  | type
  | unannotatedType
  | annotationUse
  | pattern
  /-- A semicolon that ends a construct. -/
  | semicolon
  /-- A brace that closes a body. -/
  | closeBrace
deriving DecidableEq, Repr

namespace Grammar

/-! ## Combinators -/

variable {α β : Type}

/-- Always fails. -/
def fail : Parser α := fun _ => none

/-- Reads nothing. -/
def succeed (a : α) : Parser α := fun ts => some (a, ts)

/-- Reads a value, then what depends on it. -/
def andThen (p : Parser α) (f : α → Parser β) : Parser β := fun ts =>
  match p ts with
  | some (a, rest) => f a rest
  | none => none

instance : Monad Parser where
  pure := succeed
  bind := andThen

/-- Applies a function to what is read. -/
def mapped (f : α → β) (p : Parser α) : Parser β := fun ts =>
  match p ts with
  | some (a, rest) => some (f a, rest)
  | none => none

/-- The first alternative that does not fail. -/
def firstOf : List (Parser α) → Parser α
  | [], _ => none
  | p :: ps, ts =>
    match p ts with
    | some r => some r
    | none => firstOf ps ts

/-- One piece after the other. -/
def seq : List Piece → Piece
  | [], ts => some ([], ts)
  | p :: ps, ts =>
    match p ts with
    | none => none
    | some (a, rest) =>
      match seq ps rest with
      | none => none
      | some (b, rest) => some (a ++ b, rest)

/-- A piece or nothing. -/
def opt (p : Piece) : Piece := fun ts => some ((p ts).getD ([], ts))

/-- A piece at most `n` times. -/
def repeated : Nat → Piece → Piece
  | 0, _, ts => some ([], ts)
  | n + 1, p, ts =>
    match p ts with
    | none => some ([], ts)
    | some (a, rest) =>
      match repeated n p rest with
      | none => none
      | some (b, rest) => some (a ++ b, rest)

/-- A piece any number of times; each must read at least one token. -/
def many (p : Piece) : Piece := fun ts => repeated ts.length p ts

/-- A piece at least once. -/
def many1 (p : Piece) : Piece := seq [p, many p]

/-- A piece at least once, with separators. -/
def sepBy1 (p separator : Piece) : Piece := seq [p, many (seq [separator, p])]

/-- A piece any number of times, with separators. -/
def sepBy (p separator : Piece) : Piece := opt (sepBy1 p separator)

/-- Succeeds without reading if the tokens ahead satisfy the test. -/
def ahead (test : List Token → Bool) : Piece := fun ts => if test ts then some ([], ts) else none

/-- Reads with the second reader if the tokens ahead satisfy the test. -/
def guarded (test : List Token → Bool) (p : Parser α) : Parser α := fun ts =>
  if test ts then p ts else none

/-! ## Trees -/

/-- A tree of the given kind. -/
def node (k : Kind) (p : Piece) : Parser Tree := mapped (.node k) p

/-- A child without a role. -/
def kid (p : Parser Tree) : Piece := mapped (fun t => [(none, t)]) p

/-- A child with a role. -/
def role (f : Field) (p : Parser Tree) : Piece := mapped (fun t => [(some f, t)]) p

/-- Children that are there already. -/
def given (cs : List Child) : Piece := succeed cs

/-! ## Tokens -/

/-- The next token is the given mark. -/
def isMark (s : String) : List Token → Bool
  | t :: _ => t.cls == .mark && t.text == s
  | [] => false

/-- The next token is the given word. -/
def isWord (s : String) : List Token → Bool
  | t :: _ => t.cls == .word && t.text == s
  | [] => false

/-- The next token touches the one before it. -/
def isGlued : List Token → Bool
  | t :: _ => t.trivia == ""
  | [] => false

/-- A leaf of the given kind, if the next token satisfies the test. -/
def leafIf (k : Kind) (test : Token → Bool) : Parser Tree
  | t :: ts => if test t then some (.leaf k t, ts) else none
  | [] => none

/-- A mark. -/
def mark (s : String) : Piece :=
  kid (leafIf .token fun t => t.cls == .mark && t.text == s)

/-- A keyword. -/
def word (s : String) : Piece :=
  kid (leafIf .token fun t => t.cls == .word && t.text == s)

/-- One of several keywords. -/
def oneWord (l : List String) : Piece :=
  kid (leafIf .token fun t => t.cls == .word && l.contains t.text)

/-- A word as a leaf of a kind of its own. -/
def wordLeaf (k : Kind) (s : String) : Parser Tree :=
  leafIf k fun t => t.cls == .word && t.text == s

/-- Words that are never names. -/
def reserved : List String :=
  ["abstract", "assert", "boolean", "break", "byte", "case", "catch", "char", "class", "continue",
    "default", "do", "double", "else", "enum", "extends", "final", "finally", "float", "for", "if",
    "implements", "import", "instanceof", "int", "interface", "long", "native", "new", "package",
    "private", "protected", "public", "return", "short", "static", "strictfp", "super", "switch",
    "synchronized", "this", "throw", "throws", "transient", "try", "void", "volatile", "while",
    "true", "false", "null"]

/-- Whether the token can be a name. -/
def isName (t : Token) : Bool := t.cls == .word && !reserved.contains t.text

/-- The next token can be a name. -/
def startsName : List Token → Bool
  | t :: _ => isName t
  | [] => false

/-- A name. -/
def identifier : Parser Tree := leafIf .identifier isName

/-- A name of a type. -/
def typeIdentifier : Parser Tree := leafIf .typeIdentifier isName

/-- Adds names with dots before them to a name; at most `n` of them. -/
def extendName : Nat → Tree → Parser Tree
  | 0, t, ts => some (t, ts)
  | n + 1, t, ts =>
    match seq [mark ".", kid identifier] ts with
    | none => some (t, ts)
    | some (more, rest) => extendName n (.node .scopedIdentifier ((none, t) :: more)) rest

/-- A name, possibly with dots. -/
def qualifiedName : Parser Tree := fun ts => andThen identifier (extendName ts.length) ts

/-- What follows the bracket that closes the `depth`-th of the open round brackets. -/
def afterRound : Nat → List Token → List Token
  | _, [] => []
  | depth, t :: ts =>
    if t.cls == .mark && t.text == "(" then afterRound (depth + 1) ts
    else if t.cls == .mark && t.text == ")" then
      if depth ≤ 1 then ts else afterRound (depth - 1) ts
    else afterRound depth ts

/-- What follows a name with dots. -/
def afterName : List Token → List Token
  | t :: d :: ts =>
    if d.cls == .mark && d.text == "." && ts.head?.any isName then afterName ts
    else if isName t then d :: ts
    else t :: d :: ts
  | [t] => if isName t then [] else [t]
  | [] => []

end Grammar

end ChangeImpact.Java
