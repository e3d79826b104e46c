import ChangeImpact.Java.Grammar

/-!
# Texts with faults

A text that fits the grammar is read strictly. In a short text that does not, the cheapest changes
after which it fits are looked for: a token that is missing is put in, or a stretch of tokens is set
aside as an error, which stays in its place in the tree. A longer text is read with repair on the
way.

What is set aside is tokens, and the members of a body that is opened in it and not closed. Such
members are whole, so that a method can be in an error, and with it in the method around the error.

* `piecesOf` — what a stretch that is set aside consists of;
* `Change` — a change of the tokens, with its `cost`; `Change.leave` — what is left of it in a tree;
* `repaired?` — what a short text becomes by the cheapest change, or by setting two stretches aside;
* `Fits` — a text fits the grammar; `Tree.ofSource` — the tree of a text.
-/

namespace ChangeImpact.Java

open Grammar

/-! ## Pieces -/

/-- The places of the braces that open the body of a class without a name. -/
def bodyPlaces (ts : List Token) : List Nat :=
  (List.range ts.length).filterMap fun i =>
    match creationHead (parseGoal .none (nestingBound ts)) (ts.drop i) with
    | some (_, rest) => if isMark "\x7b" rest then some (ts.length - rest.length) else none
    | none => none

/-- The members at the front of the tokens, unless the body ends with them. -/
def openMembers (member : Parser Tree) (ts : List Token) : List Child × List Token :=
  match (many (kid member)) ts with
  | some (members, rest) => if isMark "\x7d" rest then ([], ts) else (members, rest)
  | none => ([], ts)

/-- The pieces of at most so many tokens, the first of which is at a place: members behind the
braces at `bodies`, and single tokens. -/
def piecesOf (bodies : List Nat) (member : Parser Tree) :
    Nat → Nat → List Token → List Child
  | 0, _, _ => []
  | _, _, [] => []
  | n + 1, place, t :: ts =>
    let (members, rest) := if bodies.contains place then openMembers member ts else ([], ts)
    let next := place + 1 + (ts.length - rest.length)
    (none, .leaf .token t) :: members ++ piecesOf bodies member n next rest

/-! ## Changes -/

/-- A change of a list of tokens. -/
inductive Change where
  /-- Puts in a token at a place. -/
  | insert (place : Nat) (token : Token)
  /-- Sets aside the tokens of some pieces from a place on. -/
  | setAside (place : Nat) (pieces : List Child)

mutual

/-- Puts a child behind the first `n` tokens, outside of the constructs that end there. -/
def insertBehind (n : Nat) (child : Child) : Tree → Tree
  | .node k cs => .node k (insertAmong n child cs)
  | t => t

/-- The same in a list of children. -/
def insertAmong (n : Nat) (child : Child) : List Child → List Child
  | [] => [child]
  | (role, t) :: cs =>
    if n = 0 then child :: (role, t) :: cs
    else if t.tokens.length ≤ n then (role, t) :: insertAmong (n - t.tokens.length) child cs
    else (role, insertBehind n child t) :: cs

end

namespace Change

/-- What a change costs: a recovery, and then what is put in or what is set aside. -/
def cost : Change → Nat
  | insert _ _ => 610
  | setAside _ pieces =>
    500 + 100 * pieces.length + (Tree.textOfTokens (Tree.tokensOf pieces)).utf8ByteSize

/-- Where a change starts. -/
def place : Change → Nat
  | insert p _ => p
  | setAside p _ => p

/-- Behind which token a change ends. -/
def finish : Change → Nat
  | insert p _ => p
  | setAside p pieces => p + (Tree.tokensOf pieces).length

/-- The tokens after a change. -/
def apply (ts : List Token) : Change → List Token
  | insert p t => ts.take p ++ t :: ts.drop p
  | setAside p pieces => ts.take p ++ ts.drop (p + (Tree.tokensOf pieces).length)

/-- Leaves what a change was in a tree. -/
def leave (items : List Child) : Change → List Child
  | insert _ _ => items ++ [(none, .missing)]
  | setAside p pieces => insertAmong p (none, .node .error pieces) items

end Change

/-- Whether a name between two tokens is a construct by itself, and not the beginning or the middle
of one. -/
def standsAlone (before after : Option Token) : Bool :=
  let isAfter (text : String) := before.any (·.text == text)
  let isBefore (text : String) := after.any (·.text == text)
  !(isBefore "(" && !isAfter "new") && !isBefore "->" && !isBefore ":" &&
    !(isBefore "\x7b" && ["class", "interface", "enum"].any isAfter)

/-- The tokens that may be missing between two tokens: those that end a construct. -/
def missingTokens (before after : Option Token) : List Token :=
  let row := (before.map (·.endRow)).getD 0
  let name := if standsAlone before after then [⟨.word, "", "", row, row⟩] else []
  name ++ [")", ";", "\x7d", "]"].map fun mark => ⟨.mark, mark, "", row, row⟩

/-- The insertions into a list of tokens, the last place first. -/
def insertions (ts : List Token) : List Change :=
  (List.range (ts.length + 1)).reverse.flatMap fun p =>
    (missingTokens (ts.take p).getLast? ts[p]?).map (Change.insert p)

/-- The stretches of a list of tokens that are at most so long. -/
def removals (longest : Nat) (ts : List Token) : List Change :=
  let pieces := piecesOf (bodyPlaces ts) (parseGoal .none (nestingBound ts) .classItem)
  (List.range ts.length).flatMap fun p =>
    (List.range (min longest (ts.length - p))).map fun n =>
      Change.setAside p (pieces (n + 1) p ((ts.drop p).take (n + 1)))

/-- The items of a text after changes, if it fits the grammar then. -/
def itemsAfter? (ts : List Token) (changes : List Change) : Option (List Child) :=
  -- The changes come from the last place to the first, so that places stay valid; what is set aside
  -- comes back in the opposite order.
  match parseItems .none (changes.foldl Change.apply ts) with
  | (items, []) => some (changes.foldr (fun c items => c.leave items) items)
  | _ => none

/-- The pairs of short stretches apart from each other that together cost less than a bound, the
later first. -/
def pairsBelow (bound : Nat) (ts : List Token) : List (List Change) :=
  let changes := removals 3 ts
  changes.flatMap fun a =>
    (changes.filter fun b => b.cost + a.cost < bound && b.finish < a.place).map fun b => [a, b]

/-- What changes cost together. -/
def totalCost (changes : List Change) : Nat :=
  changes.foldl (fun n c => n + c.cost) 0

/-- Lists of changes with the cheapest first. -/
def byCost (l : List (List Change)) : List (List Change) :=
  l.mergeSort fun a b => totalCost a ≤ totalCost b

/-- A text of more tokens is not searched for a change. -/
def searchLimit : Nat := 64

/-- A text of more tokens is not searched for two stretches. -/
def pairLimit : Nat := 24

/-- The items of a short text after the cheapest changes. -/
def repaired? (ts : List Token) : Option (List Child) := do
  if searchLimit < ts.length then none
  let single ← (byCost ((insertions ts ++ removals ts.length ts).map ([·]))).find? fun changes =>
    (itemsAfter? ts changes).isSome
  let pair := if pairLimit < ts.length then none else
    (byCost (pairsBelow (totalCost single) ts)).findSome? (itemsAfter? ts)
  pair <|> itemsAfter? ts single

/-- A text fits the grammar. -/
def Fits (s : String) : Prop := (parseItems .none (tokens s)).2 = []

/-- The tree of a list of tokens. -/
def Tree.ofTokens (ts : List Token) : Tree :=
  match parseItems .none ts with
  | (items, []) => .node .program items
  | _ =>
    match repaired? ts with
    | some items => .node .program items
    | none =>
      let (items, left) := parseItems .full ts
      let aside := if left.isEmpty then [] else
        [(none, .node .error (left.map fun t => (none, .leaf .token t)))]
      .node .program (items ++ aside)

/-- The tree of a text. -/
def Tree.ofSource (s : String) : Tree := .ofTokens (Java.tokens s)

end ChangeImpact.Java
