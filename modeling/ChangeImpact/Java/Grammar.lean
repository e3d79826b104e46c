import ChangeImpact.Java.Grammar.Declarations

/-!
# The grammar

`parseGoal` ties the productions together. Its first argument bounds the nesting; the bound taken
from the length of the text is never reached, because at most a few productions follow each other
without reading a token.

A text can be read strictly, or with repair: where an item of a body does not fit, a missing
semicolon or closing brace is assumed if that helps, and else the tokens up to the next item that
fits are set aside as an error.
-/

namespace ChangeImpact.Java

open Grammar

/-- Whether and how a text that does not fit is repaired. -/
inductive Repair where
  | none
  | full
deriving DecidableEq, Repr

/-- The tokens up to the next closing brace or the next item that fits, as one error. At least one
token is taken; a closing brace is one only at the outside. -/
def skipTokens (item : Parser Tree) (takesBraces : Bool) :
    Nat → List Token → List Child × List Token
  | 0, ts => ([], ts)
  | _, [] => ([], [])
  | n + 1, t :: ts =>
    let stop := match ts with
      | [] => true
      | _ => (isMark "\x7d" ts && !takesBraces) || (item ts).isSome
    let (more, rest) := if stop then ([], ts) else skipTokens item takesBraces n ts
    ((Option.none, Tree.leaf .token t) :: more, rest)

/-- An item, or an error in its place. -/
def itemOr (repair : Repair) (takesBraces : Bool) (item : Parser Tree) : Parser Tree := fun ts =>
  match item ts, repair with
  | some r, _ => some r
  | Option.none, .none => Option.none
  | Option.none, .full =>
    if ts.isEmpty || (isMark "\x7d" ts && !takesBraces) then Option.none
    else
      let (skipped, rest) := skipTokens item takesBraces ts.length ts
      some (.node .error skipped, rest)

/-- A mark that may be missing under repair, if the tokens ahead allow it. -/
def markOrMissing (repair : Repair) (s : String) (mayLack : List Token → Bool) : Parser Tree :=
  fun ts =>
    match leafIf .token (fun t => t.cls == .mark && t.text == s) ts, repair with
    | some r, _ => some r
    | Option.none, .none => Option.none
    | Option.none, .full => if mayLack ts then some (.missing, ts) else Option.none

/-- One construct, given how to read its parts. -/
def goalStep (repair : Repair) (go : Goal → Parser Tree) : Goal → Parser Tree
  | .statement => statement go (declaration go)
  | .blockItem =>
    itemOr repair false
      (guarded (fun ts => !isWord "case" ts && !isMark "\x7d" ts) (go .statement))
  | .classItem => itemOr repair false (classMember go)
  | .interfaceItem => itemOr repair false (interfaceMember go)
  | .topItem => itemOr repair true (firstOf [go .statement, looseMethod go])
  | .block => block go
  | .classBody => classBody go
  | .expression => expression go
  | .condition => condition go
  | .operators level => operators go level
  | .unary => unary go
  | .signed => signed go (switchBlock go) (closure go)
  | .primary => primary go
  | .type => type go
  | .unannotatedType => unannotatedType go
  | .annotationUse => annotationUse go
  | .pattern => recordPattern go
  | .semicolon => markOrMissing repair ";" fun _ => true
  | .closeBrace => markOrMissing repair "\x7d" (·.isEmpty)

/-- Reads a construct, with at most so many productions inside each other. -/
def parseGoal (repair : Repair) : Nat → Goal → Parser Tree
  | 0, _, _ => none
  | n + 1, g, ts => goalStep repair (parseGoal repair n) g ts

/-- A bound on the productions inside each other. -/
def nestingBound (ts : List Token) : Nat := 16 * (ts.length + 1)

/-- The items of a file, and what is left. -/
def parseItems (repair : Repair) (ts : List Token) : List Child × List Token :=
  ((many (kid (parseGoal repair (nestingBound ts) .topItem))) ts).getD ([], ts)

end ChangeImpact.Java
