import ChangeImpact.Repository.Basic
import ChangeImpact.Text.Hex
import ChangeImpact.Text.Segment

/-!
# Revisions

A revision is a name with steps from commit to commit behind it, such as `main~2` or `v1^2`.

* `Revision.parse` — the name and the steps of a text;
* `Repository.lookUp` — what a name leads to: an id, a reference, or the beginning of an id;
* `Repository.commitAt` — the commit of a revision.
-/

namespace ChangeImpact.Repository

/-! ## What is written -/

/-- A step from what a revision has led to so far. -/
inductive Step where
  /-- The parent of this number, the first being 1; 0 is the commit itself. -/
  | parent (n : Nat)
  /-- So many steps along first parents. -/
  | ancestor (n : Nat)
  /-- Something of a kind, by way of what it is attached to. -/
  | peel (kind : String)
  /-- A file or directory of the commit. -/
  | path (path : String)
  /-- Nothing that is understood. -/
  | malformed
deriving DecidableEq, Repr

/-- A name and the steps from it. -/
structure Revision where
  name : String
  steps : List Step
deriving DecidableEq, Repr

namespace Revision

/-- The largest number of a step. -/
def maxNumber : Nat := 2147483647

/-- A number, 1 if none is written, and the rest. A number that is too large is none at all. -/
def readNumber (cs : List Char) : Option (Nat × List Char) :=
  let digits := cs.takeWhile Char.isDigit
  let n := digits.foldl (fun n c => n * 10 + (c.toNat - 48)) 0
  if digits.isEmpty then some (1, cs)
  else if n ≤ maxNumber then some (n, cs.dropWhile Char.isDigit)
  else none

/-- What stands before a closing brace, and what behind it. -/
def readBraced (cs : List Char) : Option (List Char × List Char) :=
  match cs.dropWhile (· != '\x7d') with
  | _ :: rest => some (cs.takeWhile (· != '\x7d'), rest)
  | [] => none

/-- The steps of a text of at most so many characters. -/
def readSteps : Nat → List Char → List Step
  | 0, _ => []
  | n + 1, cs =>
    match cs with
    | [] => []
    | '^' :: '\x7b' :: rest =>
      match readBraced rest with
      | some (kind, rest) => .peel (String.ofList kind) :: readSteps n rest
      | none => [.malformed]
    | '^' :: rest =>
      match readNumber rest with
      | some (k, rest) => .parent k :: readSteps n rest
      | none => [.malformed]
    | '~' :: rest =>
      match readNumber rest with
      | some (k, rest) => .ancestor k :: readSteps n rest
      | none => [.malformed]
    | ':' :: rest => [.path (String.ofList rest)]
    | _ => [.malformed]

/-- Where the name ends. -/
def endsName : List Char → Bool
  | '^' :: _ => true
  | '~' :: _ => true
  | ':' :: _ => true
  | '@' :: '\x7b' :: _ => true
  | _ => false

/-- The characters of the name, and the rest. -/
def readName : List Char → List Char × List Char
  | [] => ([], [])
  | c :: cs =>
    if endsName (c :: cs) then ([], c :: cs)
    else
      let (name, rest) := readName cs
      (c :: name, rest)

/-- The name and the steps of a text. A single sign stands for the head. -/
def parse (text : String) : Revision :=
  if text = "@" then ⟨"HEAD", []⟩
  else
    let (name, rest) := readName text.toList
    ⟨String.ofList name, readSteps rest.length rest⟩

end Revision

/-! ## What goes wrong -/

/-- Why a revision leads to no commit. -/
inductive RevisionError where
  | malformed
  | unknown (name : String)
  | tooShort
  | ambiguous
  | noSuchParent (n : Nat)
  | notA (kind : String) (id : String)
  | noSuchPath (path : String)
deriving DecidableEq, Repr

/-- The wording of a failure to resolve a text. -/
def RevisionError.message (text : String) : RevisionError → String
  | malformed => "failed to parse revision specifier - Invalid pattern '" ++ text ++ "'"
  | unknown name => "revspec '" ++ name ++ "' not found"
  | tooShort => "ambiguous lookup - OID prefix is too short"
  | ambiguous => "ambiguous lookup - multiple matches for prefix"
  | noSuchParent n => "parent " ++ n.repr ++ " does not exist"
  | notA kind id =>
    "the git_object of id '" ++ id ++ "' can not be successfully peeled into a " ++ kind
  | noSuchPath path => "the path '" ++ path ++ "' does not exist in the given tree"

/-! ## Names -/

/-- Whether a character may stand in the name of a reference. -/
def isNameChar (c : Char) : Bool :=
  32 < c.toNat && c.toNat != 127 && !"~^:?*[\\".toList.contains c

/-- Whether a text may be a part of the name of a reference. -/
def isNamePart (part : List Char) : Bool :=
  !part.isEmpty && part.head? != some '.' && !".lock".toList.isSuffixOf part

/-- Whether a text may be the name of a reference. -/
def isName (name : String) : Bool :=
  let cs := name.toList
  cs.all isNameChar && (splitSlashes cs).all isNamePart && cs.getLast? != some '.' &&
    !Text.hasInfix ".." name && !Text.hasInfix "@\x7b" name

/-- The full names that a name may be short for. -/
def fullNames (name : String) : List String :=
  [name, "refs/" ++ name, "refs/tags/" ++ name, "refs/heads/" ++ name, "refs/remotes/" ++ name]

/-- The digits of an id or of its beginning, in lower case. -/
def idDigits? (text : String) : Option (List Char) :=
  let cs := text.toList
  if cs.all (Text.hexDigit? · |>.isSome) then some (cs.map Char.toLower) else none

/-- The number of digits of an id. -/
def idLength : Nat := 40

/-- So many digits are needed to find an id by its beginning. -/
def leastDigits : Nat := 4

variable (r : Repository)

/-- What an id belongs to. -/
def atId? (id : String) : Option Target :=
  if (r.find? id).isSome then some (.commit id)
  else if r.otherIds.contains id then some (.other id)
  else none

/-- What the only id that begins with some digits belongs to. -/
def abbreviated (digits : List Char) : Except RevisionError (Option Target) :=
  if digits.length < leastDigits then .error .tooShort
  else
    let ids := (r.commits.map (·.commit.id) ++ r.otherIds).eraseDups
    match ids.filter fun id => digits.isPrefixOf id.toList with
    | [] => .ok none
    | [id] => .ok (r.atId? id)
    | _ => .error .ambiguous

/-- The digits at the end of a name that describes a commit by a tag, a number and the beginning of
its id. -/
def describedDigits? (name : String) : Option (List Char) := do
  let (front, back) ← Text.cutLast "-g" name
  let (tag, number) ← Text.cutLast "-" front
  let digits ← idDigits? back
  if tag ≠ "" ∧ number ≠ "" ∧ number.toList.all Char.isDigit ∧ !digits.isEmpty then some digits
  else none

/-- What a name leads to: an id, a reference, or what the beginning of an id belongs to. -/
def lookUp (name : String) : Except RevisionError Target := do
  let digits := idDigits? name
  let full :=
    if name.length = idLength then digits.bind fun ds => r.atId? (String.ofList ds) else none
  if let some t := full then return t
  if !isName name then throw .malformed
  if let some t := (fullNames name).findSome? r.target? then return t
  if let some ds := digits then
    if name.length < idLength then
      if let some t := ← r.abbreviated ds then return t
  if let some ds := describedDigits? name then
    if let some t := ← r.abbreviated ds then return t
  throw (.unknown name)

/-! ## Steps -/

/-- The commit that is meant. -/
def commitOf : Target → Except RevisionError String
  | .commit id => .ok id
  | .tag id => .ok id
  | .other id => .error (.notA "commit" id)

/-- The parents of a commit. -/
def parentsOf (id : String) : List String :=
  (r.find? id).elim [] (·.commit.parents)

/-- So many steps along first parents. -/
def ancestor : Nat → String → Except RevisionError String
  | 0, id => .ok id
  | n + 1, id =>
    match (r.parentsOf id).head? with
    | some p => ancestor n p
    | none => .error (.noSuchParent 0)

/-- Something of a kind. -/
def peel (t : Target) : String → Except RevisionError Target
  | "" => do
    match t with
    | .tag id => return .commit id
    | t => return t
  | "commit" => do return .commit (← commitOf t)
  | "tag" => do
    match t with
    | .tag id => return .tag id
    | .commit id => throw (.notA "tag" id)
    | .other id => throw (.notA "tag" id)
  | "tree" => do
    let id ← commitOf t
    match r.find? id with
    | some c => return .other c.files.id.text
    | none => throw (.notA "tree" id)
  | "blob" => do throw (.notA "blob" (← commitOf t))
  | _ => .error .malformed

/-- A file of a commit. -/
def fileOf (t : Target) (path : String) : Except RevisionError Target := do
  let id ← commitOf t
  match (r.find? id).bind (·.files.at? path) with
  | some e => return .other e.id.text
  | none => throw (.noSuchPath path)

/-- What a step leads to. -/
def follow (t : Target) : Step → Except RevisionError Target
  | .parent 0 => do return .commit (← commitOf t)
  | .parent (n + 1) => do
    match (r.parentsOf (← commitOf t))[n]? with
    | some p => return .commit p
    | none => throw (.noSuchParent n)
  | .ancestor n => do return .commit (← r.ancestor n (← commitOf t))
  | .peel kind => r.peel t kind
  | .path path => r.fileOf t path
  | .malformed => .error .malformed

/-- The commit of a revision. -/
def commitAt (revision : Revision) : Except RevisionError String := do
  if revision.name = "" then throw .malformed
  commitOf (← revision.steps.foldlM r.follow (← r.lookUp revision.name))

end ChangeImpact.Repository
