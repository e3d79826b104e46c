import ChangeImpact.Time.Instant

/-!
# Commits

* `Commit` — what a history knows about a commit;
* `CommitFilter` — which commits of a branch are taken;
* `FileDiff` — a file that a change leaves, with the changed lines.
-/

namespace ChangeImpact

/-- Who wrote a commit. -/
structure Author where
  name : String
  email : String
deriving DecidableEq, Repr

/-- A commit of a history. -/
structure Commit where
  id : String
  /-- The first parent first. -/
  parents : List String
  message : String
  author : Author
  /-- When it was written; reports show this. -/
  timestamp : Instant
  /-- When it was committed; histories are ordered by this. -/
  committedAt : Instant
deriving DecidableEq, Repr

/-- The parent that the commit is compared with. -/
def Commit.firstParent (c : Commit) : Option String := c.parents.head?

/-- Which commits are taken: at most so many, and none from before a day. -/
structure CommitFilter where
  maxCount : Option Nat
  since : Option Date
deriving DecidableEq, Repr

namespace CommitFilter

/-- Whether a walk that has taken `taken` commits ends before one of the given time. -/
def stopsAt (f : CommitFilter) (taken : Nat) (committedAt : Instant) : Bool :=
  f.maxCount.any (· ≤ taken) || f.since.any committedAt.date.isBefore

/-- The commits taken after `taken` others, up to the first at which the walk ends. -/
def selectFrom (f : CommitFilter) (taken : Nat) : List Commit → List Commit
  | [] => []
  | c :: cs => if f.stopsAt taken c.committedAt then [] else c :: selectFrom f (taken + 1) cs

/-- The commits taken of a list, the newest first. -/
def select (f : CommitFilter) (cs : List Commit) : List Commit :=
  f.selectFrom 0 cs

end CommitFilter

/-- What happened to a file. -/
inductive ChangeKind where
  | added
  | modified
  | renamed
deriving DecidableEq, Repr

/-- The name of a kind of change. -/
def ChangeKind.name : ChangeKind → String
  | added => "Added"
  | modified => "Modified"
  | renamed => "Renamed"

/-- The kind of change of a name. -/
def ChangeKind.ofName? : String → Option ChangeKind
  | "Added" => some added
  | "Modified" => some modified
  | "Renamed" => some renamed
  | _ => none

/-- A changed stretch of lines, counted from 1. -/
structure Hunk where
  oldStart : Nat
  oldLength : Nat
  newStart : Nat
  newLength : Nat
deriving DecidableEq, Repr

/-- A file on the new side of a change. -/
structure FileDiff where
  path : String
  oldPath : Option String
  kind : ChangeKind
  hunks : List Hunk
deriving DecidableEq, Repr

end ChangeImpact
