import ChangeImpact.Repository.Basic

/-!
# The order of a history

The commits that can be reached from one are collected by the times of their commitment, and then
taken out of a heap that has the newest on top. Between commits of equal times the heap decides. A
parent that is missing stops the walk before its first commit.

* `collect` — the commits that can be reached, or the id of one that is missing;
* `Heap.push`, `Heap.pop` — a binary heap of commits;
* `Repository.walk` — the ids of the commits, the newest first.
-/

namespace ChangeImpact.Repository

/-- Whether a commit is newer than another. -/
def isNewer (a b : Commit) : Bool :=
  b.committedAt.seconds < a.committedAt.seconds

/-! ## Reachable commits -/

/-- Puts a commit behind those that are not older. -/
def insertByTime (c : Commit) : List Commit → List Commit
  | [] => [c]
  | d :: ds => if isNewer c d then c :: d :: ds else d :: insertByTime c ds

/-- The commits that can be reached from those that wait, at most `n`; or the id of the first parent
that is missing. -/
def collect (find? : String → Option Commit) :
    Nat → List String → List Commit → Except String (List Commit)
  | 0, _, _ => .ok []
  | _ + 1, _, [] => .ok []
  | n + 1, seen, c :: waiting => do
    let new := c.parents.eraseDups.filter (!seen.contains ·)
    let parents ← new.mapM fun id => (find? id).elim (.error id) .ok
    let waiting := parents.foldl (fun w p => insertByTime p w) waiting
    let rest ← collect find? n (seen ++ new) waiting
    return c :: rest

/-! ## The heap -/

/-- Commits in the levels of a binary tree; none is newer than the one above it. -/
structure Heap where
  commits : Array Commit
deriving DecidableEq, Repr

namespace Heap

/-- Moves the commit at a place up while it is newer than the one above it. -/
def rise (h : Array Commit) : Nat → Array Commit
  | 0 => h
  | i + 1 =>
    match h[i / 2]?, h[i + 1]? with
    | some a, some c => if isNewer c a then rise (h.swapIfInBounds (i / 2) (i + 1)) (i / 2) else h
    | _, _ => h
termination_by i => i
decreasing_by omega

/-- The newer of the two commits below a place; of equals, the left one. -/
def newerBelow? (h : Array Commit) (i : Nat) : Option (Nat × Commit) :=
  match h[2 * i + 1]?, h[2 * i + 2]? with
  | some l, some r => if isNewer r l then some (2 * i + 2, r) else some (2 * i + 1, l)
  | some l, none => some (2 * i + 1, l)
  | none, _ => none

/-- Moves the commit at a place down while one below it is newer, `n` levels at most. -/
def sink : Nat → Array Commit → Nat → Array Commit
  | 0, h, _ => h
  | n + 1, h, i =>
    match h[i]?, newerBelow? h i with
    | some c, some (j, d) => if isNewer d c then sink n (h.swapIfInBounds i j) j else h
    | _, _ => h

/-- The heap with one more commit. -/
def push (h : Heap) (c : Commit) : Heap :=
  ⟨rise (h.commits.push c) h.commits.size⟩

/-- The newest commit, and the heap without it: the last commit takes its place and sinks. -/
def pop (h : Heap) : Option (Commit × Heap) :=
  match h.commits[0]? with
  | none => none
  | some top =>
    let rest := (h.commits.swapIfInBounds 0 (h.commits.size - 1)).pop
    some (top, ⟨sink rest.size rest 0⟩)

/-- The first `n` commits that are taken out. -/
def drain : Nat → Heap → List Commit
  | 0, _ => []
  | n + 1, h =>
    match h.pop with
    | none => []
    | some (c, h) => c :: drain n h

end Heap

/-! ## The walk -/

/-- The ids of the commits that can be reached from one, the newest first. If one of them is missing
then the walk starts with it, and whoever follows the walk does not find it. -/
def walk (r : Repository) (head : Commit) : List String :=
  let found? := fun id => (r.find? id).map (·.commit)
  match collect found? r.commits.length [head.id] [head] with
  | .error id => [id]
  | .ok reached =>
    (Heap.drain reached.length (reached.foldl Heap.push ⟨#[]⟩)).map (·.id)

end ChangeImpact.Repository
