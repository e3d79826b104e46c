import ChangeImpact.Commit.Metadata

/-!
# Changed lines

Two texts are compared line by line. As many lines as possible are kept, and what lies between kept
lines is a hunk.

* `splitLines` — the lines of some bytes, each with its line feed;
* `Script.between` — the edits that lead from one list of lines to another;
* `hunks` — the hunks of two contents.
-/

namespace ChangeImpact.Repository

/-- The lines of some bytes. A line ends behind its line feed, and the last one may lack it. -/
def splitLines : List UInt8 → List (List UInt8)
  | [] => []
  | b :: bs =>
    if b = 10 then [b] :: splitLines bs
    else
      match splitLines bs with
      | line :: lines => (b :: line) :: lines
      | [] => [[b]]

/-- Whether content is shown as lines: among its first bytes is no zero. -/
def isText (content : List UInt8) : Bool :=
  !(content.take 8000).contains 0

/-! ## Edits -/

/-- One step from the old lines to the new ones. -/
inductive Edit where
  | keep
  | delete
  | insert
deriving DecidableEq, Repr

/-- Edits, with the number of lines that they keep. -/
structure Script where
  kept : Nat
  edits : List Edit
deriving DecidableEq, Repr

namespace Script

/-- The script that inserts so many lines. -/
def inserts (n : Nat) : Script := ⟨0, List.replicate n .insert⟩

/-- Keeps a line first. -/
def keep (s : Script) : Script := ⟨s.kept + 1, .keep :: s.edits⟩

/-- Deletes a line first. -/
def delete (s : Script) : Script := ⟨s.kept, .delete :: s.edits⟩

/-- Inserts a line first. -/
def insert (s : Script) : Script := ⟨s.kept, .insert :: s.edits⟩

variable {α : Type} [DecidableEq α]

/-- The best scripts for an old line and what follows it, one for each end of the new lines, from
the best scripts for what follows it. -/
def extend (line : α) : List α → List Script → List Script
  | n :: ns, s :: below =>
    let row := extend line ns below
    let next :=
      match row, below with
      | right :: _, diagonal :: _ =>
        if line = n then diagonal.keep
        else if s.kept ≥ right.kept then s.delete
        else right.insert
      | _, _ => s.delete
    next :: row
  | _, s :: _ => [s.delete]
  | _, [] => []

/-- The best scripts, one for each end of the new lines. -/
def table (new : List α) : List α → List Script
  | [] => (List.range (new.length + 1)).reverse.map inserts
  | line :: old => extend line new (table new old)

/-- A script that keeps as many lines as possible. -/
def between (old new : List α) : Script :=
  (table new old).headD (inserts 0)

end Script

/-! ## Hunks -/

/-- The number at which a stretch of lines starts: the lines before it are counted, and an empty
stretch has the number of the line that it follows. -/
def startOf (before length : Nat) : Nat :=
  if length = 0 then before else before + 1

/-- The hunk of a stretch behind so many old and new lines; none if the stretch is empty. -/
def hunkOf (old new deleted inserted : Nat) : List Hunk :=
  if deleted = 0 ∧ inserted = 0 then []
  else [⟨startOf old deleted, deleted, startOf new inserted, inserted⟩]

/-- The hunks of edits behind so many old and new lines, with an open stretch. -/
def hunksFrom (old new deleted inserted : Nat) : List Edit → List Hunk
  | [] => hunkOf old new deleted inserted
  | .keep :: es =>
    hunkOf old new deleted inserted ++ hunksFrom (old + deleted + 1) (new + inserted + 1) 0 0 es
  | .delete :: es => hunksFrom old new (deleted + 1) inserted es
  | .insert :: es => hunksFrom old new deleted (inserted + 1) es

/-- The length of the common beginning of two lists. -/
def commonLength {α : Type} [DecidableEq α] : List α → List α → Nat
  | a :: as, b :: bs => if a = b then commonLength as bs + 1 else 0
  | _, _ => 0

/-- The hunks of two lists of lines. Equal lines at the beginning and at the end are kept. -/
def lineHunks (old new : List (List UInt8)) : List Hunk :=
  let first := commonLength old new
  let old := old.drop first
  let new := new.drop first
  let last := commonLength old.reverse new.reverse
  let script := Script.between (old.take (old.length - last)) (new.take (new.length - last))
  hunksFrom first first 0 0 script.edits

/-- The hunks of two contents; none if one of them is not text. -/
def hunks (old new : List UInt8) : List Hunk :=
  if isText old && isText new then lineHunks (splitLines old) (splitLines new) else []

end ChangeImpact.Repository
