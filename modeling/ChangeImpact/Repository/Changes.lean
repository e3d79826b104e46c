import ChangeImpact.Repository.LineDiff
import ChangeImpact.Repository.Similarity
import ChangeImpact.Repository.Snapshot
import ChangeImpact.SortedSet

/-!
# Changes between snapshots

* `Delta` — an entry that is added, deleted or modified;
* `deltas` — what differs between two snapshots, path by path;
* `pairings` — which deleted files go on living under a new path;
* `fileDiffs` — the files on the new side, with their hunks.
-/

namespace ChangeImpact.Repository

/-- An entry that differs. -/
inductive Delta where
  | added (new : Entry)
  | deleted (old : Entry)
  | modified (old new : Entry)
deriving DecidableEq, Repr

/-- What differs at a path. An entry that becomes one of another kind is deleted and added. -/
def deltaAt : Option Entry → Option Entry → List Delta
  | none, none => []
  | some old, none => [.deleted old]
  | none, some new => [.added new]
  | some old, some new =>
    if old.kind = new.kind ∧ old.id = new.id then []
    else if old.kind.isLike new.kind then [.modified old new]
    else [.deleted old, .added new]

/-- What differs between two snapshots, the paths ascending. -/
def deltas (old new : Snapshot) : List Delta :=
  (sortedSet ((old ++ new).map (·.path))).flatMap fun path => deltaAt (old.at? path) (new.at? path)

/-! ## Renames -/

/-- A deleted file and an added one that are taken for the same. -/
structure Pairing where
  source : Entry
  target : Entry
  score : Nat
deriving DecidableEq, Repr

/-- How similar two files are. -/
def score? (source target : Entry) : Option Nat :=
  if source.id = target.id then some 100 else similarity? source.content target.content

/-- Pairs two files if they are more similar than each is to the one that it is paired with; those
pairings are given up. Says whether one was. -/
def offer (found : List Pairing × Bool) (source target : Entry) (score : Nat) :
    List Pairing × Bool :=
  let (pairs, bumped) := found
  let (rivals, others) := pairs.partition fun p => p.source == source || p.target == target
  if 0 < score && rivals.all (·.score < score) then
    (others ++ [⟨source, target, score⟩], bumped || !rivals.isEmpty)
  else found

/-- Offers every pair with its score once. -/
def offerAll (scores : List Pairing) (pairs : List Pairing) : List Pairing × Bool :=
  scores.foldl (fun found p => offer found p.source p.target p.score) (pairs, false)

/-- Offers until no pairing is given up, `n` times at most. -/
def settle (scores : List Pairing) : Nat → List Pairing → List Pairing
  | 0, pairs => pairs
  | n + 1, pairs =>
    let (pairs, bumped) := offerAll scores pairs
    if bumped then settle scores n pairs else pairs

/-- Files less similar than this are different files. -/
def leastSimilarity : Nat := 50

/-- The files that are deleted. -/
def sources (ds : List Delta) : List Entry :=
  ds.filterMap fun
    | .deleted e => if e.kind.isFile then some e else none
    | _ => none

/-- The files that are added. -/
def targets (ds : List Delta) : List Entry :=
  ds.filterMap fun
    | .added e => if e.kind.isFile then some e else none
    | _ => none

/-- The deleted files that go on under a new path. -/
def pairings (ds : List Delta) : List Pairing :=
  let scores := (targets ds).flatMap fun t => (sources ds).filterMap fun s =>
    (score? s t).map fun n => ⟨s, t, n⟩
  (settle scores (scores.length + 1) []).filter (leastSimilarity ≤ ·.score)

/-! ## Files -/

/-- A path with slashes only. -/
def slashed (path : String) : String :=
  String.ofList (path.toList.map fun c => if c = '\\' then '/' else c)

/-- The hunks between two entries. -/
def entryHunks (old : Option Entry) (new : Entry) : List Hunk :=
  if old.any (·.id == new.id) then [] else hunks ((old.map (·.shown)).getD []) new.shown

/-- The file on the new side of a delta. -/
def Delta.file? (pairs : List Pairing) : Delta → Option FileDiff
  | .deleted _ => none
  | .modified old new => some ⟨slashed new.path, none, .modified, entryHunks (some old) new⟩
  | .added new =>
    match pairs.find? (·.target == new) with
    | some p =>
      some ⟨slashed new.path, some (slashed p.source.path), .renamed,
        entryHunks (some p.source) new⟩
    | none => some ⟨slashed new.path, none, .added, entryHunks none new⟩

/-- The files on the new side that differ, with those whose paths are accepted. -/
def fileDiffs (old new : Snapshot) (accept : String → Bool) : List FileDiff :=
  let ds := deltas old new
  (ds.filterMap (Delta.file? (pairings ds))).filter (accept ·.path)

end ChangeImpact.Repository
