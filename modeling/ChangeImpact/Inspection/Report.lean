import ChangeImpact.Commit.Record
import ChangeImpact.Error

/-!
# The report of an inspection
-/

namespace ChangeImpact.Inspection

/-- What an inspection found. -/
structure Report where
  /-- The newest first; equal times by commit id. -/
  impacts : List CommitRecord
  failures : List CommitFailure
  /-- How many commits were chosen. -/
  selected : Nat
  /-- How many were computed. -/
  analyzed : Nat
  /-- How many were taken from the cache. -/
  cacheHits : Nat
  cancelled : Bool

namespace Report

/-- How many commits failed. -/
def failed (r : Report) : Nat := r.failures.length

/-- How many commits were never tried. -/
def notRun (r : Report) : Nat := r.selected - (r.analyzed + r.cacheHits + r.failed)

/-- A quotient; 0 when there is nothing to divide by. -/
def fraction (a b : Nat) : Float :=
  if b = 0 then 0 else a.toFloat / b.toFloat

/-- The share of the chosen commits that have no record. -/
def skippedFraction (r : Report) : Float :=
  fraction (r.selected - r.impacts.length) r.selected

/-- Files that could not be analysed, over all records. -/
def skippedFiles (r : Report) : Nat := r.impacts.foldr (·.skippedFiles + ·) 0

/-- Changed files, over all records. -/
def filesSeen (r : Report) : Nat := r.impacts.foldr (·.changedFiles + ·) 0

/-- The share of the changed files that could not be analysed. -/
def skippedFileFraction (r : Report) : Float :=
  fraction r.skippedFiles r.filesSeen

end Report

end ChangeImpact.Inspection
