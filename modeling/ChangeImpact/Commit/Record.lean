import ChangeImpact.Commit.Metadata
import ChangeImpact.Coverage.Gap
import ChangeImpact.Impact.Analysis
import ChangeImpact.Json.Value

/-!
# The record of a commit

What is learned about one commit. Records are made once, kept in the cache and never changed.
-/

namespace ChangeImpact

/-- Everything learned about a commit. -/
structure CommitRecord where
  id : String
  shortId : String
  message : String
  author : Author
  timestamp : Instant
  /-- How many source files the commit touches. -/
  changedFiles : Nat
  changedMethods : List Method
  /-- How many of the files could not be analysed. -/
  skippedFiles : Nat
  impactedMethods : List Method
  impactedTests : Impact.ByOwner
  gaps : List Coverage.Gap
  coverage : Coverage.Stats
  risk : Nat
  /-- What the classifiers say, by their names, which ascend. -/
  classifications : List (String × Json)

/-- How many tests the commit reaches. -/
def CommitRecord.testCount (r : CommitRecord) : Nat :=
  Impact.testCount r.impactedTests

end ChangeImpact
