import ChangeImpact.Error
import ChangeImpact.Time.Date

/-!
# Settings of an inspection
-/

namespace ChangeImpact.Config

/-- Which commits of which branch are inspected, and where results are kept. -/
structure Inspect where
  branch : String
  /-- Stop after so many commits. -/
  commits : Option Nat
  /-- Stop at the first commit before this day. -/
  since : Option Date
  cacheDir : String
  threads : Option Nat
deriving DecidableEq, Repr

/-- The cache directory where none is set. -/
def defaultCacheDir : String := ".inspect_cache"

/-- The settings for a branch with nothing else set. -/
def Inspect.ofBranch (branch : String) : Inspect :=
  ⟨branch, none, none, defaultCacheDir, none⟩

/-- Why settings are refused. The first fault counts: a blank branch, no bound on the commits, no
commits, no threads. -/
def Inspect.fault? (c : Inspect) : Option ConfigError :=
  if Text.trim c.branch = "" then
    some (.validationFailed "inspect.branch" "a branch name is required")
  else if c.commits = none ∧ c.since = none then
    some (.validationFailed "inspect.commits"
      "either a commit count or a since date is required")
  else if c.commits = some 0 then
    some (.validationFailed "inspect.commits" "must be greater than 0")
  else if c.threads = some 0 then
    some (.validationFailed "inspect.threads" "must be greater than 0")
  else none

end ChangeImpact.Config
