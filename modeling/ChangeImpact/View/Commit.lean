import ChangeImpact.Commit.Encoding
import ChangeImpact.Event
import ChangeImpact.Inspection.Report
import ChangeImpact.Json.Access
import ChangeImpact.View.Config
import ChangeImpact.View.Error

/-!
# Commits, events and reports as JSON
-/

namespace ChangeImpact.View

open Json

/-- The author of a commit. -/
def asAuthor? (j : Json) : Option Author := do
  return ⟨← need asStr? j "name", ← need asStr? j "email"⟩

/-- A time in seconds. -/
def asInstant? (j : Json) : Option Instant := do
  Instant.ofSeconds? (← asI64? j)

/-- A commit. -/
def asCommit? (j : Json) : Option Commit := do
  let timestamp ← optD asInstant? j "timestamp" ⟨0, 0⟩
  return {
    id := ← need asStr? j "id"
    parents := ← listOf asStr? j "parents"
    message := ← optD asStr? j "message" ""
    author := ← optD asAuthor? j "author" ⟨"", ""⟩
    timestamp := timestamp
    committedAt := ← optD asInstant? j "committed_at" timestamp }

/-- Which commits are taken. -/
def asFilter? (j : Json) : Option CommitFilter := do
  let _ ← asObj? j
  return ⟨← opt asU64? j "max_count", ← opt asDate? j "since"⟩

/-- A commit. -/
def commitJson (c : Commit) : Json :=
  .obj [("id", .str c.id), ("parents", Json.strs c.parents),
    ("first_parent", optStrJson c.firstParent), ("message", .str c.message),
    ("author", Author.toJson c.author), ("timestamp", .str c.timestamp.text),
    ("committed_at", .str c.committedAt.text)]

/-- What an event says. -/
def eventDetail : Event → List Json
  | .inspectionStarted branch selected => [.str branch, .nat selected]
  | .cacheHit commit => [.str commit]
  | .commitAnalyzed commit changed impacted risk =>
    [.str commit, .nat changed, .nat impacted, .nat risk]
  | .commitFailed commit error => [.str commit, .str error]
  | .inspectionComplete analyzed hits failed cancelled =>
    [.nat analyzed, .nat hits, .nat failed, .bool cancelled]

/-- An event that an observer was told. -/
def noteJson (n : Note) : Json :=
  .obj [("handler", .nat n.observer), ("event", .str n.event.kind.name),
    ("detail", .arr (eventDetail n.event))]

/-- The figures of a report. -/
def batchMembers (r : Inspection.Report) : List (String × Json) :=
  [("failures", .arr (r.failures.map failureJson)), ("selected", .nat r.selected),
    ("analyzed", .nat r.analyzed), ("cache_hits", .nat r.cacheHits),
    ("cancelled", .bool r.cancelled), ("failed", .nat r.failed), ("not_run", .nat r.notRun),
    ("skipped_files", .nat r.skippedFiles), ("files_seen", .nat r.filesSeen),
    ("skipped_fraction", floatJson r.skippedFraction),
    ("skipped_file_fraction", floatJson r.skippedFileFraction)]

end ChangeImpact.View
