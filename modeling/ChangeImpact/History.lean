import ChangeImpact.Commit.Metadata
import ChangeImpact.Error

/-!
# Histories

* `History` — what is asked of the history of a project;
* `RecordedHistory` — a history whose answers are all written down.
-/

namespace ChangeImpact

/-- The history of a project. -/
structure History where
  /-- The commit that a branch, a tag or another name stands for. -/
  resolve : String → Except HistoryError String
  /-- The commits that can be reached from one, the newest first, as far as the filter goes. -/
  list : String → CommitFilter → Except HistoryError (List Commit)
  /-- A commit by its name. -/
  commit : String → Except HistoryError Commit
  /-- The files that differ between two commits and whose new paths are accepted. -/
  diff : String → String → (String → Bool) → Except HistoryError (List FileDiff)
  /-- What a file holds at a commit, if there is such a file. -/
  content : String → String → Except HistoryError (Option ByteArray)

/-- The files that differ between two commits. -/
structure RecordedDiff where
  source : String
  target : String
  files : List FileDiff
deriving DecidableEq, Repr

/-- What a file holds at a commit. -/
structure RecordedFile where
  revision : String
  path : String
  content : ByteArray

/-- A history that is written down. -/
structure RecordedHistory where
  /-- The newest first. -/
  commits : List Commit
  refs : List (String × String)
  diffs : List RecordedDiff
  files : List RecordedFile
  /-- Why commits cannot be listed. -/
  walkError : Option String
  /-- Commits and paths that cannot be read. -/
  unreadable : List (String × String)

namespace RecordedHistory

variable (h : RecordedHistory)

/-- The commit of a name. -/
def find? (id : String) : Option Commit :=
  h.commits.find? (·.id == id)

/-- A reference, or the name of a commit. -/
def resolve (name : String) : Except HistoryError String :=
  match List.lookup name h.refs with
  | some id => .ok id
  | none =>
    if (h.find? name).isSome then .ok name
    else .error (.unresolvedRef name "no such reference")

/-- The commits from one on. -/
def list (head : String) (filter : CommitFilter) : Except HistoryError (List Commit) :=
  match h.walkError with
  | some message => .error (.walk message)
  | none =>
    if (h.find? head).isNone then .error (.commitNotFound head)
    else .ok (filter.select (h.commits.dropWhile (·.id != head)))

/-- A commit by its name. -/
def commit (id : String) : Except HistoryError Commit :=
  match h.find? id with
  | some c => .ok c
  | none => .error (.commitNotFound id)

/-- The files of the first difference that is recorded for two commits. -/
def diff (source target : String) (accept : String → Bool) : Except HistoryError (List FileDiff) :=
  match h.diffs.find? fun d => d.source == source && d.target == target with
  | some d => .ok (d.files.filter (accept ·.path))
  | none => .error (.diff source target "no such diff")

/-- The first recorded content of a file at a commit. -/
def content (revision path : String) : Except HistoryError (Option ByteArray) :=
  if h.unreadable.contains (revision, path) then
    .error (.unreadableFile path revision "unreadable")
  else .ok ((h.files.find? fun f => f.revision == revision && f.path == path).map (·.content))

/-- The answers that are written down. -/
def history : History where
  resolve := h.resolve
  list := h.list
  commit := h.commit
  diff := h.diff
  content := h.content

end RecordedHistory

end ChangeImpact
