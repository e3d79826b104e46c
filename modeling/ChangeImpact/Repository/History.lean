import ChangeImpact.History
import ChangeImpact.Repository.Changes
import ChangeImpact.Repository.Revision
import ChangeImpact.Repository.Walk

/-!
# The history of a repository

* `Repository.history` — what a repository answers;
* `History.unavailable` — a history that cannot be opened any more.
-/

namespace ChangeImpact

/-- A history that answers everything by an error. -/
def History.unavailable (e : HistoryError) : History where
  resolve _ := .error e
  list _ _ := .error e
  commit _ := .error e
  diff _ _ _ := .error e
  content _ _ := .error e

/-- The error of a repository whose directory is gone. -/
def Repository.gone (place : String) : HistoryError :=
  .repositoryOpen place ("failed to resolve path '" ++ place ++ "': No such file or directory")

/-- The error of a directory that is in no repository. -/
def Repository.notFoundFrom (place : String) : HistoryError :=
  .repositoryOpen place ("could not find repository at '" ++ place ++ "'")

namespace Repository

variable (r : Repository)

/-- The id that a text stands for: at most forty digits, and zeros behind them. -/
def idOf? (text : String) : Option String := do
  let digits ← idDigits? text
  if digits.isEmpty ∨ idLength < digits.length then none
  else some (String.ofList (digits ++ List.replicate (idLength - digits.length) '0'))

/-- The commit of an id. -/
def stored (id : String) : Except HistoryError Stored :=
  match (idOf? id).bind r.find? with
  | some c => .ok c
  | none => .error (.commitNotFound id)

/-- The error of an id that belongs to nothing. -/
def missingMessage (id : String) : String :=
  "object not found - no match for id (" ++ id ++ ")"

/-- The commits of a walk that has taken so many, as far as the filter goes. -/
def listFrom (filter : CommitFilter) (taken : Nat) : List String → Except HistoryError (List Commit)
  | [] => .ok []
  | id :: ids =>
    match r.find? id with
    | none => .error (.walk (missingMessage id))
    | some c =>
      if filter.stopsAt taken c.commit.committedAt then .ok []
      else do return c.commit :: (← listFrom filter (taken + 1) ids)

/-- The commits that can be reached from one. -/
def list (head : String) (filter : CommitFilter) : Except HistoryError (List Commit) :=
  match idOf? head with
  | none => .error (.commitNotFound head)
  | some id =>
    match r.find? id with
    | none => .error (.walk (missingMessage id))
    | some c => r.listFrom filter 0 (r.walk c.commit)

/-- The commit of a revision. -/
def resolve (name : String) : Except HistoryError String :=
  (r.commitAt (.parse name)).mapError fun e => .unresolvedRef name (e.message name)

/-- The files that differ between two commits. -/
def diff (source target : String) (accept : String → Bool) :
    Except HistoryError (List FileDiff) := do
  let old ← r.stored source
  let new ← r.stored target
  return fileDiffs old.files new.files accept

/-- What a file holds. Of another repository nothing can be read. -/
def content (revision path : String) : Except HistoryError (Option ByteArray) := do
  let c ← r.stored revision
  if path.toList.contains '\x00' then
    throw (.unreadableFile path revision "data contained a nul byte")
  match c.files.at? path with
  | none => return none
  | some e =>
    if e.kind = .submodule then
      throw (.unreadableFile path revision (missingMessage e.id.text))
    else return some ⟨e.content.toArray⟩

/-- What a repository answers. -/
def history : History where
  resolve := r.resolve
  list := r.list
  commit id := (r.stored id).map (·.commit)
  diff := r.diff
  content := r.content

end Repository

end ChangeImpact
