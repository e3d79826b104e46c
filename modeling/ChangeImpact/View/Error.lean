import ChangeImpact.Error
import ChangeImpact.Json.Access

/-!
# Errors as JSON
-/

namespace ChangeImpact.View

open Json

/-- An error as its kind, its wording and its code. -/
def errorJson (kind message code : String) : Json :=
  .obj [("error", .str kind), ("message", .str message), ("code", .str code)]

/-- A fault in settings. Text that cannot be read is shown by its place only. -/
def configErrorJson (e : ConfigError) : Json :=
  match e with
  | .fileNotFound _ => errorJson "FileNotFound" e.message e.code
  | .parseError path _ =>
    .obj [("error", .str "ParseError"), ("path", .str path), ("code", .str e.code)]
  | .validationFailed _ _ => errorJson "ValidationFailed" e.message e.code
  | .invalidValue _ _ => errorJson "InvalidValue" e.message e.code

/-- The kind of a failure to read a source file. -/
def sourceErrorKind : SourceError → String
  | .unsupported _ => "UnsupportedLanguage"
  | .grammarUnavailable _ _ => "GrammarLoad"
  | .unreadable _ _ => "TreeSitter"
  | .invalidEncoding _ => "InvalidEncoding"

/-- The kind of a failure of a history. -/
def historyErrorKind : HistoryError → String
  | .repositoryOpen _ _ => "RepositoryOpen"
  | .unresolvedRef _ _ => "UnresolvedRef"
  | .commitNotFound _ => "CommitNotFound"
  | .noParent _ => "NoParent"
  | .diff _ _ _ => "Diff"
  | .unreadableFile _ _ _ => "ReadFile"
  | .walk _ => "Walk"

/-- A failure of a history. -/
def historyErrorJson (e : HistoryError) : Json :=
  errorJson (historyErrorKind e) e.message e.code

/-- The kind of a failure of a cache. -/
def storageErrorKind : StorageError → String
  | .io _ _ => "Io"
  | .serialize _ _ => "Serialize"
  | .corrupt _ _ => "Corrupt"

/-- A failure of a cache. -/
def storageErrorJson (e : StorageError) : Json :=
  errorJson (storageErrorKind e) e.message e.code

/-- The kind of an error. -/
def pipelineErrorKind : PipelineError → String
  | .config _ => "Config"
  | .source _ => "Parse"
  | .history _ => "History"
  | .storage _ => "Storage"
  | .commit _ _ => "Commit"
  | .workerPool _ => "WorkerPool"
  | .cancelled => "Cancelled"

/-- The members of an error, the commit among them. -/
def pipelineErrorMembers (e : PipelineError) : List (String × Json) :=
  [("error", .str (pipelineErrorKind e)), ("message", .str e.message), ("code", .str e.code),
    ("commit", optStrJson e.atCommit?)]

/-- An error. -/
def pipelineErrorJson (e : PipelineError) : Json := .obj (pipelineErrorMembers e)

/-- The failure of a commit. -/
def failureJson (f : CommitFailure) : Json :=
  .obj [("commit", .str f.commit), ("code", .str f.code), ("message", .str f.message)]

/-- The members of a failure to read a source file. -/
def sourceErrorMembers (e : SourceError) : List (String × Json) :=
  [("error", .str (sourceErrorKind e)), ("message", .str e.message), ("code", .str e.code)]

end ChangeImpact.View
