/-!
# What can go wrong

One type for each part of the library, and `PipelineError`, which joins them and can say at which
commit something failed. Every error has a message and a code.
-/

namespace ChangeImpact

/-- Settings that cannot be read or are not allowed. -/
inductive ConfigError where
  | fileNotFound (path : String)
  | parseError (path message : String)
  | validationFailed (field message : String)
  | invalidValue (field message : String)
deriving DecidableEq, Repr

/-- The wording of a fault in settings. -/
def ConfigError.message : ConfigError → String
  | fileNotFound path => "Config file not found: " ++ path
  | parseError path message => "Config parse error in " ++ path ++ ": " ++ message
  | validationFailed field message =>
    "Config validation failed for " ++ field ++ ": " ++ message
  | invalidValue field message => "Invalid config value for " ++ field ++ ": " ++ message

/-- All faults in settings share a code. -/
def ConfigError.code : ConfigError → String := fun _ => "CONFIG_ERROR"

/-- A source file that cannot be read. -/
inductive SourceError where
  | unsupported (path : String)
  | grammarUnavailable (language message : String)
  | unreadable (path message : String)
  | invalidEncoding (path : String)
deriving DecidableEq, Repr

/-- The wording of a failure to read a source file. -/
def SourceError.message : SourceError → String
  | unsupported path => "Unsupported source file: " ++ path
  | grammarUnavailable language message =>
    "Failed to load " ++ language ++ " grammar: " ++ message
  | unreadable path message => "Tree-sitter failed on " ++ path ++ ": " ++ message
  | invalidEncoding path => path ++ " is not valid UTF-8"

/-- The code of a failure to read a source file. -/
def SourceError.code : SourceError → String
  | unsupported _ => "UNSUPPORTED_LANGUAGE"
  | _ => "PARSE_ERROR"

/-- A history that does not give what is asked of it. -/
inductive HistoryError where
  | repositoryOpen (path message : String)
  | unresolvedRef (name message : String)
  | commitNotFound (id : String)
  | noParent (id : String)
  | diff (source target message : String)
  | unreadableFile (path revision message : String)
  | walk (message : String)
deriving DecidableEq, Repr

/-- The wording of a failure of a history. -/
def HistoryError.message : HistoryError → String
  | repositoryOpen path message => "Cannot open repository at " ++ path ++ ": " ++ message
  | unresolvedRef name message => "Cannot resolve reference '" ++ name ++ "': " ++ message
  | commitNotFound id => "Commit not found: " ++ id
  | noParent id => "Commit " ++ id ++ " has no parent to diff against"
  | diff source target message => "Diff " ++ source ++ ".." ++ target ++ " failed: " ++ message
  | unreadableFile path revision message =>
    "Cannot read " ++ path ++ " at " ++ revision ++ ": " ++ message
  | walk message => "History walk failed: " ++ message

/-- The code of a failure of a history. -/
def HistoryError.code : HistoryError → String
  | unresolvedRef _ _ => "UNRESOLVED_REF"
  | _ => "HISTORY_ERROR"

/-- A cache that cannot be read or written. -/
inductive StorageError where
  | io (path message : String)
  | serialize (path message : String)
  | corrupt (path message : String)
deriving DecidableEq, Repr

/-- The wording of a failure of a cache. -/
def StorageError.message : StorageError → String
  | io path message => "Cache I/O error at " ++ path ++ ": " ++ message
  | serialize path message => "Cannot serialize cache entry " ++ path ++ ": " ++ message
  | corrupt path message => "Corrupt cache entry " ++ path ++ ": " ++ message

/-- All failures of a cache share a code. -/
def StorageError.code : StorageError → String := fun _ => "STORAGE_ERROR"

/-- Anything that can go wrong, possibly at a commit. -/
inductive PipelineError where
  | config (e : ConfigError)
  | source (e : SourceError)
  | history (e : HistoryError)
  | storage (e : StorageError)
  | commit (id : String) (cause : PipelineError)
  | workerPool (message : String)
  | cancelled
deriving DecidableEq, Repr

namespace PipelineError

/-- The wording of an error: what it is about, and the wording of its cause. -/
def message : PipelineError → String
  | config e => "Configuration error: " ++ e.message
  | source e => "Parse error: " ++ e.message
  | history e => "History error: " ++ e.message
  | storage e => "Storage error: " ++ e.message
  | commit id cause => "Commit " ++ id ++ " failed: " ++ cause.message
  | workerPool message => "Worker pool error: " ++ message
  | cancelled => "Pipeline cancelled"

/-- The code of an error, which is mostly that of its cause. -/
def code : PipelineError → String
  | config e => e.code
  | source e => e.code
  | history e => e.code
  | storage e => e.code
  | commit _ _ => "COMMIT_FAILED"
  | workerPool _ => "PIPELINE_ERROR"
  | cancelled => "CANCELLED"

/-- The commit at which it failed. -/
def atCommit? : PipelineError → Option String
  | commit id _ => some id
  | _ => none

/-- Says at which commit it failed, unless it is said already. -/
def forCommit (e : PipelineError) (id : String) : PipelineError :=
  match e with
  | commit _ _ => e
  | _ => commit id e

/-- The code of the cause, without the commit around it. -/
def rootCode : PipelineError → String
  | commit _ cause => cause.code
  | e => e.code

end PipelineError

/-- A message with its code in front. -/
def codedText (code message : String) : String :=
  "[" ++ code ++ "] " ++ message

/-- A commit that could not be analysed, as reports list it. -/
structure CommitFailure where
  commit : String
  code : String
  message : String
deriving DecidableEq, Repr

/-- The entry for an error at a commit; the code is that of the cause. -/
def CommitFailure.ofError (commit : String) (e : PipelineError) : CommitFailure :=
  ⟨commit, e.rootCode, e.message⟩

/-- A value together with errors that did not prevent it. -/
structure Outcome (α : Type) where
  data : α
  errors : List PipelineError
deriving DecidableEq, Repr

/-- A value without errors. -/
def Outcome.pure {α : Type} (a : α) : Outcome α := ⟨a, []⟩

/-- One more error. -/
def Outcome.addError {α : Type} (r : Outcome α) (e : PipelineError) : Outcome α :=
  { r with errors := r.errors ++ [e] }

/-- Whether there are no errors. -/
def Outcome.isClean {α : Type} (r : Outcome α) : Bool := r.errors.isEmpty

end ChangeImpact
