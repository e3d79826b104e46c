import ChangeImpact.Config.Settings
import ChangeImpact.FileTree

/-!
# Where settings come from

From the weakest to the strongest layer: the user's file, the project's file, environment
variables, and what the caller overrides. The result has to be free of faults.
-/

namespace ChangeImpact.Config

/-- What a path leads to, as far as settings are concerned. -/
inductive FileState where
  | absent
  | directory
  | file (bytes : ByteArray)
  /-- A file that may not be read. -/
  | locked
  /-- A file in a place that may not be searched: it cannot even be asked for. -/
  | hidden

/-- What is around a run: variables, and files by their paths. -/
structure Surroundings where
  environment : List (String × String)
  files : String → FileState

/-- The value of a variable. -/
def Surroundings.valueOf? (s : Surroundings) (name : String) : Option String :=
  List.lookup name s.environment

/-- Settings that the caller overrides. -/
structure Overrides where
  branch : Option String := none
  commits : Option Nat := none
  since : Option String := none
  maxDepth : Option Nat := none
  scope : Option String := none
  cacheDir : Option String := none
  threads : Option Nat := none
deriving DecidableEq, Repr, Inhabited

/-- The layer of overrides. -/
def Overrides.layer (o : Overrides) : Settings where
  analysis := { maxDepth := o.maxDepth, scope := o.scope }
  inspect := { branch := o.branch, commits := o.commits, since := o.since, cacheDir := o.cacheDir,
               threads := o.threads }

/-- The number that a variable's value spells, in `0 … max`: digits with a plus sign allowed. -/
def parseNumber? (max : Nat) (text : String) : Option Nat :=
  let digits := match text.toList with
    | '+' :: cs => cs
    | cs => cs
  if digits.isEmpty || !digits.all Char.isDigit then none
  else
    let n := digits.foldl (fun n c => n * 10 + (c.toNat - '0'.toNat)) 0
    if n ≤ max then some n else none

/-- The layer of environment variables. A value that spells no number counts as unset. -/
def Surroundings.layer (s : Surroundings) : Settings where
  analysis :=
    { maxDepth := (s.valueOf? "RIPPLE_ANALYSIS_MAX_DEPTH").bind (parseNumber? maxWord32)
      maxFiles := (s.valueOf? "RIPPLE_ANALYSIS_MAX_FILES").bind (parseNumber? maxWord64)
      scope := s.valueOf? "RIPPLE_ANALYSIS_SCOPE" }
  inspect :=
    { branch := s.valueOf? "RIPPLE_INSPECT_BRANCH"
      commits := (s.valueOf? "RIPPLE_INSPECT_COMMITS").bind (parseNumber? maxWord64)
      since := s.valueOf? "RIPPLE_INSPECT_SINCE"
      cacheDir := s.valueOf? "RIPPLE_INSPECT_CACHE_DIR"
      threads := (s.valueOf? "RIPPLE_INSPECT_THREADS").bind (parseNumber? maxWord64) }

/-- The user's directory. -/
def Surroundings.home? (s : Surroundings) : Option String :=
  (s.valueOf? "HOME").or (s.valueOf? "USERPROFILE")

/-- The path of the user's file. -/
def Surroundings.userFile? (s : Surroundings) : Option String :=
  s.home?.map fun home => joinPath (joinPath home ".ripple") "config.toml"

/-- The path of a project's file. -/
def projectFile (root : String) : String :=
  joinPath root "ripple.toml"

/-- The layer of a file. A file that is missing sets nothing, and so does one that cannot be told
from a missing one; what is there and is no text is refused. -/
def Surroundings.fileLayer (s : Surroundings) (path : String) : Except ConfigError Settings :=
  match s.files path with
  | .absent | .hidden => .ok {}
  | .directory | .locked => .error (.fileNotFound path)
  | .file bytes =>
    match String.fromUTF8? bytes with
    | none => .error (.fileNotFound path)
    | some text => Settings.parse path text

/-- The layer of the user's file; where there is no user's directory nothing is set. -/
def Surroundings.userLayer (s : Surroundings) : Except ConfigError Settings :=
  match s.userFile? with
  | none => .ok {}
  | some path => s.fileLayer path

/-- The settings, unless they have a fault. -/
def Settings.checked (c : Settings) : Except ConfigError Settings :=
  match c.fault? with
  | none => .ok c
  | some e => .error e

/-- The settings of a project. -/
def Settings.load (root : String) (s : Surroundings) (overrides : Overrides) :
    Except ConfigError Settings := do
  let user ← s.userLayer
  let project ← s.fileLayer (projectFile root)
  (((user.merge project).merge s.layer).merge overrides.layer).checked

end ChangeImpact.Config
