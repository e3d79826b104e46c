import ChangeImpact.Config.Analysis
import ChangeImpact.Config.Inspect
import ChangeImpact.Toml.Reader
import ChangeImpact.Word

/-!
# Settings

Settings are gathered from layers, each of which may leave any of them unset.

* `Settings` — a layer; `Settings.merge` — a layer over another;
* `Settings.parse`, `Settings.toToml` — a layer as a document;
* `Settings.fault?` — why settings are refused;
* `Settings.bounds`, `Settings.inspection` — what the set values mean, with defaults.
-/

namespace ChangeImpact.Config

/-- Settings of the analysis, each set or not. -/
structure AnalysisSection where
  maxDepth : Option Nat := none
  maxFiles : Option Nat := none
  scope : Option String := none
  gapSearchDepth : Option Nat := none
deriving DecidableEq, Repr, Inhabited

/-- Settings of the inspection, each set or not. -/
structure InspectSection where
  branch : Option String := none
  commits : Option Nat := none
  /-- A day as `YYYY-MM-DD`. -/
  since : Option String := none
  cacheDir : Option String := none
  threads : Option Nat := none
deriving DecidableEq, Repr, Inhabited

/-- All settings. -/
structure Settings where
  analysis : AnalysisSection := {}
  inspect : InspectSection := {}
deriving DecidableEq, Repr, Inhabited

/-! ## Layers -/

/-- What `upper` sets holds; the rest is as in `base`. -/
def AnalysisSection.merge (base upper : AnalysisSection) : AnalysisSection where
  maxDepth := upper.maxDepth.or base.maxDepth
  maxFiles := upper.maxFiles.or base.maxFiles
  scope := upper.scope.or base.scope
  gapSearchDepth := upper.gapSearchDepth.or base.gapSearchDepth

/-- What `upper` sets holds; the rest is as in `base`. -/
def InspectSection.merge (base upper : InspectSection) : InspectSection where
  branch := upper.branch.or base.branch
  commits := upper.commits.or base.commits
  since := upper.since.or base.since
  cacheDir := upper.cacheDir.or base.cacheDir
  threads := upper.threads.or base.threads

/-- What `upper` sets holds; the rest is as in `base`. -/
def Settings.merge (base upper : Settings) : Settings where
  analysis := base.analysis.merge upper.analysis
  inspect := base.inspect.merge upper.inspect

/-! ## Meaning -/

/-- The greatest depth that may be set. -/
def maxDepthLimit : Nat := 1024

/-- The day that a text names, white space around it aside. -/
def parseSince (text : String) : Except ConfigError Date :=
  match Date.parse (Text.trim text) with
  | .ok day => .ok day
  | .error e =>
    .error (.invalidValue "inspect.since"
      ("'" ++ text ++ "' is not a YYYY-MM-DD date: " ++ e.message))

/-- The day that is set, if one is. -/
def InspectSection.sinceDay (s : InspectSection) : Except ConfigError (Option Date) :=
  match s.since with
  | none => .ok none
  | some text => (parseSince text).map some

/-- The fault of the first setting of a section that is out of its range. -/
def AnalysisSection.fault? (s : AnalysisSection) : Option ConfigError :=
  if s.maxDepth.any fun depth => depth = 0 ∨ maxDepthLimit < depth then
    some (.validationFailed "analysis.max_depth"
      ("must be between 1 and " ++ toString maxDepthLimit))
  else if s.maxFiles = some 0 then
    some (.validationFailed "analysis.max_files" "must be greater than 0")
  else if s.gapSearchDepth = some 0 then
    some (.validationFailed "analysis.gap_search_depth" "must be greater than 0 when set")
  else none

/-- The fault of the first setting of a section that is out of its range. -/
def InspectSection.fault? (s : InspectSection) : Option ConfigError :=
  if s.threads = some 0 then
    some (.validationFailed "inspect.threads" "must be greater than 0")
  else
    match s.sinceDay with
    | .ok _ => none
    | .error e => some e

/-- Why settings are refused. The first fault counts. -/
def Settings.fault? (s : Settings) : Option ConfigError :=
  s.analysis.fault?.or s.inspect.fault?

/-- The bounds of the analysis; defaults stand in for what is unset. -/
def Settings.bounds (s : Settings) : Analysis where
  maxDepth := s.analysis.maxDepth.getD Analysis.default.maxDepth
  maxFiles := s.analysis.maxFiles.getD Analysis.default.maxFiles
  scope := s.analysis.scope.getD Analysis.default.scope
  gapSearchDepth := s.analysis.gapSearchDepth

/-- The inspection that is set up. A branch has to be set. -/
def Settings.inspection (s : Settings) : Except ConfigError Inspect := do
  match s.inspect.branch with
  | none => .error (.validationFailed "inspect.branch" "a branch name is required")
  | some branch =>
    let since ← s.inspect.sinceDay
    let inspect : Inspect :=
      { branch, commits := s.inspect.commits, since,
        cacheDir := s.inspect.cacheDir.getD defaultCacheDir, threads := s.inspect.threads }
    match inspect.fault? with
    | none => .ok inspect
    | some e => .error e

/-! ## Documents -/

/-- The text of a value. -/
def textOf? : Toml → Option String
  | .str text => some text
  | _ => none

/-- The whole number of a value, if it is in `0 … max`. -/
def numberOf? (max : Nat) : Toml → Option Nat
  | .int n => if 0 ≤ n ∧ n ≤ max then some n.toNat else none
  | _ => none

/-- A value that may be missing; one that is there has to be readable. -/
def optional {α : Type} (read : Toml → Option α) : Option Toml → Option (Option α)
  | none => some none
  | some v => (read v).map some

/-- The parts of a section by their names, or in their order from an array; a name that is no part
is passed over, and so are items beyond the last part. -/
def part? (keys : List String) (sect : Toml) (key : String) : Option (Option Toml) :=
  match sect with
  | .table _ ms => some (Toml.Members.get? key ms)
  | .array items => some items[keys.idxOf key]?
  | .tables before last => some ((before ++ [last])[keys.idxOf key]?.map (.table .defined))
  | _ => none

/-- The names in the section of the analysis. -/
def analysisKeys : List String :=
  ["max_depth", "max_files", "scope", "gap_search_depth"]

/-- The names in the section of the inspection. -/
def inspectKeys : List String :=
  ["branch", "commits", "since", "cache_dir", "threads"]

/-- The section of the analysis. -/
def AnalysisSection.ofToml? (v : Toml) : Option AnalysisSection := do
  let part := part? analysisKeys v
  let maxDepth ← optional (numberOf? maxWord32) (← part "max_depth")
  let maxFiles ← optional (numberOf? maxWord64) (← part "max_files")
  let scope ← optional textOf? (← part "scope")
  let gapSearchDepth ← optional (numberOf? maxWord32) (← part "gap_search_depth")
  some { maxDepth, maxFiles, scope, gapSearchDepth }

/-- The section of the inspection. -/
def InspectSection.ofToml? (v : Toml) : Option InspectSection := do
  let part := part? inspectKeys v
  let branch ← optional textOf? (← part "branch")
  let commits ← optional (numberOf? maxWord64) (← part "commits")
  let since ← optional textOf? (← part "since")
  let cacheDir ← optional textOf? (← part "cache_dir")
  let threads ← optional (numberOf? maxWord64) (← part "threads")
  some { branch, commits, since, cacheDir, threads }

/-- The settings of a document; names that mean nothing are passed over. -/
def Settings.ofMembers? (ms : Toml.Members) : Option Settings := do
  let analysis ← optional AnalysisSection.ofToml? (Toml.Members.get? "analysis" ms)
  let inspect ← optional InspectSection.ofToml? (Toml.Members.get? "inspect" ms)
  some { analysis := analysis.getD {}, inspect := inspect.getD {} }

/-- The settings of a text. -/
def Settings.ofToml? (text : String) : Option Settings := do
  Settings.ofMembers? (← Toml.parse? text)

/-- The settings of the text at `path`. -/
def Settings.parse (path text : String) : Except ConfigError Settings :=
  match Settings.ofToml? text with
  | some s => .ok s
  | none => .error (.parseError path "not a settings document")

/-! ## Writing -/

/-- A line that sets a key. -/
def settingLine (key : String) (value : List Char) : List Char :=
  key.toList ++ [' ', '=', ' '] ++ value ++ ['\n']

/-- The line of a text, if it is set. -/
def textLine (key : String) : Option String → List Char
  | none => []
  | some text => settingLine key (Toml.writeText text)

/-- The line of a number, if it is set. -/
def numberLine (key : String) : Option Nat → List Char
  | none => []
  | some n => settingLine key (Nat.toDigits 10 n)

/-- The lines of the analysis under their header. -/
def AnalysisSection.lines (s : AnalysisSection) : List Char :=
  "[analysis]\n".toList ++ numberLine "max_depth" s.maxDepth ++ numberLine "max_files" s.maxFiles ++
    textLine "scope" s.scope ++ numberLine "gap_search_depth" s.gapSearchDepth

/-- The lines of the inspection under their header. -/
def InspectSection.lines (s : InspectSection) : List Char :=
  "[inspect]\n".toList ++ textLine "branch" s.branch ++ numberLine "commits" s.commits ++
    textLine "since" s.since ++ textLine "cache_dir" s.cacheDir ++ numberLine "threads" s.threads

/-- The numbers that are set. -/
def Settings.numbers (s : Settings) : List Nat :=
  [s.analysis.maxDepth, s.analysis.maxFiles, s.analysis.gapSearchDepth, s.inspect.commits,
    s.inspect.threads].filterMap id

/-- The settings as a document. Numbers beyond the whole numbers of a document are refused. -/
def Settings.toToml (s : Settings) : Except ConfigError String :=
  if s.numbers.all fun n => (n : Int) ≤ Toml.maxInt then
    .ok (String.ofList (s.analysis.lines ++ '\n' :: s.inspect.lines))
  else .error (.parseError "<serialization>" "a number is out of range")

end ChangeImpact.Config
