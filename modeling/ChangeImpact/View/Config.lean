import ChangeImpact.Config.Settings
import ChangeImpact.Json.Access

/-!
# Settings as JSON
-/

namespace ChangeImpact.View

open Json

/-- A day. -/
def asDate? (j : Json) : Option Date := do
  (Date.parse (← asStr? j)).toOption

/-- The bounds of an analysis; what is missing has its default. -/
def asAnalysis? (j : Json) : Option Config.Analysis := do
  let _ ← asObj? j
  let d := Config.Analysis.default
  return {
    maxDepth := ← orDefault asU32? j "max_depth" d.maxDepth
    maxFiles := ← orDefault asU64? j "max_files" d.maxFiles
    scope := ← orDefault asStr? j "scope" d.scope
    gapSearchDepth := ← opt asU32? j "gap_search_depth" }

/-- The bounds under a name, or the default ones. -/
def analysisOf (j : Json) (name : String) : Option Config.Analysis :=
  optD asAnalysis? j name .default

/-- What is inspected. -/
def asInspect? (j : Json) : Option Config.Inspect := do
  let c := Config.Inspect.ofBranch (← need asStr? j "branch")
  return { c with
    commits := ← opt asU64? j "commits"
    since := ← opt asDate? j "since"
    cacheDir := ← optD asStr? j "cache_dir" c.cacheDir
    threads := ← opt asU64? j "threads" }

/-- A layer of settings. -/
def asSettings? (j : Json) : Option Config.Settings := do
  let a ← objOf j "analysis"
  let i ← objOf j "inspect"
  return {
    analysis := {
      maxDepth := ← opt asU32? a "max_depth"
      maxFiles := ← opt asU64? a "max_files"
      scope := ← opt asStr? a "scope"
      gapSearchDepth := ← opt asU32? a "gap_search_depth" }
    inspect := {
      branch := ← opt asStr? i "branch"
      commits := ← opt asU64? i "commits"
      since := ← opt asStr? i "since"
      cacheDir := ← opt asStr? i "cache_dir"
      threads := ← opt asU64? i "threads" } }

/-- The bounds of an analysis. -/
def analysisJson (a : Config.Analysis) : Json :=
  .obj [("max_depth", .nat a.maxDepth), ("max_files", .nat a.maxFiles), ("scope", .str a.scope),
    ("gap_search_depth", optNatJson a.gapSearchDepth)]

/-- What is inspected. -/
def inspectJson (c : Config.Inspect) : Json :=
  .obj [("branch", .str c.branch), ("commits", optNatJson c.commits),
    ("since", optJson (fun d => .str d.text) c.since), ("cache_dir", .str c.cacheDir),
    ("threads", optNatJson c.threads)]

/-- A layer of settings. -/
def settingsJson (s : Config.Settings) : Json :=
  .obj [
    ("analysis", .obj [("max_depth", optNatJson s.analysis.maxDepth),
      ("max_files", optNatJson s.analysis.maxFiles), ("scope", optStrJson s.analysis.scope),
      ("gap_search_depth", optNatJson s.analysis.gapSearchDepth)]),
    ("inspect", .obj [("branch", optStrJson s.inspect.branch),
      ("commits", optNatJson s.inspect.commits), ("since", optStrJson s.inspect.since),
      ("cache_dir", optStrJson s.inspect.cacheDir), ("threads", optNatJson s.inspect.threads)])]

end ChangeImpact.View
