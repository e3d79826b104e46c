import ChangeImpact.CallGraph.Build
import ChangeImpact.Config.Analysis
import ChangeImpact.Error

/-!
# Reading source files

* `SourceModel` — says which files it can read, and reads them;
* `SourceUnit.load` — reads the files of a unit: those that the model supports and the scope admits,
  up to the limit. A file that cannot be read is left out and reported.
-/

namespace ChangeImpact

/-- A file to be read. -/
structure SourceFile where
  path : String
  content : ByteArray

/-- What reads source files. -/
structure SourceModel where
  supports : String → Bool
  parse : SourceFile → Except SourceError SourceFacts

/-- Whether the scope admits a path; backslashes count as slashes. -/
def inScope (config : Config.Analysis) (path : String) : Bool :=
  match config.scopePath with
  | none => true
  | some scope => Text.hasInfix scope (Text.replaceChar '\\' '/' path)

/-- The files that the model supports and the scope admits. -/
def admitted (model : SourceModel) (config : Config.Analysis) (files : List SourceFile) :
    List SourceFile :=
  files.filter fun f => model.supports f.path && inScope config f.path

/-- The error of a file that could not be read. -/
def readingError? : Except SourceError SourceFacts → Option PipelineError
  | .ok _ => none
  | .error e => some (.source e)

/-- The unit of the files that could be read, when so many others were cut off. -/
def SourceUnit.collect (results : List (Except SourceError SourceFacts)) (truncated : Nat) :
    Outcome SourceUnit :=
  let errors := results.filterMap readingError?
  { data := { files := results.filterMap Except.toOption, skipped := errors.length, truncated }
    errors := errors }

/-- Reads the files of a unit. -/
def SourceUnit.load (model : SourceModel) (config : Config.Analysis) (files : List SourceFile) :
    Outcome SourceUnit :=
  let wanted := admitted model config files
  SourceUnit.collect ((wanted.take config.maxFiles).map model.parse)
    (wanted.length - config.maxFiles)

end ChangeImpact
