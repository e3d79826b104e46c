import ChangeImpact.Java.Model
import ChangeImpact.WorkerPool

/-!
# Reading Java files side by side

The files of a unit are read by several workers that share a cache of texts. Reading a file takes
small steps, between which other workers may act, and the cache may drop entries at any time.

* `SharedCache` — the cache, and what it will drop;
* `parseStep`, `parseTask` — what a worker does with a file;
* `readAll` — reads files side by side; `loadShared` — reads the files of a unit.
-/

namespace ChangeImpact.Java

/-- A cache that workers share. After every step it makes its next choice of the entries that it
holds on to; without a choice it holds on to all. -/
structure SharedCache where
  cache : ParseCache
  choices : List (Nat → Bool)

/-- The cache after a step that leaves the given entries. -/
def SharedCache.settle (s : SharedCache) (c : ParseCache) : SharedCache :=
  match s.choices with
  | [] => ⟨c, []⟩
  | keep :: choices => ⟨c.retain keep, choices⟩

/-- How far a worker has come with a file. -/
inductive ParseStage where
  | lookUp (f : SourceFile)
  | extract (f : SourceFile) (text : String)
  | keep (f : SourceFile) (p : Parsed)

/-- One step of a worker: it asks the cache, reads the text if the cache does not know it, and lets
the cache keep what it has learned. -/
def parseStep (c : ParseCache) :
    ParseStage → ParseCache × (ParseStage ⊕ Except SourceError SourceFacts)
  | .lookUp f =>
    match sourceText f with
    | .error e => (c, .inr (.error e))
    | .ok text =>
      match c.get? (Hash.xxh3 f.content) with
      | some p => (c, .inr (.ok (p.facts f.path)))
      | none => (c, .inl (.extract f text))
  | .extract f text => (c, .inl (.keep f (parseText text)))
  | .keep f p => (c.put (Hash.xxh3 f.content) p, .inr (.ok (p.facts f.path)))

/-- What a worker does with a file. Nobody stops it. -/
def parseTask : PoolTask SharedCache SourceFile ParseStage (Except SourceError SourceFacts) where
  start := .lookUp
  step s stage :=
    let (c, next) := parseStep s.cache stage
    (s.settle c, next)
  cancelled _ := false
  cancel s := s

/-- Reads files side by side. -/
def readAll (files : List SourceFile) (schedule : List PoolAction) (s : SharedCache) :
    Pool SharedCache ParseStage (Except SourceError SourceFacts) :=
  Pool.run parseTask files schedule (Pool.init s files)

/-- The files of a unit that are read. -/
def unitFiles (config : Config.Analysis) (files : List SourceFile) : List SourceFile :=
  (admitted model config files).take config.maxFiles

/-- Reads the files of a unit, while other files are read through the same cache. There is a result
as soon as every file of the unit has one. -/
def loadShared (config : Config.Analysis) (files others : List SourceFile)
    (schedule : List PoolAction) (s : SharedCache) : Option (Outcome SourceUnit) := do
  let unit := unitFiles config files
  let results ← ((readAll (unit ++ others) schedule s).results.take unit.length).mapM id
  return SourceUnit.collect results ((admitted model config files).length - config.maxFiles)

end ChangeImpact.Java
