import ChangeImpact.CallGraph
import ChangeImpact.Declaration
import ChangeImpact.Resolution

/-!
# The call graph of a set of files

Every declaration becomes a vertex and every call that resolves an edge.

1. *Names.* An ordinary method is its own vertex. Closures are numbered from 1 across all files.
   Anonymous bodies are numbered from 1 across all files too, one number for all members of a body.
2. *Calls.* Every call of every declaration is resolved among the ordinary methods of the unit,
   seen from the owner of the caller's vertex. What it is resolved to is looked up among the
   vertices, and the two are linked.

* `Naming` — the counters; `entries` — all declarations with their vertices;
* `calls` — all calls with their resolution;
* `Build` — the graph, where each vertex stands in the text, and the counts.
-/

namespace ChangeImpact

/-- The parsed files of one analysis, and how many were left out. -/
structure SourceUnit where
  files : List SourceFacts
  /-- Files that could not be read. -/
  skipped : Nat
  /-- Files beyond the limit on their number. -/
  truncated : Nat
deriving DecidableEq, Repr

/-- A unit of files that are all there. -/
def SourceUnit.ofFiles (files : List SourceFacts) : SourceUnit :=
  ⟨files, 0, 0⟩

/-- Where the body of a vertex stands. -/
structure MethodSpan where
  method : Method
  file : String
  startLine : Nat
  endLine : Nat
  /-- The vertex is a closure or a member of an anonymous class. -/
  synthetic : Bool
deriving DecidableEq, Repr

namespace Build

/-! ## Names -/

/-- What has been named so far: how many closures, and the anonymous bodies as (file, body). -/
structure Naming where
  closures : Nat
  bodies : List (Nat × Nat)
deriving DecidableEq, Repr

/-- The vertex of a declaration of the `file`-th file. -/
def Naming.identity (s : Naming) (file : Nat) (d : Declaration) : Method × Naming :=
  match d.kind with
  | .method => (d.ownMethod, s)
  | .closure => (.closure d.owner d.name (s.closures + 1), { s with closures := s.closures + 1 })
  | .anonymousMethod body =>
    let bodies := addNew s.bodies (file, body)
    (.anonymous d.owner d.name (bodies.idxOf (file, body) + 1), { s with bodies := bodies })

/-- A declaration with its file and its vertex. -/
structure Entry where
  file : String
  declaration : Declaration
  method : Method
deriving DecidableEq, Repr

/-- Names the declarations of the `file`-th file in order. -/
def Naming.entries (s : Naming) (file : Nat) (path : String) :
    List Declaration → List Entry × Naming
  | [] => ([], s)
  | d :: ds =>
    let (m, s) := s.identity file d
    let (es, s) := s.entries file path ds
    (⟨path, d, m⟩ :: es, s)

/-- Names the declarations of all files in order, the first of them being the `file`-th. -/
def Naming.entriesOfFiles (s : Naming) (file : Nat) : List SourceFacts → List Entry
  | [] => []
  | f :: fs =>
    let (es, s) := s.entries file f.path f.declarations
    es ++ s.entriesOfFiles (file + 1) fs

/-- All declarations of a unit with their vertices, in file order. -/
def entries (files : List SourceFacts) : List Entry :=
  Naming.entriesOfFiles ⟨0, []⟩ 0 files

/-! ## Calls -/

/-- The ordinary methods among the entries. -/
def index (es : List Entry) : Resolution.Index :=
  .ofList ((es.filter (·.declaration.kind = .method)).map (·.method))

/-- A call, and what it was resolved to. -/
structure Call where
  caller : Method
  target : String
  meaning : Option (Method × Resolution.Strategy)
deriving DecidableEq, Repr

/-- All calls of all entries, resolved, in order. -/
def calls (es : List Entry) : List Call :=
  let known := index es
  es.flatMap fun e =>
    e.declaration.targets.map fun t => ⟨e.method, t, known.resolve t e.method.owner⟩

/-- An edge, and the rule that resolved its call. -/
structure Link where
  edge : Method × Method
  strategy : Resolution.Strategy
deriving DecidableEq, Repr

/-- The link that a call gives among some vertices: what it was resolved to has to be one of them.
-/
def Call.link? (vertices : List Method) (c : Call) : Option Link :=
  match c.meaning with
  | some (m, s) => if m ∈ vertices then some ⟨(c.caller, m), s⟩ else none
  | none => none

end Build

/-! ## The result -/

/-- Counts about one build. -/
structure BuildStats where
  totalMethods : Nat
  totalEdges : Nat
  syntheticMethods : Nat
  filesAnalyzed : Nat
  filesSkipped : Nat
  filesTruncated : Nat
  /-- How many calls each rule resolved; rules that resolved none are left out. -/
  resolved : List (Resolution.Strategy × Nat)
  unresolved : Nat

/-- The number of calls that some rule resolved. -/
def BuildStats.resolvedCalls (s : BuildStats) : Nat :=
  s.resolved.foldr (·.2 + ·) 0

/-- Resolved calls over all calls; 0 when there are none. -/
def BuildStats.resolutionRate (s : BuildStats) : Float :=
  let total := s.resolvedCalls + s.unresolved
  if total = 0 then 0 else s.resolvedCalls.toFloat / total.toFloat

/-- The graph of a unit, where its vertices stand, and the counts. -/
structure Build where
  graph : CallGraph
  spans : List MethodSpan
  stats : BuildStats

/-- How often each rule occurs in a list; rules that do not occur are left out. -/
def Build.countStrategies (l : List Resolution.Strategy) : List (Resolution.Strategy × Nat) :=
  (Resolution.Strategy.all.map fun s => (s, l.count s)).filter (·.2 ≠ 0)

/-- Where an entry's vertex stands. -/
def Build.Entry.span (e : Build.Entry) : MethodSpan :=
  ⟨e.method, e.file, e.declaration.startLine, e.declaration.endLine,
    e.declaration.kind ≠ .method⟩

/-- Builds the call graph of a unit. -/
def SourceUnit.build (u : SourceUnit) : Build :=
  let es := Build.entries u.files
  let vertices := es.map (·.method)
  let calls := Build.calls es
  let links := calls.filterMap (Build.Call.link? vertices)
  let graph := CallGraph.ofEdges vertices (links.map (·.edge))
  let spans := es.map Build.Entry.span
  { graph := graph
    spans := spans
    stats :=
      { totalMethods := graph.methods.length
        totalEdges := graph.edges.length
        syntheticMethods := spans.countP (·.synthetic)
        filesAnalyzed := u.files.length
        filesSkipped := u.skipped
        filesTruncated := u.truncated
        resolved := Build.countStrategies (links.map (·.strategy))
        unresolved := calls.length - links.length } }

end ChangeImpact
