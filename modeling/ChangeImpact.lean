import ChangeImpact.CallGraph
import ChangeImpact.CallGraph.Build
import ChangeImpact.CallGraph.Callers
import ChangeImpact.CallGraph.Indexed
import ChangeImpact.CallGraph.IndexedSearch
import ChangeImpact.Cancellation
import ChangeImpact.Commit.Analyzer
import ChangeImpact.Commit.Encoding
import ChangeImpact.Commit.Metadata
import ChangeImpact.Commit.Record
import ChangeImpact.Commit.Risk
import ChangeImpact.CommitCache
import ChangeImpact.Config.Analysis
import ChangeImpact.Config.Inspect
import ChangeImpact.Config.Layers
import ChangeImpact.Config.Settings
import ChangeImpact.Coverage.Gap
import ChangeImpact.Coverage.Risk
import ChangeImpact.Decimal.Shortest
import ChangeImpact.Declaration
import ChangeImpact.Error
import ChangeImpact.Event
import ChangeImpact.FileTree
import ChangeImpact.Hash.Sha1
import ChangeImpact.Hash.Xxh3
import ChangeImpact.History
import ChangeImpact.Impact.Analysis
import ChangeImpact.Impact.LineRange
import ChangeImpact.Inspection.Report
import ChangeImpact.Inspection.Run
import ChangeImpact.Java.Extraction
import ChangeImpact.Java.Grammar
import ChangeImpact.Java.Grammar.Basic
import ChangeImpact.Java.Grammar.Declarations
import ChangeImpact.Java.Grammar.Expressions
import ChangeImpact.Java.Grammar.Statements
import ChangeImpact.Java.Grammar.Types
import ChangeImpact.Java.Model
import ChangeImpact.Java.Repair
import ChangeImpact.Java.Token
import ChangeImpact.Java.Tree
import ChangeImpact.Json.Access
import ChangeImpact.Json.Decode
import ChangeImpact.Json.Number
import ChangeImpact.Json.Printer
import ChangeImpact.Json.Reader
import ChangeImpact.Json.Token
import ChangeImpact.Json.Value
import ChangeImpact.Method
import ChangeImpact.Method.Synthetic
import ChangeImpact.Repository.Basic
import ChangeImpact.Repository.Changes
import ChangeImpact.Repository.History
import ChangeImpact.Repository.LineDiff
import ChangeImpact.Repository.Revision
import ChangeImpact.Repository.Similarity
import ChangeImpact.Repository.Snapshot
import ChangeImpact.Repository.Walk
import ChangeImpact.Resolution
import ChangeImpact.SortedSet
import ChangeImpact.SourceModel
import ChangeImpact.Table
import ChangeImpact.TestMethod
import ChangeImpact.Text.Blank
import ChangeImpact.Text.Hex
import ChangeImpact.Text.Identifier
import ChangeImpact.Text.Lowercase
import ChangeImpact.Text.Ranges
import ChangeImpact.Text.Segment
import ChangeImpact.Time.Date
import ChangeImpact.Time.Instant
import ChangeImpact.Time.Timestamp
import ChangeImpact.Toml.Quoted
import ChangeImpact.Toml.Reader
import ChangeImpact.Toml.Scalar
import ChangeImpact.Toml.Value
import ChangeImpact.View.Analysis
import ChangeImpact.View.Commit
import ChangeImpact.View.Config
import ChangeImpact.View.Error
import ChangeImpact.Word
import ChangeImpact.WorkerPool
import ChangeImpact.Proofs.CacheDocument
import ChangeImpact.Proofs.Callers
import ChangeImpact.Proofs.CacheFiles
import ChangeImpact.Proofs.PoolRuns
import ChangeImpact.Proofs.Transparency
import ChangeImpact.Proofs.CacheReads
import ChangeImpact.Proofs.MintedNames
import ChangeImpact.Proofs.Naming
import ChangeImpact.Proofs.UnitGraph
import ChangeImpact.Proofs.Enclosure
import ChangeImpact.Proofs.Rearrangement
import ChangeImpact.Proofs.ConcurrentStores
import ChangeImpact.Proofs.GraphExactness
import ChangeImpact.Proofs.SlotMap
import ChangeImpact.Proofs.WorkerCrews
import ChangeImpact.Proofs.Accounting
import ChangeImpact.Proofs.Reuse
import ChangeImpact.Proofs.Classifications
import ChangeImpact.Proofs.EventTrace
import ChangeImpact.Proofs.SettingLayers
import ChangeImpact.Java.SharedCache
import ChangeImpact.Proofs.SharedParsing
import ChangeImpact.Proofs.JsonRoundTrip
import ChangeImpact.Proofs.InstantTexts
import ChangeImpact.Proofs.RecordEncoding
import ChangeImpact.Proofs.Saturation
import ChangeImpact.Proofs.CoverageExactness
import ChangeImpact.Proofs.ImpactedTests
import ChangeImpact.Proofs.ImpactLaws
import ChangeImpact.Proofs.DepthLaws
import ChangeImpact.Proofs.Reversal
import ChangeImpact.Proofs.VertexNames
import ChangeImpact.Proofs.NameRecognition
import ChangeImpact.Proofs.ChangedLines
import ChangeImpact.Proofs.IgnoringCase
import ChangeImpact.Proofs.CommitRecords
import ChangeImpact.Proofs.FailureAttribution
import ChangeImpact.Proofs.AlikeFiles
import ChangeImpact.Proofs.FailedStores
import ChangeImpact.Proofs.CallSites
import ChangeImpact.Proofs.MethodTargets
import ChangeImpact.Proofs.VariableTypes
import ChangeImpact.Proofs.CountedCalls
import ChangeImpact.Proofs.FieldReceivers
import ChangeImpact.Proofs.CommitSelection
import ChangeImpact.Proofs.TomlTexts
import ChangeImpact.Proofs.TomlDocuments
import ChangeImpact.Proofs.SettingsDocument
import ChangeImpact.Proofs.UntypedVariables
import ChangeImpact.Proofs.ReplacedTypes
import ChangeImpact.Proofs.LocalTypes
import ChangeImpact.Proofs.ValidSettings
import ChangeImpact.Proofs.RiskBounds
import ChangeImpact.Proofs.Fingerprints
import ChangeImpact.Proofs.EventDelivery
import ChangeImpact.Proofs.BreadthFirst
import ChangeImpact.Proofs.WalkJournal
import ChangeImpact.Proofs.LooseMethods
import ChangeImpact.Proofs.Readers
import ChangeImpact.Proofs.MethodPlaces
import ChangeImpact.Proofs.Bookkeeping
