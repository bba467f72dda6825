import Metahumotonic.Library.Run
import Metahumotonic.Library.Table
import Metahumotonic.Library.JsonText
import Metahumotonic.Library.Worklist
import Metahumotonic.Library.Walks
import Metahumotonic.Library.BreadthFirst
import Metahumotonic.Library.DepthFirst
import Metahumotonic.Library.JsString
import Metahumotonic.Library.Window
import Metahumotonic.Library.Positions
import Metahumotonic.Library.Linearisation
import Metahumotonic.Library.Checks
import Metahumotonic.Library.Json
import Metahumotonic.Library.JsonCodec
import Metahumotonic.Library.Base64
import Metahumotonic.Library.Utf8
import Metahumotonic.Library.Paging
import Metahumotonic.Library.Cypher
import Metahumotonic.Library.CypherEdges
import Metahumotonic.Library.PyString
import Metahumotonic.Library.IsoDate
import Metahumotonic.Library.IsoOrder
import Metahumotonic.Library.Latest
import Metahumotonic.Library.Newest
import Metahumotonic.Library.Selection
import Metahumotonic.Library.Placeholder
import Metahumotonic.Library.Doubles
import Metahumotonic.Library.Hangul
import Metahumotonic.Library.Failover
import Metahumotonic.Library.JsonForm
import Metahumotonic.Library.JsJson
import Metahumotonic.Library.Trim
import Metahumotonic.Library.Blank
import Metahumotonic.Library.Like
import Metahumotonic.Library.Eviction
import Metahumotonic.Library.JsonNumbers
import Metahumotonic.Library.Raises
import Metahumotonic.Library.Evolution
import Metahumotonic.Platform.Documents
import Metahumotonic.Platform.Graph
import Metahumotonic.Platform.Digest
import Metahumotonic.Platform.Accepted
import Metahumotonic.Platform.Inventory
import Metahumotonic.Platform.Ingest
import Metahumotonic.Platform.Ledger
import Metahumotonic.Platform.ExactlyOnce
import Metahumotonic.Platform.Canonical
import Metahumotonic.Platform.ReadPath
import Metahumotonic.Platform.Structure
import Metahumotonic.Platform.InventoryView
import Metahumotonic.Platform.LatestObservation
import Metahumotonic.Platform.FixedProbe
import Metahumotonic.Platform.FixedProbeBatch
import Metahumotonic.Feedback.Stores
import Metahumotonic.Feedback.Interchange
import Metahumotonic.Feedback.Lifecycle
import Metahumotonic.Feedback.Fallback
import Metahumotonic.Feedback.Homes
import Metahumotonic.Feedback.Reachable
import Metahumotonic.Feedback.TriageSteps
import Metahumotonic.Feedback.TriageTurns
import Metahumotonic.Feedback.TriageAtomicity
import Metahumotonic.Feedback.TriageRuns
import Metahumotonic.Feedback.Submission
import Metahumotonic.Feedback.Contract
import Metahumotonic.Feedback.ContractAgreement
import Metahumotonic.Wiki.Domain
import Metahumotonic.Wiki.Decision
import Metahumotonic.Wiki.Memory
import Metahumotonic.Wiki.Ids
import Metahumotonic.Wiki.Journal
import Metahumotonic.Wiki.Recorded
import Metahumotonic.Wiki.MemoryRefinement
import Metahumotonic.Wiki.Consistency
import Metahumotonic.Wiki.Postgres
import Metahumotonic.Wiki.PostgresRefinement
import Metahumotonic.Wiki.Agreement
import Metahumotonic.Wiki.History
import Metahumotonic.Wiki.Reads
import Metahumotonic.Wiki.Moderation
import Metahumotonic.Wiki.Search
import Metahumotonic.Wiki.Session
import Metahumotonic.Wiki.Slug
import Metahumotonic.Wiki.Router
import Metahumotonic.Wiki.Idempotency
import Metahumotonic.Agent.WorkGraph
import Metahumotonic.Agent.TopoSort
import Metahumotonic.Agent.TopologicalOrder
import Metahumotonic.Agent.Planning
import Metahumotonic.Agent.Scheduler
import Metahumotonic.Agent.SchedulerSafety
import Metahumotonic.Agent.SchedulerOutcome
import Metahumotonic.Agent.Upstream
import Metahumotonic.Agent.SchedulerSettled
import Metahumotonic.Agent.SchedulerConfluence
import Metahumotonic.Agent.WorkConserving
import Metahumotonic.Agent.Cascade
import Metahumotonic.Agent.Loop
import Metahumotonic.Agent.LoopAccounting
import Metahumotonic.Agent.LoopWork
import Metahumotonic.Agent.Traversal
import Metahumotonic.Agent.TraversalSearch
import Metahumotonic.Agent.TraversalLaws
import Metahumotonic.Agent.TraversalBounds
import Metahumotonic.Agent.TraversalExclusion
import Metahumotonic.Kg.WriteIntent
import Metahumotonic.Kg.WritePort
import Metahumotonic.Kg.KnowledgeGraph
import Metahumotonic.Kg.Effects
import Metahumotonic.Kg.StatementEffects
import Metahumotonic.Kg.Growth
import Metahumotonic.Kg.Settled
import Metahumotonic.Kg.Idempotence
import Metahumotonic.Kg.Interpreter
import Metahumotonic.Kg.RepeatedBatches
import Metahumotonic.Kg.Truncation
import Metahumotonic.Kg.Recent
import Metahumotonic.Access.RequestLogging
import Metahumotonic.Access.BodyLimit
import Metahumotonic.Kg.ParameterRoundTrip
import Metahumotonic.Kg.Parameters
import Metahumotonic.Kg.Proxy
import Metahumotonic.Limiter.SortedSet
import Metahumotonic.Limiter.RateLimiter
import Metahumotonic.Limiter.Deployment
import Metahumotonic.Limiter.Admission
import Metahumotonic.Limiter.BackEnds
import Metahumotonic.Limiter.InProcess
import Metahumotonic.Limiter.RetryAfter
import Metahumotonic.Limiter.ClientKey
import Metahumotonic.Cache.TtlCache
import Metahumotonic.Cache.SingleFlight
import Metahumotonic.Cache.Waiters
import Metahumotonic.Cache.Asyncio
import Metahumotonic.Cache.LockTable
import Metahumotonic.Cache.Producers
import Metahumotonic.Cache.Sequential
import Metahumotonic.Ontology.Text
import Metahumotonic.Ontology.Snapshot
import Metahumotonic.Ontology.Accepted
import Metahumotonic.Ontology.Cursor
import Metahumotonic.Ontology.Projection
import Metahumotonic.Ontology.SlotNine
import Metahumotonic.Ontology.Routes
import Metahumotonic.Ontology.Privacy
import Metahumotonic.Ontology.Pagination
import Metahumotonic.Ontology.Closed
import Metahumotonic.Ontology.Configure
import Metahumotonic.Ontology.Handlers
import Metahumotonic.Ontology.Answers
import Metahumotonic.Registry.Status
import Metahumotonic.Registry.StatusAgreement
import Metahumotonic.Registry.Enrich
import Metahumotonic.Registry.EnrichAgreement
import Metahumotonic.Platform.Reality
import Metahumotonic.Platform.OrderFree
import Metahumotonic.Library.PercentEncoding
import Metahumotonic.Platform.Identifiers
import Metahumotonic.Library.Keyset
import Metahumotonic.Platform.History
import Metahumotonic.Platform.HistoryPaging
import Metahumotonic.Platform.JsValue
import Metahumotonic.Library.WorkerPool
import Metahumotonic.Platform.FixedProbeReplay
import Metahumotonic.Library.Walks
import Metahumotonic.Kg.ResearchCache
import Metahumotonic.Breaker.Promise
import Metahumotonic.Library.Anticipation
import Metahumotonic.Library.HashChain
import Metahumotonic.Library.StableOrder
import Metahumotonic.Library.Lockstep
import Metahumotonic.Gate.Monitors
import Metahumotonic.Gate.Anticipation
import Metahumotonic.Gate.Live
import Metahumotonic.Gate.Promptness
import Metahumotonic.Gate.Chain
import Metahumotonic.Gate.Evaluate
import Metahumotonic.Gate.Durability
import Metahumotonic.Wiki.OperatorQueue
import Metahumotonic.Wiki.Schema
import Metahumotonic.Wiki.Backfill
