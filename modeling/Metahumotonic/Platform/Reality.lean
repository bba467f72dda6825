import Metahumotonic.Platform.InventoryView

/-! The assessment of the back end (`ts/src/domain/BackendReality.ts`): its documents, their
integrity, and the state that the latest runtime evidence of a node proves. What `Date.parse` makes
of a time is given, for a time need not be in the ISO format here. -/
namespace Metahumotonic.Platform
open Metahumotonic.Library Json

/-- `\d{4}-\d{2}-\d{2}T`. -/
def dateMask : List (ℕ → Bool) := [isDigit, isDigit, isDigit, isDigit] ++ IsoDate.restMask.take 7

section Documents

variable (dateParse : Text → Option ℤ)

def isTime (s : Text) : Bool := (dateParse s).isSome && IsoDate.shaped dateMask (s.take 11)

def realityEvidenceFields : List Field :=
  [required (lit "source") (isBetween 1 1024),
    required (lit "kind") (isLiteral [lit "source", lit "document", lit "test", lit "runtime"])]

def runtimeEvidenceFields : List Field :=
  [required (lit "source") (isBetween 1 1024), required (lit "observedAt")
    (isText (isTime dateParse)),
    required (lit "expiresAt") (isText (isTime dateParse)),
    required (lit "outcome")
      (isLiteral [lit "healthy", lit "reachable", lit "degraded", lit "failed"])]

def realityNodeFields : List Field :=
  [required (lit "id") isId, required (lit "name") (isBetween 1 200),
    required (lit "implementation")
      (isLiteral [lit "native", lit "federated", lit "snapshot", lit "simulation",
      lit "missing", lit "retired"]),
    required (lit "runtime") (isLiteral [lit "production-observed", lit "production-unverified",
      lit "candidate-only", lit "not-configured", lit "development-only", lit "retired",
        lit "unknown"]),
    required (lit "decision")
      (isLiteral [lit "retain", lit "complete", lit "retire-after-gate", lit "archive"]),
    optional (lit "platformNodeId") isId,
    required (lit "evidence") (isArray 1 20 (isStruct realityEvidenceFields)),
    optional (lit "runtimeEvidence") (isArray 1 20 (isStruct (runtimeEvidenceFields dateParse))),
    optional (lit "finding") (isBetween 0 2000), optional (lit "nextGate") (isBetween 1 2000)]

def realityEdgeFields : List Field :=
  [required (lit "id") isId, required (lit "from") isId, required (lit "to") isId,
    required (lit "relation")
      (isLiteral [lit "USES", lit "READS", lit "EXPOSES", lit "DELEGATES_TO",
      lit "SUPERSEDES", lit "PRODUCES"]),
    required (lit "status") (isLiteral [lit "ACTIVE", lit "PROPOSED", lit "RETIRED"]),
    required (lit "meaning") (isBetween 1 1000),
    required (lit "evidence") (isArray 1 20 (isStruct realityEvidenceFields))]

def realityFields : List Field :=
  [required (lit "schema") (isLiteral [lit "metahumotonic/backend-reality@1"]),
    required (lit "recordedAt") (isText (isTime dateParse)), required (lit "scope")
      (isBetween 1 1000),
    required (lit "nodes") (isArray 1 200 (isStruct (realityNodeFields dateParse))),
    required (lit "edges") (isArray 0 1000 (isStruct realityEdgeFields))]

def isBackendReality : Json → Bool := isStruct (realityFields dateParse)

end Documents

structure RealityEvidence where
  source : Text
  kind : Text
  deriving DecidableEq, Repr

structure RuntimeEvidence where
  source : Text
  observedAt : Text
  expiresAt : Text
  outcome : Text
  deriving DecidableEq, Repr

/-- A node; an absent text or list is empty. -/
structure RealityNode where
  id : Text
  implementation : Text
  runtime : Text
  decision : Text
  platformNodeId : Text
  evidence : List RealityEvidence
  runtimeEvidence : List RuntimeEvidence
  nextGate : Text
  deriving DecidableEq, Repr

structure RealityEdge where
  id : Text
  start : Text
  target : Text
  relation : Text
  status : Text
  evidence : List RealityEvidence
  deriving DecidableEq, Repr

structure BackendReality where
  recordedAt : Text
  nodes : List RealityNode
  edges : List RealityEdge
  deriving DecidableEq, Repr

def RealityEvidence.read (v : Json) : RealityEvidence :=
  ⟨v.textAt (lit "source"), v.textAt (lit "kind")⟩

def RuntimeEvidence.read (v : Json) : RuntimeEvidence :=
  ⟨v.textAt (lit "source"), observedAtOf v, expiresAtOf v, outcomeOf v⟩

def RealityNode.read (v : Json) : RealityNode where
  id := idOf v
  implementation := v.textAt (lit "implementation")
  runtime := v.textAt (lit "runtime")
  decision := v.textAt (lit "decision")
  platformNodeId := v.textAt (lit "platformNodeId")
  evidence := (v.itemsAt (lit "evidence")).map RealityEvidence.read
  runtimeEvidence := (v.itemsAt (lit "runtimeEvidence")).map RuntimeEvidence.read
  nextGate := v.textAt (lit "nextGate")

def RealityEdge.read (v : Json) : RealityEdge where
  id := idOf v
  start := v.textAt (lit "from")
  target := v.textAt (lit "to")
  relation := v.textAt (lit "relation")
  status := v.textAt (lit "status")
  evidence := (v.itemsAt (lit "evidence")).map RealityEvidence.read

def BackendReality.read (v : Json) : BackendReality where
  recordedAt := v.textAt (lit "recordedAt")
  nodes := (nodesOf v).map RealityNode.read
  edges := (edgesOf v).map RealityEdge.read

namespace BackendReality

variable (dateParse : Text → Option ℤ) (graph : BackendReality) (platformIds : List Text)

/-- `Date.parse` of a time that was checked. -/
def time (s : Text) : ℤ := (dateParse s).getD 0

/-- `nodes.get(id)?.runtime`, of the last node of an id. -/
def runtimeById (id : Text) : Option Text :=
  (graph.nodes.reverse.find? fun node => node.id = id).map RealityNode.runtime

def runtimeEvidenceProblems (node : RealityNode) : List Text :=
  node.runtimeEvidence.flatMap fun observation =>
    let observedAt := time dateParse observation.observedAt
    let expiresAt := time dateParse observation.expiresAt
    (if time dateParse graph.recordedAt < observedAt ∨ expiresAt ≤ observedAt ∨
      900000 < expiresAt - observedAt then
      [lit "invalid runtime evidence clock: " ++ node.id] else []) ++
    (if (lit "receipt:").isPrefixOf observation.source then []
      else [lit "runtime evidence lacks receipt: " ++ node.id])

/-- The problems of a node; `earlier` are the nodes before it. -/
def nodeProblems (earlier : List RealityNode) (node : RealityNode) : List Text :=
  let observed := node.runtime = lit "production-observed"
  (if node.id ∈ earlier.map RealityNode.id
    then [lit "duplicate reality node: " ++ node.id] else []) ++
  (if node.platformNodeId ≠ [] ∧ node.platformNodeId ∉ platformIds then
    [lit "unknown platform reference: " ++ node.id] else []) ++
  (if observed ∧ node.runtimeEvidence = [] then
    [lit "production claim without runtime evidence: " ++ node.id] else []) ++
  (if ¬observed ∧ node.runtimeEvidence ≠ []
    then [lit "runtime proof on unobserved node: " ++ node.id] else []) ++
  (if node.implementation = lit "simulation" ∧ node.runtime ≠ lit "development-only" then
    [lit "simulation promoted beyond development: " ++ node.id] else []) ++
  (if node.implementation = lit "retired" ∧
    (node.runtime ≠ lit "retired" ∨ node.decision ≠ lit "archive") then
    [lit "retired classification mismatch: " ++ node.id] else []) ++
  (if node.implementation = lit "missing" ∧ observed then
    [lit "missing implementation claims production: " ++ node.id] else []) ++
  (if node.decision ∈ [lit "complete", lit "retire-after-gate"] ∧ node.nextGate = [] then
    [lit "missing completion gate: " ++ node.id] else []) ++
  graph.runtimeEvidenceProblems dateParse node

/-- The problems of an edge; `earlier` are the edges before it. -/
def edgeProblems (earlier : List RealityEdge) (edge : RealityEdge) : List Text :=
  (if edge.id ∈ earlier.map RealityEdge.id
    then [lit "duplicate reality edge: " ++ edge.id] else []) ++
  (if (graph.runtimeById edge.start).isNone ∨ (graph.runtimeById edge.target).isNone then
    [lit "dangling reality edge: " ++ edge.id] else []) ++
  (if edge.status = lit "ACTIVE" ∧ (graph.runtimeById edge.start = some (lit "retired") ∨
      graph.runtimeById edge.target = some (lit "retired"))
        then [lit "active retired edge: " ++ edge.id] else []) ++
  (if edge.relation = lit "SUPERSEDES" ∧ edge.status = lit "ACTIVE" ∧
      graph.runtimeById edge.start ≠ some (lit "production-observed") then
    [lit "unproved supersession: " ++ edge.id] else [])

def realityProblems : List Text :=
  withEarlier (graph.nodeProblems dateParse platformIds) graph.nodes ++
    withEarlier graph.edgeProblems graph.edges

end BackendReality

def decodeReality (dateParse : Text → Option ℤ) (input : Json) (platform : Json) :
    Option BackendReality :=
  let graph := BackendReality.read input
  if isBackendReality dateParse input = true ∧
      graph.realityProblems dateParse ((nodesOf platform).map idOf) = [] then some graph else none

/-- `outcome` stands for the four outcomes of runtime evidence. -/
inductive EvidenceState where
  | outcome (text : Text)
  | stale
  | unverified
  deriving DecidableEq, Repr

def evidenceState (dateParse : Text → Option ℤ) (node : RealityNode) (now : ℤ) : EvidenceState :=
  let time := BackendReality.time dateParse
  let sorted := node.runtimeEvidence.insertionSort fun a b => time b.observedAt ≤ time a.observedAt
  match sorted.head? with
  | none => .unverified
  | some latest =>
    if now < time latest.observedAt then .unverified
    else if time latest.expiresAt ≤ now then .stale else .outcome latest.outcome

structure RealityCounts where
  implementation : Table Text ℕ
  runtime : Table Text ℕ
  decision : Table Text ℕ
  evidenceState : Table EvidenceState ℕ

/-- The counts of `realityView`. -/
def realityCounts (dateParse : Text → Option ℤ) (graph : BackendReality) (now : ℤ) :
    RealityCounts where
  implementation := count (graph.nodes.map RealityNode.implementation)
  runtime := count (graph.nodes.map RealityNode.runtime)
  decision := count (graph.nodes.map RealityNode.decision)
  evidenceState := count (graph.nodes.map fun node => evidenceState dateParse node now)

end Metahumotonic.Platform
