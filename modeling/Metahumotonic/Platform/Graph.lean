import Metahumotonic.Platform.Documents

/-! The integrity of a catalog (`graphProblems` and `decodeCatalog` of
`ts/src/domain/PlatformGraph.ts`) and the checks of a batch (`observationProblems` of
`ts/src/domain/ObservationIngest.ts`), on the fields that they read. -/
namespace Metahumotonic.Platform
open Metahumotonic.Library Json

def asText : Json → Text
  | .text s => s
  | _ => []

structure Deployment where
  subjectId : Text
  hostId : Text
  deriving DecidableEq, Repr

/-- A node; an absent text or list is empty. -/
structure Node where
  id : Text
  kind : Text
  aliases : List Text
  category : Text
  ownerRepositoryId : Text
  deployment : Option Deployment
  deriving DecidableEq, Repr

structure Edge where
  id : Text
  start : Text
  target : Text
  relation : Text
  status : Text
  deriving DecidableEq, Repr

structure Observation where
  id : Text
  subjectId : Text
  observedAt : Text
  expiresAt : Text
  deriving DecidableEq, Repr

structure Catalog where
  observedAt : Text
  nodes : List Node
  edges : List Edge
  observations : List Observation
  deriving DecidableEq, Repr

def Deployment.read (v : Json) : Deployment := ⟨v.textAt (lit "subjectId"), v.textAt (lit "hostId")⟩

def Node.read (v : Json) : Node where
  id := idOf v
  kind := kindOf v
  aliases := (v.itemsAt (lit "aliases")).map asText
  category := v.textAt (lit "category")
  ownerRepositoryId := v.textAt (lit "ownerRepositoryId")
  deployment := (v.get (lit "deployment")).map Deployment.read

def Edge.read (v : Json) : Edge where
  id := idOf v
  start := v.textAt (lit "from")
  target := v.textAt (lit "to")
  relation := v.textAt (lit "relation")
  status := v.textAt (lit "status")

def Observation.read (v : Json) : Observation :=
  ⟨idOf v, subjectIdOf v, observedAtOf v, expiresAtOf v⟩

def Catalog.read (v : Json) : Catalog where
  observedAt := observedAtOf v
  nodes := (nodesOf v).map Node.read
  edges := (edgesOf v).map Edge.read
  observations := (observationsOf v).map Observation.read

namespace Catalog

variable (graph : Catalog)

/-- `byId.get(id)?.kind`, of the last node of an id. -/
def kindById (id : Text) : Option Text :=
  (graph.nodes.reverse.find? fun node => node.id = id).map Node.kind

def has (id : Text) : Bool := graph.nodes.any fun node => node.id = id

/-- The kinds that a deployment may be of. -/
def deployable : List Text := [lit "service", lit "mcp-server", lit "datastore"]

/-- There is one active edge of a relation from a node, and it ends where it should. -/
def oneEdge (node : Node) (relation target : Text) : Bool :=
  let found := graph.edges.filter fun edge =>
    edge.start = node.id ∧ edge.relation = relation ∧ edge.status = lit "ACTIVE"
  found.length = 1 ∧ found.head?.map Edge.target = some target

def deploymentProblems (node : Node) : List Text :=
  match node.deployment with
  | none => []
  | some deployment =>
    (if (graph.kindById deployment.subjectId).any (deployable.contains ·) then []
      else [lit "invalid deployment subject: " ++ node.id]) ++
    (if graph.kindById deployment.hostId = some (lit "host") then []
      else [lit "invalid deployment host: " ++ node.id]) ++
    ([(lit "DEPLOYMENT_OF", deployment.subjectId), (lit "RUNS_ON", deployment.hostId)].filter
      fun r => !graph.oneEdge node r.1 r.2).map fun r => lit "inconsistent deployment edge: " ++
        node.id ++ 47 :: r.1

/-- The problems of a node; `earlier` are the nodes before it. -/
def nodeProblems (earlier : List Node) (node : Node) : List Text :=
  (if node.id ∈ earlier.map Node.id then [lit "duplicate node: " ++ node.id] else []) ++
  (if node.aliases.Nodup then [] else [lit "duplicate alias: " ++ node.id]) ++
  (if node.category ≠ [] ∧ node.kind ≠ lit "program"
    then [lit "category on non-program: " ++ node.id] else []) ++
  (if node.ownerRepositoryId ≠ [] ∧
    graph.kindById node.ownerRepositoryId ≠ some (lit "repository") then
    [lit "invalid owner repository: " ++ node.id] else []) ++
  (if (node.kind = lit "deployment") ↔ node.deployment.isSome = true then []
    else [lit "deployment metadata mismatch: " ++ node.id]) ++
  graph.deploymentProblems node

/-- The problems of an edge; `earlier` are the edges before it. -/
def edgeProblems (earlier : List Edge) (edge : Edge) : List Text :=
  (if edge.id ∈ earlier.map Edge.id then [lit "duplicate edge: " ++ edge.id] else []) ++
  (if graph.has edge.start && graph.has edge.target then []
    else [lit "dangling edge: " ++ edge.id]) ++
  (if edge.relation = lit "DEPLOYMENT_OF" ∧ (graph.kindById edge.start ≠ some (lit "deployment") ∨
      (graph.kindById edge.target).any (deployable.contains ·) = false) then
    [lit "invalid deployment relation: " ++ edge.id] else []) ++
  (if edge.relation = lit "RUNS_ON" ∧ (graph.kindById edge.start ≠ some (lit "deployment") ∨
      graph.kindById edge.target ≠ some (lit "host")) then
    [lit "invalid host relation: " ++ edge.id] else [])

/-- `dependencies.get(id) ?? []`. -/
def dependencies (id : Text) : List Text :=
  (graph.edges.filter fun edge =>
    edge.start = id ∧ edge.relation = lit "DEPENDS_ON" ∧ edge.status = lit "ACTIVE").map Edge.target

structure Walk where
  visited : List Text := []
  active : List Text := []
  problems : List Text := []
  deriving DecidableEq, Repr

/-- Every active id but the first is the end of an edge, so that as much fuel as there are edges
and two more is enough. -/
def visit : ℕ → Text → Walk → Walk
  | 0, _, walk => walk
  | fuel + 1, id, walk =>
    if id ∈ walk.active
      then { walk with problems := walk.problems ++ [lit "dependency cycle: " ++ id] }
    else if id ∈ walk.visited then walk
    else
      let within := (graph.dependencies id).foldl (fun walk child => visit fuel child walk)
        { walk with active := walk.active ++ [id] }
      { within with active := within.active.erase id, visited := within.visited ++ [id] }

def cycleProblems : List Text :=
  ((graph.nodes.map Node.id).foldl (fun walk id => graph.visit (graph.edges.length + 2) id walk)
    {}).problems

/-- The problems of an observation; `earlier` are the observations before it. -/
def observationProblems (earlier : List Observation) (observation : Observation) : List Text :=
  (if observation.id ∈ earlier.map Observation.id
    then [lit "duplicate observation: " ++ observation.id] else []) ++
  (if graph.has observation.subjectId then []
    else [lit "unknown observation subject: " ++ observation.id]) ++
  (if timeOf observation.expiresAt ≤ timeOf observation.observedAt then
    [lit "invalid observation expiry: " ++ observation.id] else []) ++
  (if timeOf graph.observedAt < timeOf observation.observedAt then
    [lit "observation newer than snapshot: " ++ observation.id] else [])

end Catalog

/-- The problems of each item, which may depend on the items before it. -/
def withEarlier {α : Type*} (problems : List α → α → List Text) (items : List α) : List Text :=
  items.zipIdx.flatMap fun item => problems (items.take item.2) item.1

def graphProblems (graph : Catalog) : List Text :=
  withEarlier graph.nodeProblems graph.nodes ++ withEarlier graph.edgeProblems graph.edges ++
    graph.cycleProblems ++ withEarlier graph.observationProblems graph.observations

/-- An accepted catalog is returned as it is. -/
def decodeCatalog (input : Json) : Option Json :=
  if isPlatformCatalog input = true ∧ graphProblems (.read input) = [] then some input else none

/-- The problems of an observation of a batch; `earlier` are the observations before it. -/
def batchProblems (catalog : Catalog) (now : ℤ) (earlier : List Observation)
    (observation : Observation) : List Text :=
  (if observation.id ∈ earlier.map Observation.id
    then [lit "duplicate observation identity"] else []) ++
  (if catalog.has observation.subjectId then [] else [lit "unknown observation subject"]) ++
  (if now < timeOf observation.observedAt then [lit "future observation"] else []) ++
  (if timeOf observation.expiresAt ≤ timeOf observation.observedAt
    then [lit "invalid observation expiry"] else [])

def observationProblems (catalog : Catalog) (observations : List Observation) (now : ℤ) :
    List Text :=
  withEarlier (batchProblems catalog now) observations

end Metahumotonic.Platform
