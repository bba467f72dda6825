import Metahumotonic.Library.PercentEncoding
import Metahumotonic.Platform.Reality

/-! The JSON-LD projections of the assessment of the back end (`ts/src/domain/BackendReality.ts`)
and of a catalog (`ts/src/domain/PlatformInventory.ts`). -/
namespace Metahumotonic.Platform
open Metahumotonic.Library Json

/-- `urn:metahumotonic:${graph}:${scope}:${encodeURIComponent(id)}`; an id has no surrogates. -/
def iriIn (graph id scope : Text) : Text :=
  lit "urn:metahumotonic:" ++ graph ++ 58 :: scope ++ 58 :: encodeURIComponent id

/-- `${id}:${index}`. -/
def indexed (id : Text) (index : ℕ) : Text := id ++ 58 :: decimal index

def reference (iri : Text) : Json := .object [(lit "@id", .text iri)]

def dateTime (time : Text) : Json :=
  .object [(lit "@value", .text time), (lit "@type", .text (lit "xsd:dateTime"))]

/-- `@context`, which is the same but for the vocabulary. -/
def context (vocabulary : Text) : Json :=
  .object [(lit "@version", .float (lit "1.1")), (lit "mh", .text vocabulary),
  (lit "schema", .text (lit "https://schema.org/")),
  (lit "prov", .text (lit "http://www.w3.org/ns/prov#")),
  (lit "rdf", .text (lit "http://www.w3.org/1999/02/22-rdf-syntax-ns#")),
  (lit "xsd", .text (lit "http://www.w3.org/2001/XMLSchema#"))]

/-- `...(text ? { key: value } : {})`. -/
def given (text key : Text) (value : Json) : Members := if text = [] then [] else [(key, value)]

/-- A record: its identifier first, after the other members the evidence that it was derived from.
-/
def recordOf (id : Text) (members : Members) (derived : List Json) (after : Members) : Json :=
  .object ((lit "@id", .text id) ::
    (members ++ (lit "prov:wasDerivedFrom", .array derived) :: after))

namespace PlatformInventory

def ns : Text := lit "https://metahumotonic.com/vocab/platform#"

def iri (id scope : Text) : Text := iriIn (lit "platform") id scope

def evidence (id : Text) (records : List Json) : List Json :=
  records.mapIdx fun index record =>
    .object [(lit "@id", .text (iri (indexed id index) (lit "evidence"))),
    (lit "@type", .text (lit "prov:Entity")),
    (lit "mh:sourceLocator", .text (record.textAt (lit "source"))),
    (lit "mh:authority", .text (record.textAt (lit "authority"))),
    (lit "prov:generatedAtTime", dateTime (observedAtOf record)),
    (lit "schema:description", .text (record.textAt (lit "note")))]

/-- `prov:wasDerivedFrom` of a record; the id is told apart by its kind. -/
def derived (kind : Text) (v : Json) : List Json := evidence (kind ++ 58 :: idOf v)
    (v.itemsAt (lit "evidence"))

def deploymentMembers (node : Json) : Members :=
  match node.get (lit "deployment") with
  | none => []
  | some deployment =>
    [(lit "mh:environment", .text (deployment.textAt (lit "environment"))),
      (lit "mh:runtime", .text (deployment.textAt (lit "runtime"))),
      (lit "mh:deploymentSubject", reference (iri (subjectIdOf deployment) (lit "node"))),
      (lit "mh:host", reference (iri (deployment.textAt (lit "hostId")) (lit "node")))] ++
    given (deployment.textAt (lit "revision")) (lit "mh:revision")
      (.text (deployment.textAt (lit "revision"))) ++
    given (deployment.textAt (lit "image")) (lit "mh:image")
      (.text (deployment.textAt (lit "image")))

/-- The members of a node between its identifier and its evidence. -/
def nodeMembers (node : Json) : Members :=
  let category := node.textAt (lit "category")
  let owner := node.textAt (lit "ownerRepositoryId")
  let kgUid := node.textAt (lit "kgUid")
  [(lit "@type", .array [.text (lit "prov:Entity"), .text (lit "mh:" ++ kindOf node)]),
      (lit "schema:identifier", .text (idOf node)),
      (lit "schema:name", .text (node.textAt (lit "name"))),
      (lit "schema:description", .text (node.textAt (lit "description"))),
      (lit "schema:alternateName", .array (node.itemsAt (lit "aliases"))),
      (lit "mh:lifecycle", .text (node.textAt (lit "lifecycle"))),
      (lit "mh:integration", .text (node.textAt (lit "integration")))] ++
    given category (lit "mh:category") (.text category) ++
    given owner (lit "mh:ownerRepository") (reference (iri owner (lit "node"))) ++
    given kgUid (lit "mh:sourceKnowledgeRecord") (.text kgUid) ++ deploymentMembers node

def nodeRecord (node : Json) : Json :=
  recordOf (iri (idOf node) (lit "node")) (nodeMembers node) (derived (lit "node") node) []

def edgeRecord (edge : Json) : Json :=
  recordOf (iri (idOf edge) (lit "edge"))
    [(lit "@type", .text (lit "rdf:Statement")), (lit "schema:identifier", .text (idOf edge)),
      (lit "rdf:subject", reference (iri (edge.textAt (lit "from")) (lit "node"))),
      (lit "rdf:predicate", reference (ns ++ edge.textAt (lit "relation"))),
      (lit "rdf:object", reference (iri (edge.textAt (lit "to")) (lit "node"))),
      (lit "mh:status", .text (edge.textAt (lit "status")))]
    (derived (lit "edge") edge) []

def observationRecord (observation : Json) : Json :=
  recordOf (iri (idOf observation) (lit "observation"))
    [(lit "@type", .array [.text (lit "prov:Entity"), .text (lit "mh:Observation")]),
      (lit "schema:identifier", .text (idOf observation)),
      (lit "mh:subject", reference (iri (subjectIdOf observation) (lit "node"))),
      (lit "mh:check", .text (checkOf observation)),
      (lit "mh:outcome", .text (outcomeOf observation)),
      (lit "prov:generatedAtTime", dateTime (observedAtOf observation)),
      (lit "mh:expiresAt", dateTime (expiresAtOf observation))]
    (derived (lit "observation") observation) []

end PlatformInventory

open PlatformInventory in
def platformJsonLd (graph : Json) (source : Text) : Json :=
  .object [(lit "@context", context ns), (lit "@id", .text (iri (lit "catalog") (lit "document"))),
    (lit "@type", .text (lit "schema:Dataset")),
    (lit "prov:generatedAtTime", dateTime (observedAtOf graph)),
    (lit "mh:source", .text source), (lit "mh:visibility", .text (lit "internal")),
    (lit "@graph", .array ((nodesOf graph).map nodeRecord ++ (edgesOf graph).map edgeRecord ++
      (observationsOf graph).map observationRecord))]

def EvidenceState.text : EvidenceState → Text
  | .outcome text => text
  | .stale => lit "stale"
  | .unverified => lit "unverified"

namespace BackendReality

def ns : Text := lit "https://metahumotonic.com/vocab/backend-reality#"

def iri (id scope : Text) : Text := iriIn (lit "backend-reality") id scope

/-- `prov:wasDerivedFrom` of a node or of an edge. -/
def derived (v : Json) : List Json :=
  (v.itemsAt (lit "evidence")).mapIdx fun index e =>
    .object [(lit "@id", .text (iri (indexed (idOf v) index) (lit "evidence"))),
      (lit "@type", .text (lit "prov:Entity")),
      (lit "mh:sourceLocator", .text (e.textAt (lit "source"))),
      (lit "mh:evidenceKind", .text (e.textAt (lit "kind")))]

def runtimeEvidence (node : Json) : List Json :=
  (node.itemsAt (lit "runtimeEvidence")).mapIdx fun index e =>
    .object [(lit "@id", .text (iri (indexed (idOf node) index) (lit "runtime"))),
      (lit "@type", .text (lit "mh:RuntimeEvidence")),
      (lit "mh:sourceLocator", .text (e.textAt (lit "source"))),
      (lit "mh:outcome", .text (outcomeOf e)),
      (lit "prov:generatedAtTime", dateTime (observedAtOf e)),
      (lit "mh:expiresAt", dateTime (expiresAtOf e))]

/-- The members of a node between its identifier and its evidence. -/
def nodeMembers (dateParse : Text → Option ℤ) (now : ℤ) (node : Json) : Members :=
  let platformNodeId := node.textAt (lit "platformNodeId")
  [(lit "@type", .array [.text (lit "prov:Entity"), .text (lit "mh:Component")]),
      (lit "schema:identifier", .text (idOf node)),
      (lit "schema:name", .text (node.textAt (lit "name"))),
      (lit "mh:implementation", .text (node.textAt (lit "implementation"))),
      (lit "mh:runtime", .text (node.textAt (lit "runtime"))),
      (lit "mh:decision", .text (node.textAt (lit "decision"))),
      (lit "mh:evidenceState", .text (evidenceState dateParse (.read node) now).text)] ++
    given platformNodeId (lit "mh:platformReference")
      (reference (PlatformInventory.iri platformNodeId (lit "node")))

def nodeRecord (dateParse : Text → Option ℤ) (now : ℤ) (node : Json) : Json :=
  recordOf (iri (idOf node) (lit "node")) (nodeMembers dateParse now node) (derived node)
    [(lit "mh:runtimeEvidence", .array (runtimeEvidence node))]

def edgeRecord (edge : Json) : Json :=
  recordOf (iri (idOf edge) (lit "edge"))
    [(lit "@type", .text (lit "rdf:Statement")), (lit "schema:identifier", .text (idOf edge)),
      (lit "rdf:subject", reference (iri (edge.textAt (lit "from")) (lit "node"))),
      (lit "rdf:predicate", reference (ns ++ edge.textAt (lit "relation"))),
      (lit "rdf:object", reference (iri (edge.textAt (lit "to")) (lit "node"))),
      (lit "mh:status", .text (edge.textAt (lit "status"))),
      (lit "schema:description", .text (edge.textAt (lit "meaning")))]
    (derived edge) []

end BackendReality

open BackendReality in
/-- `realityJsonLd` of an assessment that was decoded. -/
def realityJsonLd (dateParse : Text → Option ℤ) (graph : Json) (now : ℤ) : Json :=
  .object [(lit "@context", context ns),
    (lit "@id", .text (iri (lit "assessment") (lit "document"))),
    (lit "@type", .text (lit "schema:Dataset")),
    (lit "prov:generatedAtTime", dateTime (graph.textAt (lit "recordedAt"))),
    (lit "mh:evaluatedAt", dateTime (IsoDate.toISOString now)),
    (lit "mh:visibility", .text (lit "internal")),
    (lit "@graph", .array
      ((nodesOf graph).map (nodeRecord dateParse now) ++ (edgesOf graph).map edgeRecord))]

/-- The identifiers of a record and of the evidence below it. -/
def recordIdentifiers (record : Json) : List Text :=
  record.textAt (lit "@id") ::
    (record.itemsAt (lit "prov:wasDerivedFrom") ++ record.itemsAt (lit "mh:runtimeEvidence")).map
      fun e =>
      e.textAt (lit "@id")

/-- The identifiers that a document gives. -/
def identifiers (document : Json) : List Text :=
  document.textAt (lit "@id") :: (document.itemsAt (lit "@graph")).flatMap recordIdentifiers

end Metahumotonic.Platform
