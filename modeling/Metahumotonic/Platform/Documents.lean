import Metahumotonic.Library.IsoDate
import Metahumotonic.Library.JsonForm

/-! The documents of the platform inventory (`ts/src/domain/PlatformGraph.ts`,
`ts/src/domain/ObservationIngest.ts`): their schemas, and what is read of them. A text is the
list of its UTF-16 code units. -/
namespace Metahumotonic.Platform
open Metahumotonic.Library Json

/-- `PlatformId`: a small letter or digit, then at most 159 of these, colons, points, underlines,
slashes and hyphens. -/
def isPlatformId (s : Text) : Bool :=
  let letter := fun c : ℕ => (decide (97 ≤ c) && decide (c ≤ 122)) || isDigit c
  let sign := fun c : ℕ => letter c || c == 58 || c == 46 || c == 95 || c == 47 || c == 45
  match s with
  | [] => false
  | first :: rest => letter first && decide (rest.length ≤ 159) && rest.all sign

/-- `(?:\.\d{1,6})?(?:Z|\+00:00)`. -/
def isTimeTail (s : Text) : Bool :=
  let zone := fun s : Text => s == [90] || s == [43, 48, 48, 58, 48, 48]
  if s.head? = some 46 then
    let digits := (s.drop 1).takeWhile isDigit
    digits != [] && decide (digits.length ≤ 6) && zone (s.drop (1 + digits.length))
  else zone s

/-- `\d{4}-\d{2}-\d{2}T\d{2}:\d{2}:\d{2}`. -/
def timeMask : List (ℕ → Bool) := [isDigit, isDigit, isDigit, isDigit] ++ IsoDate.restMask

def isObservationTime (s : Text) : Bool :=
  IsoDate.shaped timeMask (s.take 19) && isTimeTail (s.drop 19) &&
    (IsoDate.dateParse s).any fun t => (IsoDate.toISOString t).take 19 == s.take 19

def isLiteral (texts : List Text) : Json → Bool := isText fun s => texts.contains s

def isBetween (least most : ℕ) : Json → Bool := isText fun s => decide (least ≤ s.length) && decide
    (s.length ≤ most)

def isId : Json → Bool := isText isPlatformId

def evidenceFields : List Field :=
  [required (lit "source") (isBetween 1 1024),
    required (lit "authority")
      (isLiteral [lit "USER_PRIMARY", lit "SYSTEM_DERIVED", lit "SOURCE_DECLARED",
      lit "SECONDARY_AI", lit "UNSPECIFIED"]),
    required (lit "observedAt") (isText isObservationTime),
      required (lit "note") (isBetween 0 1600)]

def isEvidence : Json → Bool := isStruct evidenceFields

def platformLifecycles : List Text :=
  [lit "active", lit "candidate", lit "historical", lit "unknown"]

def platformIntegrations : List Text := [lit "native", lit "federated", lit "catalogued"]

def deploymentFields : List Field :=
  [required (lit "subjectId") isId, required (lit "hostId") isId,
    required (lit "environment") (isLiteral [lit "production", lit "development", lit "unknown"]),
    required (lit "runtime")
      (isLiteral [lit "docker", lit "systemd", lit "kubernetes", lit "proxmox"]),
    optional (lit "revision") (isBetween 1 200), optional (lit "image") (isBetween 1 256)]

def nodeFields : List Field :=
  [required (lit "id") isId,
    required (lit "kind")
      (isLiteral [lit "program", lit "repository", lit "service", lit "mcp-server",
      lit "datastore", lit "host", lit "deployment"]),
    required (lit "name") (isBetween 1 200), optional (lit "aliases")
      (isArray 0 20 (isBetween 1 200)),
    required (lit "description") (isBetween 0 2000), required (lit "lifecycle")
      (isLiteral platformLifecycles),
    required (lit "integration") (isLiteral platformIntegrations),
    optional (lit "category")
      (isLiteral [lit "product", lit "research", lit "tooling", lit "operations",
      lit "knowledge", lit "portfolio"]),
    optional (lit "ownerRepositoryId") isId, optional (lit "deployment")
      (isStruct deploymentFields),
    optional (lit "kgUid") (isBetween 0 512), required (lit "evidence") (isArray 1 20 isEvidence)]

def edgeFields : List Field :=
  [required (lit "id") isId, required (lit "from") isId, required (lit "to") isId,
    required (lit "relation")
      (isLiteral [lit "DEPENDS_ON", lit "IMPLEMENTED_BY", lit "EXPOSES", lit "USES",
      lit "EXTENDS", lit "DOCUMENTED_IN", lit "PART_OF", lit "DEPLOYMENT_OF", lit "RUNS_ON"]),
    required (lit "status")
      (isLiteral [lit "ACTIVE", lit "PROPOSED", lit "RETIRED", lit "UNSPECIFIED"]),
    required (lit "evidence") (isArray 1 20 isEvidence)]

def checks : List Text :=
  [lit "process", lit "container-health", lit "readiness", lit "http", lit "backup"]

def outcomes : List Text :=
  [lit "healthy", lit "running", lit "degraded", lit "failed", lit "reachable", lit "unknown"]

def observationFields : List Field :=
  [required (lit "id") isId, required (lit "subjectId") isId, required (lit "observedAt")
    (isText isObservationTime),
    required (lit "expiresAt") (isText isObservationTime), required (lit "check")
      (isLiteral checks),
    required (lit "outcome") (isLiteral outcomes), required (lit "evidence")
      (isArray 1 20 isEvidence)]

def isPlatformObservation : Json → Bool := isStruct observationFields

def catalogFields : List Field :=
  [required (lit "schema") (isLiteral [lit "metahumotonic/platform-catalog@1"]),
    required (lit "observedAt") (isText isObservationTime),
    required (lit "nodes") (isArray 0 2000 (isStruct nodeFields)),
    required (lit "edges") (isArray 0 10000 (isStruct edgeFields)),
    optional (lit "observations") (isArray 0 10000 isPlatformObservation)]

def isPlatformCatalog : Json → Bool := isStruct catalogFields

def batchFields : List Field :=
  [required (lit "receiptId") isId, required (lit "observations")
    (isArray 1 100 isPlatformObservation)]

def isObservationBatch : Json → Bool := isStruct batchFields

/-! What is read of a document. -/

def idOf (v : Json) : Text := v.textAt (lit "id")

def kindOf (v : Json) : Text := v.textAt (lit "kind")

def subjectIdOf (v : Json) : Text := v.textAt (lit "subjectId")

def checkOf (v : Json) : Text := v.textAt (lit "check")

def outcomeOf (v : Json) : Text := v.textAt (lit "outcome")

def observedAtOf (v : Json) : Text := v.textAt (lit "observedAt")

def expiresAtOf (v : Json) : Text := v.textAt (lit "expiresAt")

def nodesOf (catalog : Json) : List Json := catalog.itemsAt (lit "nodes")

def edgesOf (catalog : Json) : List Json := catalog.itemsAt (lit "edges")

/-- `catalog.observations ?? []`, and the observations of a batch. -/
def observationsOf (v : Json) : List Json := v.itemsAt (lit "observations")

def receiptIdOf (batch : Json) : Text := batch.textAt (lit "receiptId")

/-- `Date.parse` of a time that was checked. -/
def timeOf (s : Text) : ℤ := (IsoDate.dateParse s).getD 0

end Metahumotonic.Platform
