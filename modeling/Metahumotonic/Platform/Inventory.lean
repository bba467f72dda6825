import Metahumotonic.Library.Run
import Metahumotonic.Platform.Accepted

/-! The PostgreSQL store of the platform (`ts/src/ports/PlatformInventoryPostgres.ts`) over the
tables of `config/migrations/001-platform.sql`. A statement checks its casts and the constraints
of its table. A transaction is one step: the advisory lock serializes it, and whatever it raises
rolls it back. -/
namespace Metahumotonic.Platform
open Metahumotonic.Library Json

/-- The hash function, the checksum of the shipped migration, what the database makes of a time
(in microseconds) and of a document, and how it collates texts. JSONB may reorder the members of
objects, and refuses some texts. -/
structure Postgres where
  sha256 : Text → Text
  checksum : Text
  timestamptz : Text → Option ℤ
  jsonb : Json → Option Json
  collates : Text → Text → Bool
  jsonb_same : ∀ v w, jsonb v = some w → Same v w

structure CatalogVersion where
  digest : Text
  observedAt : ℤ
  document : Json

structure AssetVersion where
  catalogDigest : Text
  id : Text
  kind : Text
  ownerRepositoryId : Option Text
  document : Json

/-- A row of `ingest_receipts`; the time is in milliseconds. -/
structure ReceiptRow where
  id : Text
  payloadDigest : Text
  catalogDigest : Text
  receivedAt : ℤ
  observationCount : ℕ
  insertedCount : ℕ
  deriving DecidableEq, Repr

structure ObservationRow where
  id : Text
  payloadDigest : Text
  subjectId : Text
  catalogDigest : Text
  receiptId : Text
  checkKind : Text
  outcome : Text
  observedAt : ℤ
  expiresAt : ℤ
  document : Json

structure Tables where
  schemaMigrations : List (ℕ × Text) := []
  catalogVersions : List CatalogVersion := []
  assetVersions : List AssetVersion := []
  ingestReceipts : List ReceiptRow := []
  observations : List ObservationRow := []

/-- `IngestReceipt`. -/
structure Receipt where
  receiptId : Text
  digest : Text
  definitionDigest : Text
  receivedAt : Text
  observationCount : ℕ
  insertedCount : ℕ
  deriving DecidableEq, Repr

/-- `IngestResult`. -/
structure IngestResult extends Receipt where
  replayed : Bool
  deriving DecidableEq, Repr

/-- `raised` is any other exception: of a statement, a decoder or the connection. -/
inductive Failure where
  | badRequest (reason : Text)
  | conflict (reason : Text)
  | unavailable
  | raised
  deriving DecidableEq, Repr

/-- The deferred foreign key of an owner. -/
def Tables.ownersExist (tables : Tables) : Bool :=
  tables.assetVersions.all fun asset => asset.ownerRepositoryId.all fun owner =>
    tables.assetVersions.any fun other => other.catalogDigest == asset.catalogDigest &&
      other.id == owner

/-- A transaction that fails is rolled back; deferred constraints are checked at its commit. -/
def transaction {A : Type*} (operation : Tables → Except Failure (A × Tables)) (tables : Tables) :
    Except Failure A × Tables :=
  match operation tables with
  | .error failure => (.error failure, tables)
  | .ok (result, written) => if written.ownersExist then (.ok result, written)
    else (.error .raised, tables)

/-- `^[a-f0-9]{64}$`. -/
def isDigest (s : Text) : Bool :=
  decide (s.length = 64) && s.all fun c => isDigit c || (decide (97 ≤ c) && decide (c ≤ 102))

/-- `receiptRow`: the row of a receipt is decoded before it is answered. -/
def receiptRow (row : ReceiptRow) : Except Failure Receipt :=
  let receivedAt := IsoDate.toISOString row.receivedAt
  if isPlatformId row.id && isObservationTime receivedAt then
    .ok { receiptId := row.id, digest := row.payloadDigest, definitionDigest :=
      row.catalogDigest, receivedAt,
          observationCount := row.observationCount, insertedCount := row.insertedCount }
  else .error .raised

namespace Tables

variable (tables : Tables)

def receipt? (id : Text) : Option ReceiptRow := tables.ingestReceipts.find? fun row => row.id = id

def definition? (digest : Text) : Option CatalogVersion :=
  tables.catalogVersions.find? fun version => version.digest = digest

def hasAsset (digest id : Text) : Bool :=
  tables.assetVersions.any fun asset => asset.catalogDigest == digest && asset.id == id

/-- The stored observations with an id of the batch. -/
def existing (batch : Json) : List ObservationRow :=
  tables.observations.filter fun row => ((observationsOf batch).map idOf).contains row.id

end Tables

/-- An observation of a batch with its digest. -/
structure Submitted where
  document : Json
  digest : Text

def Submitted.json (row : Submitted) : Json :=
  .object [(lit "document", row.document), (lit "digest", .text row.digest)]

namespace Postgres

variable (db : Postgres)

def contentDigest (v : Json) : Text := Platform.contentDigest db.sha256 v

def verifyMigration (tables : Tables) : Except Failure Unit :=
  if tables.schemaMigrations = [(1, db.checksum)] then .ok () else .error .unavailable

/-- `x->>'key'`. -/
def field (v : Json) (key : Text) : Option Text :=
  match v.get key with
  | some (.text s) => some s
  | _ => none

def insertCatalog (digest : Text) (catalog : Json) (tables : Tables) : Except Failure Tables :=
  match db.timestamptz (observedAtOf catalog), db.jsonb catalog with
  | some observedAt, some document =>
    if isDigest digest then
      if (tables.definition? digest).isSome then .ok tables
      else .ok { tables with catalogVersions := tables.catalogVersions ++
        [⟨digest, observedAt, document⟩] }
    else .error .raised
  | _, _ => .error .raised

def assetKinds : List Text :=
  [lit "program", lit "repository", lit "service", lit "mcp-server", lit "datastore",
  lit "host", lit "deployment"]

/-- One row of `INSERT INTO asset_versions ... ON CONFLICT DO NOTHING`. -/
def insertAsset (digest : Text) (tables : Tables) (x : Json) : Except Failure Tables :=
  match field x (lit "id"), field x (lit "kind") with
  | some id, some kind =>
    if assetKinds.contains kind && (tables.definition? digest).isSome then
      if tables.hasAsset digest id then .ok tables
      else .ok { tables with assetVersions := tables.assetVersions ++
        [⟨digest, id, kind, field x (lit "ownerRepositoryId"), x⟩] }
    else .error .raised
  | _, _ => .error .raised

/-- The elements of an array as the database holds them. -/
def elements (items : List Json) : Except Failure (List Json) :=
  match db.jsonb (.array items) with
  | some (.array stored) => .ok stored
  | _ => .error .raised

def insertReceipt (row : ReceiptRow) (tables : Tables) : Except Failure Tables :=
  if (tables.receipt? row.id).isNone && isDigest row.payloadDigest &&
    (tables.definition? row.catalogDigest).isSome &&
      decide (row.insertedCount ≤ row.observationCount) then
    .ok { tables with ingestReceipts := tables.ingestReceipts ++ [row] }
  else .error .raised

/-- The row that the statement selects from an element of the fresh observations. -/
def observationRow (definitionDigest receiptId : Text) (x : Json) : Option ObservationRow := do
  let document ← x.get (lit "document")
  let observedAt ← db.timestamptz (observedAtOf document)
  let expiresAt ← db.timestamptz (expiresAtOf document)
  return { id := ← field document (lit "id"), payloadDigest := ← field x (lit "digest"),
           subjectId := ← field document (lit "subjectId"), catalogDigest :=
             definitionDigest, receiptId,
           checkKind := ← field document (lit "check"), outcome :=
             ← field document (lit "outcome"), observedAt,
           expiresAt, document }

/-- One row of `INSERT INTO observations`. -/
def insertObservation (definitionDigest receiptId : Text) (tables : Tables) (x : Json) :
    Except Failure Tables :=
  match db.observationRow definitionDigest receiptId x with
  | some row =>
    if tables.observations.all (fun other => other.id != row.id) && isDigest row.payloadDigest &&
        (tables.receipt? receiptId).isSome && checks.contains row.checkKind && outcomes.contains
          row.outcome &&
        decide (row.observedAt < row.expiresAt) && tables.hasAsset definitionDigest
          row.subjectId then
      .ok { tables with observations := tables.observations ++ [row] }
    else .error .raised
  | none => .error .raised

def submitted (batch : Json) : List Submitted :=
  (observationsOf batch).map fun document => ⟨document, db.contentDigest document⟩

/-- An observation of the batch is stored with another digest. -/
def conflicting (batch : Json) (tables : Tables) : Bool :=
  (db.submitted batch).any fun row =>
    (tables.existing batch).any fun old =>
      old.id == idOf row.document && old.payloadDigest != row.digest

def fresh (batch : Json) (tables : Tables) : List Submitted :=
  (db.submitted batch).filter fun row => (tables.existing batch).all fun old =>
    old.id != idOf row.document

/-- The row of a new receipt. -/
def receiptOf (definitionDigest : Text) (batch : Json) (receivedAt : ℤ) (tables : Tables) :
    ReceiptRow :=
  { id := receiptIdOf batch, payloadDigest := db.contentDigest batch,
    catalogDigest := definitionDigest, receivedAt,
    observationCount := (db.submitted batch).length, insertedCount :=
      (db.fresh batch tables).length }

/-- The batch is new: what is stored of it. -/
def accept (definitionDigest : Text) (batch : Json) (receivedAt : ℤ) (tables : Tables) :
    Except Failure (IngestResult × Tables) :=
  if db.conflicting batch tables then .error (.conflict (lit "observation_id_conflict"))
  else do
    let saved := db.receiptOf definitionDigest batch receivedAt tables
    let written ← insertReceipt saved tables
    let stored ← db.elements ((db.fresh batch tables).map Submitted.json)
    let written ← stored.foldlM (db.insertObservation definitionDigest (receiptIdOf batch)) written
    let receipt ← receiptRow saved
    return ({ receipt with replayed := false }, written)

/-- `problems.join("; ")`. -/
def joinProblems (problems : List Text) : Text := (lit "; ").intercalate problems

def ingest (catalog : Json) (definitionDigest : Text) (batch : Json) (now receivedAt : ℤ)
    (tables : Tables) :
    Except Failure (IngestResult × Tables) :=
  match tables.receipt? (receiptIdOf batch) with
  | some previous =>
    if previous.payloadDigest ≠ db.contentDigest batch
      then .error (.conflict (lit "receipt_id_conflict"))
    else do
      let receipt ← receiptRow previous
      return ({ receipt with replayed := true }, tables)
  | none =>
    let problems := observationProblems (.read catalog)
      ((observationsOf batch).map Observation.read) now
    if problems ≠ [] then .error (.badRequest (joinProblems problems))
    else db.accept definitionDigest batch receivedAt tables

/-- `{ receiptId, observations }` of an imported catalog. -/
def catalogBatch (digest : Text) (catalog : Json) : Json :=
  .object [(lit "receiptId", .text (lit "catalog:" ++ digest)),
    (lit "observations", .array (observationsOf catalog))]

/-- The transaction of an import. -/
def importing (catalog : Json) (now receivedAt : ℤ) (tables : Tables) : Except Failure
    (IngestResult × Tables) := do
  let digest := db.contentDigest catalog
  db.verifyMigration tables
  let tables ← db.insertCatalog digest catalog tables
  let nodes ← db.elements (nodesOf catalog)
  let tables ← nodes.foldlM (insertAsset digest) tables
  db.ingest catalog digest (catalogBatch digest catalog) now receivedAt tables

/-- The clocks are those of the process and of the database. -/
def importPlatformCatalog (input : Json) (now receivedAt : ℤ) (tables : Tables) :
    Except Failure IngestResult × Tables :=
  match decodeCatalog input with
  | none => (.error .raised, tables)
  | some catalog => transaction (db.importing catalog now receivedAt) tables

/-- The definition that a replica pins, as it was imported. -/
def definition (pinned : Text) (tables : Tables) : Except Failure Json := do
  db.verifyMigration tables
  match tables.definition? pinned with
  | none => throw .unavailable
  | some version =>
    match decodeCatalog version.document with
    | none => throw .raised
    | some graph => if db.contentDigest graph = pinned then return graph else throw .unavailable

/-- `ORDER BY o.subject_id, o.check_kind, o.observed_at DESC, o.id DESC`. -/
def ordered (a b : ObservationRow) : Prop :=
  if a.subjectId ≠ b.subjectId then db.collates a.subjectId b.subjectId
  else if a.checkKind ≠ b.checkKind then db.collates a.checkKind b.checkKind
  else if a.observedAt ≠ b.observedAt then b.observedAt < a.observedAt else db.collates b.id a.id

instance : DecidableRel db.ordered := fun a b => by unfold ordered; infer_instance

/-- `DISTINCT ON (o.subject_id, o.check_kind)`: the first row of each group. -/
def distinctOn (rows : List ObservationRow) : List ObservationRow :=
  rows.foldl (fun kept row =>
    if kept.any fun old => old.subjectId == row.subjectId && old.checkKind == row.checkKind
      then kept else kept ++ [row]) []

/-- The latest observation of each check of each subject of a definition. -/
def latest (pinned : Text) (tables : Tables) : List ObservationRow :=
  distinctOn ((tables.observations.filter fun row =>
    tables.hasAsset pinned row.subjectId).insertionSort db.ordered)

/-- What a read returns. -/
structure Snapshot where
  catalog : Json
  digest : Text
  definitionDigest : Text

/-- `{ ...graph, observedAt, observations }`. -/
def merged (graph : Json) (observations : List Json) : Json :=
  let times := (observations.map fun v => timeOf (observedAtOf v)).foldl max
    (timeOf (observedAtOf graph))
  (graph.put (lit "observedAt") (.text (IsoDate.toISOString times))).put (lit "observations")
    (.array observations)

def reading (pinned : Text) (tables : Tables) : Except Failure Snapshot := do
  let graph ← db.definition pinned tables
  let observations := (db.latest pinned tables).map ObservationRow.document
  if observations.all isPlatformObservation then
    match decodeCatalog (merged graph observations) with
    | some catalog => return { catalog, digest := db.contentDigest catalog, definitionDigest := pinned }
    | none => throw .raised
  else throw .raised

/-- `readAttempt`: whatever is raised is `unavailable`. -/
def readAttempt {A : Type*} : Except Failure A → Except Failure A
  | .error _ => .error .unavailable
  | answer => answer

def read (pinned : Text) (tables : Tables) : Except Failure Snapshot :=
  readAttempt (db.reading pinned tables)

/-- `attempt`: what is no failure of the protocol is `unavailable`. -/
def attempt {A : Type*} : Except Failure A → Except Failure A
  | .error .raised => .error .unavailable
  | answer => answer

/-- The transaction of an append. -/
def appending (pinned : Text) (batch : Json) (now receivedAt : ℤ) (tables : Tables) :
    Except Failure (IngestResult × Tables) := do
  let graph ← db.definition pinned tables
  db.ingest graph pinned batch now receivedAt tables

/-- `append` on a replica that pins the definition of a digest. -/
def append (pinned : Text) (input : Json) (now receivedAt : ℤ) (tables : Tables) :
    Except Failure IngestResult × Tables :=
  if isObservationBatch input then
    let done := transaction (db.appending pinned input now receivedAt) tables
    (attempt done.1, done.2)
  else (.error (.badRequest (lit "invalid observation batch")), tables)

end Postgres

/-- A call of some replica. An outage is a call that the database does not carry out. -/
inductive Call where
  | importCatalog (input : Json) (now receivedAt : ℤ)
  | append (pinned : Text) (input : Json) (now receivedAt : ℤ)
  | outage

def Postgres.step (db : Postgres) (tables : Tables) : Call → Except Failure IngestResult × Tables
  | .importCatalog input now receivedAt => db.importPlatformCatalog input now receivedAt tables
  | .append pinned input now receivedAt => db.append pinned input now receivedAt tables
  | .outage => (.error .unavailable, tables)

/-- The tables of a migrated database. -/
def Postgres.migrated (db : Postgres) : Tables := { schemaMigrations := [(1, db.checksum)] }

end Metahumotonic.Platform
