import Metahumotonic.Platform.Ledger

/-! Ingest is exactly-once and append-only over every run of calls. -/
namespace Metahumotonic.Platform
open Metahumotonic.Library Json

/-- The tables after a run from a migrated database. -/
def Postgres.after (db : Postgres) (calls : List Call) : Tables :=
  (serve db.step db.migrated calls).2

/-- The same submission again, at any time and on any replica. -/
def Call.RetriedBy : Call → Call → Prop
  | .importCatalog input _ _, .importCatalog again _ _ => again = input
  | .append _ input _ _, .append _ again _ _ => again = input
  | _, _ => False

/-- The definition that the replica of a call pins has been imported. -/
def Call.PinnedIn (tables : Tables) : Call → Prop
  | .append pinned _ _ _ => (tables.definition? pinned).isSome = true
  | _ => True

/-- The receipt of a batch is stored, and, when the batch was new, so is each of its
observations under its digest. -/
structure Recorded (db : Postgres) (batch : Json) (result : IngestResult) (t : Tables) : Prop where
  receipt : ∃ row ∈ t.ingestReceipts, row.id = receiptIdOf batch ∧
    row.payloadDigest = db.contentDigest batch ∧
    receiptRow row = .ok result.toReceipt
  observations : result.replayed = false → ∀ v ∈ observationsOf batch, ∃ row ∈ t.observations,
    row.id = idOf v ∧ row.payloadDigest = db.contentDigest v

structure ExactlyOnce (db : Postgres) (calls : List Call) : Prop where
  appendOnly : ∀ later, (db.after calls).Extends (db.after (calls ++ later))
  receipt_bound : ∀ later, ∀ row ∈ (db.after calls).ingestReceipts,
    ∀ other ∈ (db.after (calls ++ later)).ingestReceipts, other.id = row.id → other = row
  observation_bound : ∀ later, ∀ row ∈ (db.after calls).observations,
    ∀ other ∈ (db.after (calls ++ later)).observations, other.id = row.id → other = row
  recorded : ∀ call result, (db.step (db.after calls) call).1 = .ok result →
    Recorded db (call.batch db) result (db.after (calls ++ [call]))
  replayed : ∀ call result, (db.step (db.after calls) call).1 = .ok result → ∀ later retry,
    call.RetriedBy retry →
    retry.PinnedIn (db.after (calls ++ call :: later)) →
    db.step (db.after (calls ++ call :: later)) retry =
      (.ok { result with replayed := true }, db.after (calls ++ call :: later))
  unchanged : ∀ call failure, (db.step (db.after calls) call).1 = .error failure →
    db.after (calls ++ [call]) = db.after calls
  accounted : ((db.after calls).ingestReceipts.map ReceiptRow.insertedCount).sum =
    (db.after calls).observations.length
  pointed : ∀ o ∈ (db.after calls).observations, ∃ row ∈ (db.after calls).ingestReceipts,
    row.id = o.receiptId
  inserted : ∀ call, ∀ o ∈ (db.after (calls ++ [call])).observations,
    o ∉ (db.after calls).observations →
    o.receiptId = receiptIdOf (call.batch db)

section Step

variable {db : Postgres} {t u : Tables} {result : IngestResult} {call : Call}

theorem extends_written {m : Tables} {digest : Text} {batch : Json} {receivedAt : ℤ}
    {documents : List Json}
    {added : List ObservationRow}
    (written : Written db digest batch receivedAt m u result documents added) :
    m.Extends u := by
  obtain rfl := written.tables
  exact ⟨rfl, List.prefix_refl _, List.prefix_refl _, List.prefix_append _ _,
    List.prefix_append _ _⟩

/-- What an accepted call has done. -/
structure Accepted (db : Postgres) (call : Call) (t u : Tables) (result : IngestResult) : Prop where
  verified : db.verifyMigration t = .ok ()
  grown : t.Extends u
  ledger : Ledger db u
  imported : ∀ catalog, call.Imports catalog →
    (u.definition? (db.contentDigest catalog)).isSome = true
  recorded : Recorded db (call.batch db) result u
  inserted : ∀ o ∈ u.observations, o ∉ t.observations → o.receiptId = receiptIdOf (call.batch db)

/-- An observation of a new batch is stored: it was, or it is fresh. -/
theorem written_all {m : Tables} {digest : Text} {batch : Json} {receivedAt : ℤ}
    {documents : List Json}
    {added : List ObservationRow}
    (written : Written db digest batch receivedAt m u result documents added)
    {v : Json} (listed : v ∈ observationsOf batch) :
    ∃ row ∈ u.observations, row.id = idOf v ∧ row.payloadDigest = db.contentDigest v := by
  have submitted : (⟨v, db.contentDigest v⟩ : Submitted) ∈ db.submitted batch :=
    List.mem_map.mpr ⟨v, listed, rfl⟩
  obtain rfl := written.tables
  by_cases new : (m.existing batch).all (fun old => old.id != idOf v) = true
  · have chosen : v ∈ documents := by
      rw [written.chosen]
      exact List.mem_map.mpr ⟨⟨v, db.contentDigest v⟩, List.mem_filter.mpr ⟨submitted, new⟩, rfl⟩
    obtain ⟨row, member, stored⟩ := forall₂_right written.rows chosen
    exact ⟨row, List.mem_append_right _ member, stored.id, stored.payloadDigest⟩
  · rw [List.all_eq_true] at new
    push Not at new
    obtain ⟨old, member, same⟩ := new
    have id : old.id = idOf v := by simpa using same
    refine ⟨old, List.mem_append_left _ (List.mem_of_mem_filter member), id, ?_⟩
    by_contra other
    apply Bool.eq_false_iff.mp written.agreed
    rw [Postgres.conflicting, List.any_eq_true]
    refine ⟨_, submitted, List.any_eq_true.mpr ⟨old, member, ?_⟩⟩
    rw [Bool.and_eq_true, beq_iff_eq, bne_iff_ne]
    exact ⟨id, other⟩

theorem step_accepted (held : Ledger db t) (ok : db.step t call = (.ok result, u)) :
    Accepted db call t u result := by
  obtain ⟨verified, owned, plain, m, catalog, digest, now, receivedAt, prepared, ingested⟩ :=
    step_spec ok
  have distinct : (m.observations.map ObservationRow.id).Nodup := by
    rw [prepared.observations]
    exact held.observations
  rcases ingest_spec ingested plain distinct with
    ⟨previous, found, agreed, decoded, rfl⟩ | ⟨-, documents, added, written⟩
  · have id : previous.id = receiptIdOf (call.batch db) := by
      have same := List.find?_some found
      exact of_decide_eq_true same
    have replay : result.replayed = true := by
      have again := ingest_again found agreed decoded catalog digest now receivedAt
      rw [ingested] at again
      rw [(Prod.mk.inj (Except.ok.inj again)).1]
    refine ⟨verified, prepared.grown, ledger_prepared held prepared owned, prepared.imported,
      ⟨⟨previous, List.mem_of_find?_eq_some found, id, agreed, decoded⟩, ?_⟩, ?_⟩
    · intro first
      rw [replay] at first
      cases first
    · intro o here there
      rw [prepared.observations] at here
      exact absurd here there
  · have assets : u.assetVersions = m.assetVersions := by rw [written.tables]
    have owned' : m.ownersExist = true := by rwa [Tables.ownersExist, ← assets]
    have ledger := ledger_written (ledger_prepared held prepared owned') written owned
    have grown := extends_written written
    refine ⟨verified, prepared.grown.trans grown, ledger, ?_,
      ⟨?_, fun _ v => written_all written⟩, ?_⟩
    · intro other imports
      rw [definition?_of_extends grown (prepared.imported other imports)]
      exact prepared.imported other imports
    · refine ⟨db.receiptOf digest (call.batch db) receivedAt m, ?_, rfl, rfl, written.receipt⟩
      rw [written.tables]
      exact List.mem_append_right _ (List.mem_singleton.mpr rfl)
    · intro o here there
      rw [written.tables] at here
      rcases List.mem_append.mp here with old | new
      · rw [prepared.observations] at old
        exact absurd old there
      · obtain ⟨v, -, stored⟩ := forall₂_left written.rows new
        exact stored.receiptId

/-- A step of the system, whatever it answers. -/
theorem step_ledger (held : Ledger db t) (call : Call) : Ledger db (db.step t call).2 ∧ t.Extends
    (db.step t call).2 := by
  cases answer : (db.step t call).1 with
  | error failure =>
    rw [failed_unchanged answer]
    exact ⟨held, .refl t⟩
  | ok result =>
    have accepted := step_accepted held (Prod.ext answer rfl)
    exact ⟨accepted.ledger, accepted.grown⟩

theorem run_ledger (held : Ledger db t) (calls : List Call) :
    Ledger db (serve db.step t calls).2 ∧ t.Extends (serve db.step t calls).2 := by
  induction calls generalizing t with
  | nil => exact ⟨held, .refl t⟩
  | cons call rest ih =>
    obtain ⟨kept, grown⟩ := step_ledger held call
    obtain ⟨final, more⟩ := ih kept
    exact ⟨final, grown.trans more⟩

end Step

section Runs

variable (db : Postgres) (calls : List Call)

theorem after_append (later : List Call) :
    db.after (calls ++ later) = (serve db.step (db.after calls) later).2 := by
  rw [Postgres.after, serve_append]
  rfl

theorem after_snoc (call : Call) : db.after (calls ++ [call]) = (db.step (db.after calls) call).2 :=
  after_append db calls [call]

theorem after_ledger : Ledger db (db.after calls) := (run_ledger (ledger_migrated db) calls).1

theorem after_extends (later : List Call) : (db.after calls).Extends
    (db.after (calls ++ later)) := by
  rw [after_append]
  exact (run_ledger (after_ledger db calls) later).2

end Runs

/-- A replica whose pinned definition has been imported reads it back. -/
theorem definition_again {db : Postgres} {t : Tables} {pinned : Text} (held : Ledger db t)
    (verified : db.verifyMigration t = .ok ()) (known : (t.definition? pinned).isSome = true) :
    ∃ version ∈ t.catalogVersions, version.digest = pinned ∧
      db.contentDigest version.document = pinned ∧
      decodeCatalog version.document = some version.document ∧
        db.definition pinned t = .ok version.document := by
  obtain ⟨version, found⟩ := Option.isSome_iff_exists.mp known
  have digest : version.digest = pinned := by
    have same := List.find?_some found
    exact of_decide_eq_true same
  have stored := List.mem_of_find?_eq_some found
  obtain ⟨catalog, decoded, same, digested⟩ := held.defined version stored
  have again := decodeCatalog_congr same decoded
  have redigest : db.contentDigest version.document = pinned := by
    rw [← digest, digested]
    exact (respects_contentDigest db.sha256 _ _ same).symm
  refine ⟨version, stored, digest, redigest, again, ?_⟩
  rw [Postgres.definition, verified, found]
  simp only [bind, Except.bind, again, redigest]
  rfl

theorem transaction_again {A : Type*} {operation : Tables → Except Failure (A × Tables)}
    {t : Tables} {a : A}
    (done : operation t = .ok (a, t)) (owned : t.ownersExist = true) :
    transaction operation t = (.ok a, t) := by
  rw [transaction, done]
  exact if_pos owned

theorem ingest_extends {db : Postgres} {catalog batch : Json} {digest : Text} {now receivedAt : ℤ}
    {t u : Tables}
    {result : IngestResult} (ok : db.ingest catalog digest batch now receivedAt t = .ok (result, u))
    (plain : ∀ v ∈ observationsOf batch, isPlatformObservation v = true)
    (distinct : (t.observations.map ObservationRow.id).Nodup) : t.Extends u := by
  rcases ingest_spec ok plain distinct with ⟨-, -, -, -, rfl⟩ | ⟨-, documents, added, written⟩
  · exact .refl _
  · exact extends_written written

/-- An import is carried out again without a change. -/
theorem importing_again {db : Postgres} {t u v : Tables} {input : Json} {now receivedAt : ℤ}
    {result : IngestResult}
    (held : Ledger db t) (decoded : decodeCatalog input = some input)
    (ok : db.importing input now receivedAt t = .ok (result, u)) (more : u.Extends v)
    (verified : db.verifyMigration v = .ok ()) {now' receivedAt' : ℤ} {again : IngestResult}
    (ingests : db.ingest input (db.contentDigest input)
      (Postgres.catalogBatch (db.contentDigest input) input) now'
      receivedAt' v = .ok (again, v)) :
    db.importing input now' receivedAt' v = .ok (again, v) := by
  obtain ⟨-, c, nodes, n, inserted, elements, assets, ingested⟩ := importing_spec ok
  have prepared : Prepared db (.importCatalog input now receivedAt) t n :=
    prepared_import decoded inserted elements assets
  have distinct : (n.observations.map ObservationRow.id).Nodup := by
    rw [prepared.observations]
    exact held.observations
  have whole : n.Extends v :=
    (ingest_extends ingested (catalog_observations (decodeCatalog_iff.mp decoded).1).1
      distinct).trans more
  obtain ⟨added, grown, -⟩ := insertAssets_spec nodes assets
  have between : c.Extends n := grown ▸ extends_assets c added
  simp only [Postgres.importing, bind_ok]
  exact ⟨(), verified, v, insertCatalog_again inserted (between.trans whole), nodes, elements, v,
    insertAssets_again nodes assets whole, ingests⟩

/-- A retry finds its receipt. -/
theorem step_again {db : Postgres} {t u v : Tables} {call retry : Call} {result : IngestResult}
    (held : Ledger db t)
    (ok : db.step t call = (.ok result, u)) (more : u.Extends v) (later : Ledger db v)
    (retried : call.RetriedBy retry) (pinned : retry.PinnedIn v) :
    db.step v retry = (.ok { result with replayed := true }, v) := by
  have accepted := step_accepted held ok
  obtain ⟨row, member, id, agreed, decoded⟩ := accepted.recorded.receipt
  have found : v.receipt? (receiptIdOf (call.batch db)) = some row := by
    rw [← id]
    exact receipt?_of_mem later.receipts (more.ingestReceipts.subset member)
  have verified : db.verifyMigration v = .ok () := by
    rw [← accepted.verified, Postgres.verifyMigration, Postgres.verifyMigration,
      (accepted.grown.trans more).schemaMigrations]
  cases call with
  | importCatalog input now receivedAt =>
    cases retry with
    | importCatalog again now' receivedAt' =>
      obtain rfl : again = input := retried
      obtain ⟨decodes, -, done⟩ := import_cases ok
      have ingests := ingest_again found agreed decoded again (db.contentDigest again)
        now' receivedAt'
      have redone := importing_again held decodes done more verified ingests
      rw [Postgres.step, Postgres.importPlatformCatalog, decodes]
      exact transaction_again redone later.owned
    | append _ _ _ _ => exact retried.elim
    | outage => exact retried.elim
  | append first input now receivedAt =>
    cases retry with
    | append second again now' receivedAt' =>
      obtain rfl : again = input := retried
      obtain ⟨accepts, -, -⟩ := append_cases ok
      obtain ⟨version, -, -, -, -, defined⟩ := definition_again later verified pinned
      have done : db.appending second again now' receivedAt' v = .ok
          ({ result with replayed := true }, v) := by
        rw [Postgres.appending, defined]
        exact ingest_again found agreed decoded version.document second now' receivedAt'
      rw [Postgres.step, Postgres.append, if_pos accepts, transaction_again done later.owned]
      rfl
    | importCatalog _ _ _ => exact retried.elim
    | outage => exact retried.elim
  | outage => cases ok

theorem eq_of_prefix {α : Type*} {key : α → Text} {early late : List α} (more : early <+: late)
    (distinct : (late.map key).Nodup) : ∀ row ∈ early, ∀ other ∈ late, key other = key row →
      other = row :=
  fun _ here _ there same => List.inj_on_of_nodup_map distinct there (more.subset here) same

/-- Over every run, ids are bound for ever, retries change nothing and the accounts agree. -/
theorem exactly_once (db : Postgres) (calls : List Call) : ExactlyOnce db calls where
  appendOnly := after_extends db calls
  receipt_bound later :=
    eq_of_prefix (after_extends db calls later).ingestReceipts
      (after_ledger db (calls ++ later)).receipts
  observation_bound later :=
    eq_of_prefix (after_extends db calls later).observations
      (after_ledger db (calls ++ later)).observations
  recorded call result answer := by
    rw [after_snoc]
    exact (step_accepted (after_ledger db calls) (Prod.ext answer rfl)).recorded
  replayed call result answer later retry retried pinned := by
    have whole : calls ++ call :: later = (calls ++ [call]) ++ later := by
      rw [List.append_assoc, List.singleton_append]
    rw [whole] at pinned ⊢
    have more := after_extends db (calls ++ [call]) later
    rw [after_snoc] at more
    exact step_again (after_ledger db calls) (Prod.ext answer rfl) more
      (after_ledger db _) retried pinned
  unchanged call failure failed := by
    rw [after_snoc]
    exact failed_unchanged failed
  accounted := (after_ledger db calls).accounted
  pointed := (after_ledger db calls).pointed
  inserted call o here there := by
    rw [after_snoc] at here
    cases answer : (db.step (db.after calls) call).1 with
    | error failure =>
      rw [failed_unchanged answer] at here
      exact absurd here there
    | ok result => exact (step_accepted (after_ledger db calls)
      (Prod.ext answer rfl)).inserted o here there

/-! A deployment with a small catalog, and a replica whose definition was never imported. -/

def sampleHash (text : Text) : Text :=
  let n := text.foldl (fun h c => (h * 31 + c) % 16 ^ 64) 7
  (List.range 64).map fun i => hexDigit (n / 16 ^ i % 16)

theorem same_of_some {v w : Json} (stored : some v = some w) : Same v w :=
  Option.some.inj stored ▸ .refl v

def sampleDb : Postgres where
  sha256 := sampleHash
  checksum := lit "checksum"
  timestamptz s := (IsoDate.dateParse s).map (· * 1000)
  jsonb v := some v
  collates a b := decide (a ≤ b)
  jsonb_same _ _ := same_of_some

def sampleEvidence : Json :=
  .object [(lit "source", .text (lit "s")), (lit "authority", .text (lit "UNSPECIFIED")),
  (lit "observedAt", .text (lit "2026-01-01T00:00:00Z")), (lit "note", .text [])]

def sampleNode : Json :=
  .object [(lit "id", .text (lit "host:a")), (lit "kind", .text (lit "host")),
  (lit "name", .text (lit "a")), (lit "description", .text []),
  (lit "lifecycle", .text (lit "active")),
  (lit "integration", .text (lit "native")), (lit "evidence", .array [sampleEvidence])]

def sampleCatalog : Json := .object [(lit "schema", .text (lit "metahumotonic/platform-catalog@1")),
  (lit "observedAt", .text (lit "2026-01-01T00:00:00Z")), (lit "nodes", .array [sampleNode]),
  (lit "edges", .array [])]

def sampleObservation : Json :=
  .object [(lit "id", .text (lit "o:1")), (lit "subjectId", .text (lit "host:a")),
  (lit "observedAt", .text (lit "2026-01-01T00:00:00Z")),
  (lit "expiresAt", .text (lit "2026-01-01T00:01:00Z")),
  (lit "check", .text (lit "http")), (lit "outcome", .text (lit "reachable")),
  (lit "evidence", .array [sampleEvidence])]

def sampleBatch : Json :=
  .object [(lit "receiptId", .text (lit "r:1")), (lit "observations", .array [sampleObservation])]

/-- The time of the calls: the start of 2026. -/
def sampleNow : ℤ := 1767225600000

def sampleImport : Call := .importCatalog sampleCatalog sampleNow sampleNow

def sampleAppend (pinned : Text) : Call := .append pinned sampleBatch sampleNow sampleNow

/-- A definition that was not imported. -/
def otherCatalog : Json := sampleCatalog.put (lit "observedAt") (.text (lit "2026-01-02T00:00:00Z"))

/-- A replica that pins a definition that was not imported refuses a retry. -/
theorem retry_before_import : ¬ ∀ (calls later : List Call) (call retry : Call)
    (result : IngestResult),
    (sampleDb.step (sampleDb.after calls) call).1 = .ok result → call.RetriedBy retry →
      (sampleDb.step (sampleDb.after (calls ++ call :: later)) retry).1 = .ok
      { result with replayed := true } := by
  intro claim
  have accepted : (sampleDb.step (sampleDb.after [sampleImport])
      (sampleAppend (sampleDb.contentDigest sampleCatalog))).1.isOk = true := by decide +kernel
  have refused : (sampleDb.step
      (sampleDb.after [sampleImport, sampleAppend (sampleDb.contentDigest sampleCatalog)])
      (sampleAppend (sampleDb.contentDigest otherCatalog))).1 = .error .unavailable := by
    decide +kernel
  cases answer : (sampleDb.step (sampleDb.after [sampleImport])
      (sampleAppend (sampleDb.contentDigest sampleCatalog))).1 with
  | error failure =>
    rw [answer] at accepted
    cases accepted
  | ok result =>
    have replayed := claim [sampleImport] [] _ (sampleAppend (sampleDb.contentDigest otherCatalog))
      result answer rfl
    rw [List.singleton_append, refused] at replayed
    cases replayed

end Metahumotonic.Platform
