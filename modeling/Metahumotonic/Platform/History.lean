import Metahumotonic.Library.Keyset
import Metahumotonic.Platform.ReadPath

/-! The history of observations (`history` of `ts/src/ports/PlatformInventoryPostgres.ts`) while any
number of transactions write: the identity column, the advisory lock, and a reader that follows
`nextBefore`. -/
namespace Metahumotonic.Platform
open Metahumotonic.Library Json

/-- An observation with the value of its column `sequence`. -/
structure Numbered where
  sequence : ℕ
  row : ObservationRow

structure HistoryQuery where
  subjectId : Option Text
  before : Option ℕ
  limit : Option ℤ

structure HistoryItem where
  sequence : ℕ
  receiptId : Text
  receivedAt : Text
  observation : Json

structure ObservationHistory where
  items : List HistoryItem
  nextBefore : Option ℕ

/-- `Number.MAX_SAFE_INTEGER`. -/
def maxSafeInteger : ℕ := 9007199254740991

/-- `Math.max(1, Math.min(100, query.limit ?? 25))`. -/
def HistoryQuery.pageLimit (query : HistoryQuery) : ℕ :=
  (max 1 (min 100 (query.limit.getD 25))).toNat

def HistoryItem.of (joined : Numbered × ReceiptRow) : HistoryItem where
  sequence := joined.1.sequence
  receiptId := joined.1.row.receiptId
  receivedAt := IsoDate.toISOString joined.2.receivedAt
  observation := joined.1.row.document

/-- An item that `ObservationHistory` decodes. -/
def HistoryItem.decodes (item : HistoryItem) : Bool :=
  isPlatformId item.receiptId && isObservationTime item.receivedAt && isPlatformObservation
    item.observation

namespace Postgres

/-- `observations o JOIN ingest_receipts r ON r.id = o.receipt_id`. -/
def joined (tables : Tables) (numbered : List Numbered) : List (Numbered × ReceiptRow) :=
  numbered.filterMap fun n => (tables.receipt? n.row.receiptId).map fun receipt => (n, receipt)

/-- The conditions of the query. -/
def asked (query : HistoryQuery) (n : Numbered) : Bool :=
  query.before.all (fun before => decide (n.sequence < before)) &&
    query.subjectId.all fun subjectId => decide (n.row.subjectId = subjectId)

/-- `WHERE ... ORDER BY o.sequence DESC LIMIT most`. -/
def historyRows (tables : Tables) (numbered : List Numbered) (query : HistoryQuery) (most : ℕ) :
    List (Numbered × ReceiptRow) :=
  (((joined tables numbered).filter fun r => asked query r.1).insertionSort
    fun a b => b.1.sequence ≤ a.1.sequence).take most

variable (db : Postgres)

def reciting (query : HistoryQuery) (tables : Tables) (numbered : List Numbered) :
    Except Failure ObservationHistory := do
  db.verifyMigration tables
  let limit := query.pageLimit
  let rows := historyRows tables numbered query (limit + 1)
  let items := (rows.take limit).map HistoryItem.of
  if items.any fun item => maxSafeInteger < item.sequence then throw .unavailable
  else if items.all HistoryItem.decodes then
    return { items, nextBefore := if limit < rows.length
      then items.getLast?.map HistoryItem.sequence else none }
  else throw .raised

def history (query : HistoryQuery) (tables : Tables) (numbered : List Numbered) :
    Except Failure ObservationHistory :=
  readAttempt (db.reciting query tables numbered)

end Postgres

/-! Interleavings. -/

/-- The transaction that holds the advisory lock: what it answers and commits in the end, and the
values of the identity column that its rows have taken so far. -/
structure Writing where
  writer : ℕ
  answer : Except Failure IngestResult
  written : Tables
  values : List ℕ

/-- The rows that a transaction inserts. -/
def Writing.rows (writing : Writing) (tables : Tables) : List ObservationRow :=
  writing.written.observations.drop tables.observations.length

/-- Where a reader stands: before its first page, at a `nextBefore`, or after a page without one. -/
inductive Cursor where
  | start
  | before (sequence : ℕ)
  | done
  deriving DecidableEq, Repr

def Cursor.query (cursor : Cursor) (subjectId : Option Text) (limit : Option ℤ) : HistoryQuery where
  subjectId
  before := match cursor with
    | .before sequence => some sequence
    | _ => none
  limit

/-- What is committed, the last value that the identity column gave out, the writer that holds the
lock, and the reader. -/
structure World where
  tables : Tables
  numbered : List Numbered
  taken : ℕ
  writing : Option Writing
  cursor : Cursor
  pages : List ObservationHistory

/-- Values of the identity column are lost when an insert fails or the database restarts. -/
inductive Event where
  | lock (writer : ℕ) (call : Call)
  | insert (writer : ℕ)
  | lose
  | commit (writer : ℕ)
  | rollback (writer : ℕ)
  | page (limit : Option ℤ)

/-- The writer that holds the lock. -/
def World.holder (w : World) (writer : ℕ) : Option Writing := w.writing.filter fun writing =>
    writing.writer = writer

section Advance

variable (db : Postgres) (subjectId : Option Text) (w : World)

/-- A writer waits at `pg_advisory_xact_lock` while another holds the lock; the statements after it
see what is committed then. -/
def World.lock (writer : ℕ) (call : Call) : Option World :=
  if w.writing.isNone then
    let done := db.step w.tables call
    some { w with writing := some ⟨writer, done.1, done.2, []⟩ }
  else none

/-- The next row of a transaction takes the next value, which no rollback gives back. -/
def World.insert (writer : ℕ) : Option World :=
  (w.holder writer).bind fun writing =>
    if writing.values.length < (writing.rows w.tables).length then
      some { w with taken := w.taken + 1, writing := some { writing with
        values := writing.values ++ [w.taken + 1] } }
    else none

def World.commit (writer : ℕ) : Option World :=
  (w.holder writer).bind fun writing =>
    if writing.answer.isOk ∧ writing.values.length = (writing.rows w.tables).length then
      some { w with tables := writing.written
                    numbered := w.numbered ++ (writing.values.zip (writing.rows w.tables)).map
                      fun p => ⟨p.1, p.2⟩
                    writing := none }
    else none

def World.rollback (writer : ℕ) : Option World := (w.holder writer).map fun _ =>
    { w with writing := none }

/-- The reader asks for its next page, as long as there is one. -/
def World.page (limit : Option ℤ) : Option World :=
  if w.cursor = .done then none
  else
    match db.history (w.cursor.query subjectId limit) w.tables w.numbered with
    | .ok page => some { w with cursor := page.nextBefore.elim .done .before, pages :=
      w.pages ++ [page] }
    | .error _ => none

def World.advance : Event → Option World
  | .lock writer call => w.lock db writer call
  | .insert writer => w.insert writer
  | .lose => some { w with taken := w.taken + 1 }
  | .commit writer => w.commit writer
  | .rollback writer => w.rollback writer
  | .page limit => w.page db subjectId limit

end Advance

/-- A migrated database that nobody has used. -/
def World.migrated (db : Postgres) : World := ⟨db.migrated, [], 0, none, .start, []⟩

/-- What the reader has seen. -/
def World.seen (w : World) : List HistoryItem := w.pages.flatMap ObservationHistory.items

/-- The committed observations that match the reader's filter. -/
def World.matching (w : World) (subjectId : Option Text) : List Numbered :=
  w.numbered.filter fun n => subjectId.all fun subjectId => decide (n.row.subjectId = subjectId)

/-- A run of the database and its reader. -/
def Reads (db : Postgres) (subjectId : Option Text) : World → List Event → World → Prop :=
  Path fun w event u => w.advance db subjectId event = some u

end Metahumotonic.Platform
