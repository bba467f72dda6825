import Mathlib.Data.List.Sort
import Metahumotonic.Library.IsoDate
import Metahumotonic.Library.Table

/-! The feedback stores of the TypeScript service: the list in memory, newest first, and the
collection of the database. Both answer the same calls. -/
namespace Metahumotonic.Feedback
open Metahumotonic.Library

inductive FeedbackType where
  | general | bug | feature | thesis | compute | collaboration
  deriving DecidableEq, Repr

inductive FeedbackStatus where
  | new | reviewed | archived | spam
  deriving DecidableEq, Repr

/-- A validated request, less the honeypot and the challenge token, which no store keeps. -/
structure FeedbackRequest where
  type : FeedbackType
  subject : Text
  body : Text
  email : Text
  sourcePath : Text
  contactConsent : Bool
  deriving DecidableEq, Repr

structure FeedbackRecord where
  id : Text
  createdAt : Text
  type : FeedbackType
  subject : Text
  body : Text
  email : Text
  sourcePath : Text
  contactConsent : Bool
  status : FeedbackStatus
  operatorNote : Text
  reviewedAt : Option Text
  deriving DecidableEq, Repr

/-- What the clock can show: a valid date. -/
structure Moment where
  ms : ℤ
  earliest : -8640000000000000 ≤ ms
  latest : ms ≤ 8640000000000000

def Moment.nowIso (now : Moment) : Text := IsoDate.toISOString now.ms

inductive SaveStatus where
  | stored | accepted
  deriving DecidableEq, Repr

structure SaveResult where
  id : Text
  status : SaveStatus
  deriving DecidableEq, Repr

structure Page where
  items : List FeedbackRecord
  count : ℕ
  deriving DecidableEq, Repr

inductive Failure where
  | conflict | unavailable
  deriving DecidableEq, Repr

inductive Call where
  | save (input : FeedbackRequest) (id : Text) (now : Moment)
  | list (limit : ℕ)
  | triage (id : Text) (status : FeedbackStatus) (operatorNote : Text) (now : Moment)
  | erase (id : Text)

inductive Reply where
  | saved (result : SaveResult)
  | listed (page : Page)
  | triaged (record : FeedbackRecord)
  | erased (found : Bool)
  | failed (failure : Failure)
  deriving DecidableEq, Repr

/-- `ALLOWED_FROM`. -/
def allowedFrom : FeedbackStatus → List FeedbackStatus
  | .new => []
  | .reviewed => [.new]
  | .archived => [.new, .reviewed]
  | .spam => [.new, .reviewed]

namespace FeedbackStoreMemory

def save (items : List FeedbackRecord) (input : FeedbackRequest) (id now : Text) :
    Reply × List FeedbackRecord :=
  (.saved ⟨id, .accepted⟩,
    { id, createdAt := now, type := input.type, subject := input.subject, body := input.body,
      email := input.email, sourcePath := input.sourcePath, contactConsent := input.contactConsent,
      status := .new, operatorNote := [], reviewedAt := none } :: items)

def list (items : List FeedbackRecord) (limit : ℕ) : Reply :=
  .listed ⟨items.take limit, items.length⟩

def triage (items : List FeedbackRecord) (id : Text) (status : FeedbackStatus)
    (operatorNote now : Text) :
    Reply × List FeedbackRecord :=
  match (items.findIdx? (·.id == id)).bind fun idx => items[idx]?.map fun before =>
    (idx, before) with
  | none => (.failed .conflict, items)
  | some (idx, before) =>
    if before.status ∈ allowedFrom status then
      let after := { before with status, operatorNote, reviewedAt := some now }
      (.triaged after, items.set idx after)
    else (.failed .conflict, items)

def erase (items : List FeedbackRecord) (id : Text) : Reply × List FeedbackRecord :=
  let next := items.filter (·.id ≠ id)
  (.erased (next.length ≠ items.length), next)

def serve (items : List FeedbackRecord) : Call → Reply × List FeedbackRecord
  | .save input id now => save items input id now.nowIso
  | .list limit => (list items limit, items)
  | .triage id status operatorNote now => triage items id status operatorNote now.nowIso
  | .erase id => erase items id

end FeedbackStoreMemory

/-- A document under its `_id`; the status may be missing. -/
structure Document where
  createdAt : ℤ
  type : FeedbackType
  subject : Text
  body : Text
  email : Text
  sourcePath : Text
  contactConsent : Bool
  status : Option FeedbackStatus
  operatorNote : Text
  reviewedAt : Option ℤ
  deriving DecidableEq, Repr

abbrev Collection := Table Text Document

namespace FeedbackStoreLive

/-- `new Date(text)` as the driver stores it, an invalid date as the epoch. -/
def newDate (text : Text) : ℤ := (IsoDate.dateParse text).getD 0

def decodeRecord (row : Text × Document) : FeedbackRecord where
  id := row.1
  createdAt := IsoDate.toISOString row.2.createdAt
  type := row.2.type
  subject := row.2.subject
  body := row.2.body
  email := row.2.email
  sourcePath := row.2.sourcePath
  contactConsent := row.2.contactConsent
  status := row.2.status.getD .new
  operatorNote := row.2.operatorNote
  reviewedAt := row.2.reviewedAt.map IsoDate.toISOString

/-- The unique index of `_id` refuses a second document. -/
def save (collection : Collection) (input : FeedbackRequest) (id now : Text) : Reply × Collection :=
  if id ∈ collection.keys then (.failed .unavailable, collection)
  else (.saved ⟨id, .stored⟩, collection.set id
    { createdAt := newDate now, type := input.type, subject := input.subject, body := input.body,
      email := input.email, sourcePath := input.sourcePath, contactConsent := input.contactConsent,
      status := some .new, operatorNote := [], reviewedAt := none })

/-- A limit of zero is no limit. -/
def list (collection : Collection) (limit : ℕ) : Reply :=
  let rows := collection.entries.insertionSort fun a b => b.2.createdAt ≤ a.2.createdAt
  let items := (if limit = 0 then rows else rows.take limit).map decodeRecord
  .listed ⟨items, items.length⟩

def allowed (status : FeedbackStatus) : List FeedbackStatus :=
  if status = .reviewed then [.new] else if status = .new then [] else [.new, .reviewed]

/-- The filter of the update: `$in`, and `$exists` where a new record is allowed. -/
def selected (id : Text) (status : FeedbackStatus) (row : Text × Document) : Bool :=
  row.1 = id && (row.2.status.any
    (· ∈ allowed status) || (decide (.new ∈ allowed status) && row.2.status.isNone))

def triage (collection : Collection) (id : Text) (status : FeedbackStatus)
    (operatorNote now : Text) :
    Reply × Collection :=
  match collection.entries.find? (selected id status) with
  | none => (.failed .conflict, collection)
  | some row =>
    let document := { row.2 with status := some status, operatorNote, reviewedAt := some (newDate now) }
    (.triaged (decodeRecord (row.1, document)), collection.set row.1 document)

def erase (collection : Collection) (id : Text) : Reply × Collection :=
  (.erased (id ∈ collection.keys), collection.erase id)

def serve (collection : Collection) : Call → Reply × Collection
  | .save input id now => save collection input id now.nowIso
  | .list limit => (list collection limit, collection)
  | .triage id status operatorNote now => triage collection id status operatorNote now.nowIso
  | .erase id => erase collection id

end FeedbackStoreLive

end Metahumotonic.Feedback
