import Mathlib.Data.Rat.Defs
import Metahumotonic.Feedback.Stores

/-! The feedback store of the Python service (`app/store.py`, `app/breaker.py`): every call goes
to the database unless the breaker is open, and to a bounded deque if it is or the call fails. -/
namespace Metahumotonic.Feedback.Fallback
open Metahumotonic.Library

structure Settings where
  mongoUri : String
  feedbackRequireDurable : Bool

/-- A record with the fields the store reads or writes; `details` are the other fields. -/
structure Record (α : Type*) where
  id : String
  createdAt : ℤ
  status : Option FeedbackStatus
  operatorNote : Option String
  reviewedAt : Option ℤ
  details : α
  deriving DecidableEq, Repr

/-- The statuses a triage may ask for. -/
inductive Verdict where
  | reviewed | archived | spam
  deriving DecidableEq, Repr

def Verdict.status : Verdict → FeedbackStatus
  | .reviewed => .reviewed
  | .archived => .archived
  | .spam => .spam

/-- `allowed_from`. -/
def Verdict.allowedFrom : Verdict → List FeedbackStatus
  | .reviewed => [.new]
  | .archived => [.new, .reviewed]
  | .spam => [.new, .reviewed]

/-- `_MEMORY_CAP`. -/
def memoryCap : ℕ := 5000

/-- `Breaker`, with the clock read by its caller. -/
structure Breaker where
  retryAfter : ℚ := 0
  deriving DecidableEq, Repr

namespace Breaker

def cooldown : ℚ := 30

def isOpen (b : Breaker) (now : ℚ) : Bool := now < b.retryAfter

def trip (now : ℚ) : Breaker := ⟨now + cooldown⟩

def reset : Breaker := ⟨0⟩

end Breaker

/-- The database's documents, whether a client is held, the breaker and the deque, oldest first. -/
structure FeedbackStore (α : Type*) where
  documents : Table String (Record α) := Table.empty
  connected : Bool := false
  breaker : Breaker := {}
  memory : List (Record α) := []

/-- How an operation of the database ends; a failed one may have had its effect. -/
inductive Outcome where
  | served
  | failed (applied : Bool)
  deriving DecidableEq, Repr

/-- What a call meets: the clock as the breaker reads it, whether a client can be made, and how
its operations of the database end. -/
structure Weather where
  asked : ℚ
  opens : Bool
  first : Outcome
  second : Outcome
  failedAt : ℚ

/-- The order of a cursor sorted by creation time, newest first. Dates are stored in milliseconds,
and records of the same one come in any order. -/
structure Cursor (α : Type*) where
  sort : List (Record α) → List (Record α)
  perm : ∀ records, (sort records).Perm records
  newestFirst : ∀ records, (sort records).Pairwise fun a b =>
    b.createdAt / 1000 ≤ a.createdAt / 1000

inductive Call (α : Type*) where
  | saveResult (id : String) (now : ℤ) (status : Option FeedbackStatus) (details : α)
  | recent (limit : ℤ)
  | triage (id : String) (verdict : Verdict) (operatorNote : String) (now : ℤ)
  | delete (id : String)

inductive Reply (α : Type*) where
  | saved (id : String) (durable : Bool)
  | records (records : List (Record α))
  | triaged (record : Option (Record α))
  | deleted (found : Bool)
  | unavailable (reason : String)
  deriving DecidableEq, Repr

abbrev Documents (α : Type*) := Table String (Record α)

section Program

variable {α : Type*} (s : Settings) (cursor : Cursor α) (w : Weather) (store : FeedbackStore α)

/-- `_get_collection`. -/
def getCollection : Bool × FeedbackStore α :=
  if s.mongoUri = "" ∨ store.breaker.isOpen w.asked then (false, store)
  else if store.connected then (true, store)
  else if w.opens then (true, { store with connected := true })
  else (false, { store with breaker := Breaker.trip w.failedAt })

/-- After a failed operation the breaker is tripped and the client dropped. -/
def degraded : FeedbackStore α :=
  { store with breaker := Breaker.trip w.failedAt, connected := false }

/-- Appending to the deque drops the oldest record of a full one. -/
def append (memory : List (Record α)) (record : Record α) : List (Record α) :=
  if memory.length < memoryCap then memory ++ [record] else memory.tail ++ [record]

/-- `insert_one`, refused for an id that is taken. -/
def insertOne (record : Record α) (documents : Documents α) : Outcome × Documents α :=
  if record.id ∈ documents.keys then (.failed false, documents)
  else (w.first, if w.first = .failed false then documents else documents.set record.id record)

def saveResult (record : Record α) : Reply α × FeedbackStore α :=
  match getCollection s w store with
  | (true, store) =>
    match insertOne w record store.documents with
    | (.served, documents) =>
      (.saved record.id true, { store with documents, breaker := Breaker.reset })
    | (.failed _, documents) =>
      (.saved record.id false,
        degraded w { store with documents, memory := append store.memory record })
  | (false, store) => (.saved record.id false, { store with memory := append store.memory record })

/-- The way of the operator's calls: the database answers, or the deque unless a durable store is
required. -/
def orMemory (attempt : Documents α → Option (Reply α) × Documents α) (failure : String)
    (fallback : List (Record α) → Reply α × List (Record α)) : Reply α × FeedbackStore α :=
  match getCollection s w store with
  | (true, store) =>
    match attempt store.documents with
    | (some reply, documents) => (reply, { store with documents })
    | (none, documents) =>
      if s.feedbackRequireDurable then (.unavailable failure, degraded w { store with documents })
      else
        let (reply, memory) := fallback store.memory
        (reply, degraded w { store with documents, memory })
  | (false, store) =>
    if s.feedbackRequireDurable then (.unavailable "durable feedback store unavailable", store)
    else
      let (reply, memory) := fallback store.memory
      (reply, { store with memory })

/-- `max(1, min(limit, 100))`. -/
def clamped (limit : ℤ) : ℕ := (max 1 (min limit 100)).toNat

def recent (limit : ℤ) : Reply α × FeedbackStore α :=
  orMemory s w store
    (fun documents => (if w.first = .served then
      some (.records ((cursor.sort documents.values).take (clamped limit))) else none, documents))
    "mongo feedback read failed"
    (fun memory => (.records (memory.reverse.take (clamped limit)), memory))

def Record.triaged (record : Record α) (verdict : Verdict) (operatorNote : String)
    (now : ℤ) : Record α :=
  { record with status := some verdict.status, operatorNote := some operatorNote, reviewedAt := some now }

/-- The filter of the update: `$in`, or no status where a new record is allowed. -/
def matched (verdict : Verdict) (record : Record α) : Bool :=
  record.status.any (· ∈ verdict.allowedFrom) || (decide (.new ∈ verdict.allowedFrom) &&
    record.status.isNone)

/-- `update_one` and, if it matched, `find_one`. -/
def triageMongo (id : String) (verdict : Verdict) (operatorNote : String) (now : ℤ)
    (documents : Documents α) :
    Option (Reply α) × Documents α :=
  match (documents.get? id).filter (matched verdict) with
  | none => (if w.first = .served then some (.triaged none) else none, documents)
  | some record =>
    let updated := documents.set id (record.triaged verdict operatorNote now)
    match w.first with
    | .failed applied => (none, if applied then updated else documents)
    | .served => (if w.second = .served then some (.triaged (updated.get? id)) else none, updated)

/-- The loop over the deque, from its newest record. -/
def triageMemory (id : String) (verdict : Verdict) (operatorNote : String) (now : ℤ)
    (memory : List (Record α)) :
    Reply α × List (Record α) :=
  match memory.reverse.find? (·.id == id) with
  | none => (.triaged none, memory)
  | some record =>
    if record.status.getD .new ∈ verdict.allowedFrom then
      (.triaged (some (record.triaged verdict operatorNote now)),
        (memory.reverse.replaceF fun r =>
          if r.id = id then some (r.triaged verdict operatorNote now) else none).reverse)
    else (.triaged none, memory)

def triage (id : String) (verdict : Verdict) (operatorNote : String) (now : ℤ) :
    Reply α × FeedbackStore α :=
  orMemory s w store (triageMongo w id verdict operatorNote now) "mongo feedback update failed"
    (triageMemory id verdict operatorNote now)

def deleteMongo (id : String) (documents : Documents α) : Option (Reply α) × Documents α :=
  match w.first with
  | .served => (some (.deleted (id ∈ documents.keys)), documents.erase id)
  | .failed applied => (none, if applied then documents.erase id else documents)

def deleteMemory (id : String) (memory : List (Record α)) : Reply α × List (Record α) :=
  if memory.any (·.id == id) then (.deleted true, memory.eraseP (·.id == id))
    else (.deleted false, memory)

def delete (id : String) : Reply α × FeedbackStore α :=
  orMemory s w store (deleteMongo w id) "mongo feedback delete failed" (deleteMemory id)

def handle (store : FeedbackStore α) (event : Call α × Weather) : Reply α × FeedbackStore α :=
  match event.1 with
  | .saveResult id now status details =>
    saveResult s event.2 store ⟨id, now, status, none, none, details⟩
  | .recent limit => recent s cursor event.2 store limit
  | .triage id verdict operatorNote now => triage s event.2 store id verdict operatorNote now
  | .delete id => delete s event.2 store id

end Program

end Metahumotonic.Feedback.Fallback
