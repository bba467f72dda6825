import Metahumotonic.Feedback.Reachable

/-! The operator's calls on the Python store, one operation of the database at a time: other calls
and failures come between the update of a triage and the read of its answer. -/
namespace Metahumotonic.Feedback.Fallback
open Metahumotonic.Library

/-- What a triage asks for, with its `reviewed_at`. -/
structure Triage where
  id : String
  verdict : Verdict
  operatorNote : String
  reviewedAt : ℤ
  deriving DecidableEq, Repr

/-- Where a call stands: before an operation of the database, or at its reply. -/
inductive Progress (α : Type*) where
  | updating (triage : Triage)
  | reading (triage : Triage)
  | triaged (triage : Triage) (reply : Reply α)
  | deleting (id : String)
  | deleted (id : String) (reply : Reply α)
  deriving DecidableEq, Repr

/-- A call begins, or takes its next operation, which is served or raises without effect. -/
inductive Event where
  | triage (triage : Triage) (weather : Weather)
  | delete (id : String) (weather : Weather)
  | proceed (call : ℕ) (served : Bool) (weather : Weather)

/-- The store and the calls on it, in the order they began. -/
structure Service (α : Type*) where
  store : FeedbackStore α
  calls : List (Progress α) := []

/-- The database keeps dates in milliseconds. -/
def Home.moment : Home → ℤ → ℤ
  | .mongo, moment => moment / 1000 * 1000
  | .memory, moment => moment

section Program

variable {α : Type*} (s : Settings) (w : Weather) (served : Bool)

/-- The record as the triage leaves it in a home. -/
def Triage.stamp (t : Triage) (home : Home) (record : Record α) : Record α :=
  record.triaged t.verdict t.operatorNote (home.moment t.reviewedAt)

def Progress.replied : Progress α → Bool
  | .triaged .. | .deleted .. => true
  | _ => false

/-- The deque, unless a durable store is required. -/
def orDeque (failure : String) (fallback : List (Record α) → Reply α × List (Record α))
    (store : FeedbackStore α) :
    Reply α × FeedbackStore α :=
  if s.feedbackRequireDurable then (.unavailable failure, store)
  else ((fallback store.memory).1, { store with memory := (fallback store.memory).2 })

def Triage.inMemory (t : Triage) : List (Record α) → Reply α × List (Record α) :=
  triageMemory t.id t.verdict t.operatorNote t.reviewedAt

def beginTriage (t : Triage) (store : FeedbackStore α) : Progress α × FeedbackStore α :=
  match getCollection s w store with
  | (true, store) => (.updating t, store)
  | (false, store) =>
    let (reply, store) := orDeque s "durable feedback store unavailable" t.inMemory store
    (.triaged t reply, store)

def beginDelete (id : String) (store : FeedbackStore α) : Progress α × FeedbackStore α :=
  match getCollection s w store with
  | (true, store) => (.deleting id, store)
  | (false, store) =>
    let (reply, store) := orDeque s "durable feedback store unavailable" (deleteMemory id) store
    (.deleted id reply, store)

/-- The handler around both operations of a triage. -/
def failedTriage (t : Triage) (store : FeedbackStore α) : Progress α × FeedbackStore α :=
  let (reply, store) := orDeque s "mongo feedback update failed" t.inMemory (degraded w store)
  (.triaged t reply, store)

/-- `update_one`. -/
def updateOne (t : Triage) (store : FeedbackStore α) : Progress α × FeedbackStore α :=
  if served then
    match (store.documents.get? t.id).filter (matched t.verdict) with
    | none => (.triaged t (.triaged none), store)
    | some record => (.reading t,
      { store with documents := store.documents.set t.id (t.stamp .mongo record) })
  else failedTriage s w t store

/-- `find_one`. -/
def findOne (t : Triage) (store : FeedbackStore α) : Progress α × FeedbackStore α :=
  if served then (.triaged t (.triaged (store.documents.get? t.id)), store)
    else failedTriage s w t store

/-- `delete_one`. -/
def deleteOne (id : String) (store : FeedbackStore α) : Progress α × FeedbackStore α :=
  if served then
    (.deleted id (.deleted (id ∈ store.documents.keys)),
      { store with documents := store.documents.erase id })
  else
    let (reply, store) := orDeque s "mongo feedback delete failed" (deleteMemory id)
      (degraded w store)
    (.deleted id reply, store)

def Progress.next (store : FeedbackStore α) : Progress α → Progress α × FeedbackStore α
  | .updating t => updateOne s w served t store
  | .reading t => findOne s w served t store
  | .deleting id => deleteOne s w served id store
  | progress => (progress, store)

def step (service : Service α) : Event → Service α
  | .triage t w =>
    let (progress, store) := beginTriage s w t service.store
    ⟨store, service.calls ++ [progress]⟩
  | .delete id w =>
    let (progress, store) := beginDelete s w id service.store
    ⟨store, service.calls ++ [progress]⟩
  | .proceed call served w =>
    match service.calls[call]? with
    | none => service
    | some progress =>
      let (progress, store) := progress.next s w served service.store
      ⟨store, service.calls.set call progress⟩

/-- The call that an event is of. -/
def acting (service : Service α) : Event → ℕ
  | .proceed call _ _ => call
  | _ => service.calls.length

def runEvents (service : Service α) (events : List Event) : Service α :=
  events.foldl (step s) service

/-- Without other calls in between, the steps of a triage are the triage of the store. -/
theorem uninterrupted (store : FeedbackStore α) (t : Triage)
    (whole : Home.mongo.moment t.reviewedAt = t.reviewedAt)
    (first : w.first ≠ .failed true) :
    runEvents s ⟨store, []⟩ [.triage t w, .proceed 0 (w.first = .served) w,
      .proceed 0 (w.second = .served) w] =
      ⟨(triage s w store t.id t.verdict t.operatorNote t.reviewedAt).2,
        [.triaged t (triage s w store t.id t.verdict t.operatorNote t.reviewedAt).1]⟩ := by
  simp only [runEvents, List.foldl_cons, List.foldl_nil, step, beginTriage, triage, orMemory]
  rcases getCollection s w store with ⟨_ | _, store⟩
  · simp [Progress.next, orDeque, Triage.inMemory]
  · unfold triageMongo
    cases durable : s.feedbackRequireDurable <;> cases updated : w.first with
    | failed applied =>
      have unapplied : applied = false := by
        cases applied with
        | false => rfl
        | true => exact absurd updated first
      subst unapplied
      cases found : (store.documents.get? t.id).filter (matched t.verdict) <;>
        simp [Progress.next, updateOne, failedTriage, orDeque, Triage.inMemory, degraded,
          found, durable]
    | served =>
      cases found : (store.documents.get? t.id).filter (matched t.verdict) with
      | none => simp [Progress.next, updateOne, found]
      | some record =>
        cases w.second <;>
          simp [Progress.next, updateOne, findOne, failedTriage, orDeque, Triage.inMemory, degraded,
          Triage.stamp, whole, found, durable]

end Program

end Metahumotonic.Feedback.Fallback
