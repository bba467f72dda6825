import Metahumotonic.Library.Table
import Metahumotonic.Wiki.Domain

/-! The records that both stores share (`app/wiki/store.py`) and the in-memory
store (`app/wiki/memory.py`). A command runs under the store's lock, so `execute`
is one step. It returns what the caller sees and the store that is left behind,
because a raise keeps whatever was written before it. -/
namespace Metahumotonic.Wiki

open Library

structure CommandReceipt where
  commandId : String
  fingerprint : String
  pageId : String
  streamVersion : Nat
  eventIds : List String
  replayed : Bool := false
  deriving DecidableEq, Repr

structure StoredEvent where
  index : Nat
  event : WikiEvent
  deriving DecidableEq, Repr

inductive OutboxStatus where
  | pending
  | processing
  | delivered
  | failed
  deriving DecidableEq, Repr

structure OutboxRecord where
  effect : OutboxEffect
  status : OutboxStatus
  createdAt : Instant
  attempts : Nat := 0
  deliveredAt : Option Instant := none
  deriving DecidableEq, Repr

/-- What a store can raise: a domain rejection, an internal error, a value that is
not a UUID, or an error of the database, with its constraint if it has one. -/
inductive Raised where
  | wikiError (error : WikiError)
  | runtimeError (message : String)
  | valueError (message : String)
  | databaseError (constraintName : Option String)
  deriving DecidableEq, Repr

def idempotencyConflict : WikiError :=
  ⟨"idempotency_conflict", "command id was already used for different intent", 409⟩

def slugTaken : WikiError := ⟨"slug_taken", "slug is already in use", 409⟩

def noState : Raised := .runtimeError "accepted command produced no state"

/-- The decided events in order, numbered from `base + 1`, and the page after them. -/
def appendEvents (base : Nat) (state : Option PageState) :
    List WikiEvent → Except WikiError (Option PageState × List StoredEvent)
  | [] => .ok (state, [])
  | event :: rest =>
    match evolve state event with
    | .error error => .error error
    | .ok page =>
      match appendEvents (base + 1) (some page) rest with
      | .error error => .error error
      | .ok (last, stored) => .ok (last, ⟨base + 1, event⟩ :: stored)

structure InMemoryWikiStore where
  pages : Table String PageState := .empty
  slugToId : Table String String := .empty
  events : Table String (List StoredEvent) := .empty
  receipts : Table String CommandReceipt := .empty
  outbox : Table String OutboxRecord := .empty

namespace InMemoryWikiStore

/-- The page that a command is decided on. -/
def current (store : InMemoryWikiStore) : WikiCommand → Except WikiError (Option PageState)
  | .createPage c => if c.slug ∈ store.slugToId.keys then .error slugTaken else .ok none
  | command => .ok (store.pages.get? command.pageId)

def claimSlug (slugs : Table String String) : WikiCommand → Table String String
  | .createPage c => slugs.set c.slug c.pageId
  | _ => slugs

def queue (occurredAt : Instant) (outbox : Table String OutboxRecord)
    (effects : List OutboxEffect) :
    Table String OutboxRecord :=
  effects.foldl (fun outbox effect => outbox.set effect.effectId
    { effect := effect, status := .pending, createdAt := occurredAt }) outbox

def execute (lib : Stdlib) (store : InMemoryWikiStore) (command : WikiCommand) :
    Except Raised CommandReceipt × InMemoryWikiStore :=
  let fingerprint := intentFingerprint lib command
  match store.receipts.get? command.commandId with
  | some prior =>
    if prior.fingerprint ≠ fingerprint then (.error (.wikiError idempotencyConflict), store)
    else (.ok { prior with replayed := true }, store)
  | none =>
    match store.current command with
    | .error error => (.error (.wikiError error), store)
    | .ok state =>
      match command.decide lib state with
      | .error error => (.error (.wikiError error), store)
      | .ok decision =>
        let existing := (store.events.get? command.pageId).getD []
        match appendEvents existing.length state decision.events with
        | .error error => (.error (.wikiError error), store)
        | .ok (none, _) => (.error noState, store)
        | .ok (some nextState, stored) =>
          let receipt : CommandReceipt := {
            commandId := command.commandId
            fingerprint := fingerprint
            pageId := command.pageId
            streamVersion := nextState.streamVersion
            eventIds := decision.events.map (·.eventId) }
          (.ok receipt, {
            slugToId := claimSlug store.slugToId command
            pages := store.pages.set command.pageId nextState
            events := store.events.set command.pageId (existing ++ stored)
            outbox := queue command.occurredAt store.outbox decision.effects
            receipts := store.receipts.set command.commandId receipt })

def getPageBySlug (store : InMemoryWikiStore) (slug : String) (includeQuarantined : Bool) :
    Option PageState :=
  let pageOf := fun pageId => if pageId = "" then none else store.pages.get? pageId
  match (store.slugToId.get? slug).bind pageOf with
  | some page =>
    if page.moderationStatus = .quarantined ∧ includeQuarantined = false then none else some page
  | none => none

/-- The events stored for a page, oldest first. -/
def stream (store : InMemoryWikiStore) (pageId : String) : List StoredEvent :=
  (store.events.get? pageId).getD []

end InMemoryWikiStore

end Metahumotonic.Wiki
