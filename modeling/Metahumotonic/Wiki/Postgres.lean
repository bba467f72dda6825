import Metahumotonic.Wiki.Ids
import Metahumotonic.Wiki.Memory

/-! The PostgreSQL store (`app/wiki/postgres.py`) over the tables of
`migrations/wiki`. A statement checks its parameters and the constraints of its
table. A transaction is one step: the advisory lock and the row lock serialize
it, and whatever it raises rolls it back. Integer and timestamp columns are not
bounded. -/
namespace Metahumotonic.Wiki

open Library

section Uuid

def hexDigits : List Char :=
  ['0', '1', '2', '3', '4', '5', '6', '7', '8', '9', 'a', 'b', 'c', 'd', 'e', 'f',
    'A', 'B', 'C', 'D', 'E', 'F']

/-- The text without the occurrences of a pattern, found from the left. `skip`
characters of the last occurrence are still to be dropped. -/
def without (pattern : List Char) (skip : Nat) : List Char → List Char
  | [] => []
  | c :: rest =>
    match skip with
    | k + 1 => without pattern k rest
    | 0 =>
      if pattern.isPrefixOf (c :: rest) then without pattern (pattern.length - 1) rest
      else c :: without pattern 0 rest

def stripBraces (text : List Char) : List Char :=
  let brace := fun c : Char => c = '\x7b' ∨ c = '\x7d'
  ((text.dropWhile brace).reverse.dropWhile brace).reverse

/-- 32 digits in groups of 8, 4, 4, 4 and 12. -/
def hyphenate (digits : List Char) : List Char :=
  digits.take 8 ++ '-' :: ((digits.drop 8).take 4 ++ '-' :: ((digits.drop 12).take 4 ++
    '-' :: ((digits.drop 16).take 4 ++ '-' :: digits.drop 20)))

/-- The canonical text of the UUID that a text denotes. -/
def uuid (text : String) : Except Raised String :=
  let digits := (stripBraces
    (without "uuid:".toList 0 (without "urn:".toList 0 text.toList))).filter
    (· ≠ '-')
  if digits.length = 32 ∧ digits.all (· ∈ hexDigits) then
    .ok (String.ofList (hyphenate (digits.map Char.toLower)))
  else .error (.valueError "badly formed hexadecimal UUID string")

end Uuid

/-- A statement fails when a parameter has a NUL character, which no text column holds. -/
def bindTexts (values : List String) : Except Raised Unit :=
  if ∃ value ∈ values, '\x00' ∈ value.toList then .error (.databaseError none) else .ok ()

def violates (constraintName : String) (broken : Prop) [Decidable broken] : Except Raised Unit :=
  if broken then .error (.databaseError (some constraintName)) else .ok ()

/-- A value of a `CHAR(64)` column. -/
def char64 (value : String) : Except Raised String :=
  if 64 < value.length then .error (.databaseError none)
  else .ok (value ++ String.ofList (List.replicate (64 - value.length) ' '))

def EventData.texts : EventData → List String
  | .pageCreated slug title content contentHash revisionId summary editSummary _ _ _ =>
    [slug, title, content, contentHash, revisionId, summary, editSummary]
  | .revisionCommitted revisionId parentRevisionId slug title content contentHash summary
      editSummary _ =>
    [revisionId, parentRevisionId, slug, title, content, contentHash, summary, editSummary]
  | .reviewSubmitted submissionId revisionId note _ _ => [submissionId, revisionId, note]
  | .pageReported reportId revisionId contentHash reason _ =>
    [reportId, revisionId, contentHash, reason]
  | .pageQuarantined moderationId revisionId contentHash reason _ _ =>
    [moderationId, revisionId, contentHash, reason]
  | .pageReleased moderationId revisionId contentHash note _ _ =>
    [moderationId, revisionId, contentHash, note]

def WikiEvent.texts (event : WikiEvent) : List String :=
  event.eventId :: event.commandId :: event.actorId :: event.data.texts

def EffectPayload.texts : EffectPayload → List String
  | .reviewRequested submissionId pageId slug revisionId actorId note _ =>
    [submissionId, pageId, slug, revisionId, actorId, note]
  | .moderationReportRequested reportId pageId slug revisionId contentHash actorId reason _ =>
    [reportId, pageId, slug, revisionId, contentHash, actorId, reason]

def OutboxEffect.texts (effect : OutboxEffect) : List String :=
  effect.effectId :: effect.eventId :: effect.payload.texts

structure ReceiptRow where
  commandId : String
  fingerprint : String
  pageId : String
  streamVersion : Nat
  eventIds : List String
  createdAt : Instant
  deriving DecidableEq, Repr

def ReceiptRow.receipt (row : ReceiptRow) : CommandReceipt where
  commandId := row.commandId
  fingerprint := row.fingerprint
  pageId := row.pageId
  streamVersion := row.streamVersion
  eventIds := row.eventIds

/-- The rows, under their primary keys. Events come in the order of their insertion. -/
structure Tables where
  pages : Table String PageState := .empty
  events : List StoredEvent := []
  receipts : Table String ReceiptRow := .empty
  outbox : Table String OutboxRecord := .empty

namespace Tables

def insertEvent (tables : Tables) (row : StoredEvent) : Except Raised Tables := do
  bindTexts row.event.texts
  violates "wiki_events_event_index_check" (row.index = 0)
  violates "wiki_events_schema_version_check" (row.event.schemaVersion ≠ 1)
  violates "wiki_events_pkey"
    (∃ other ∈ tables.events, other.event.pageId = row.event.pageId ∧ other.index = row.index)
  violates "wiki_events_event_id_key"
    (∃ other ∈ tables.events, other.event.eventId = row.event.eventId)
  return { tables with events := tables.events ++ [row] }

/-- The checks of `wiki_pages` on a row. -/
def checkPage (page : PageState) : Except Raised Unit := do
  violates "wiki_pages_content_size" ¬(1 ≤ page.content.length ∧ page.content.length ≤ 100000)
  violates "wiki_pages_stream_version_check" (page.streamVersion = 0)
  violates "wiki_pages_title_size" ¬(1 ≤ page.title.length ∧ page.title.length ≤ 200)

def insertPage (tables : Tables) (page : PageState) : Except Raised Tables := do
  bindTexts [page.slug, page.title, page.content, page.contentHash, page.headActorId]
  let contentHash ← char64 page.contentHash
  checkPage page
  violates "wiki_pages_pkey" (page.pageId ∈ tables.pages.keys)
  violates "wiki_pages_slug_key" (∃ other ∈ tables.pages.values, other.slug = page.slug)
  return { tables with
    pages := tables.pages.set page.pageId { page with contentHash := contentHash } }

/-- The number of rows that the conditional update changed, and the tables after it. -/
def updatePage (tables : Tables) (page : PageState) (expectedVersion : Nat) :
    Except Raised (Nat × Tables) := do
  bindTexts [page.title, page.content, page.contentHash, page.headActorId]
  let contentHash ← char64 page.contentHash
  match tables.pages.get? page.pageId with
  | none => return (0, tables)
  | some row =>
    if row.streamVersion = expectedVersion then do
      let updated : PageState := { row with
        title := page.title
        content := page.content
        headRevisionId := page.headRevisionId
        contentHash := contentHash
        headActorId := page.headActorId
        streamVersion := page.streamVersion
        reviewStatus := page.reviewStatus
        moderationStatus := page.moderationStatus
        updatedAt := page.updatedAt }
      checkPage updated
      return (1, { tables with pages := tables.pages.set page.pageId updated })
    else return (0, tables)

/-- An effect id that is already there leaves the outbox as it is. -/
def insertOutbox (tables : Tables) (record : OutboxRecord) : Except Raised Tables := do
  bindTexts record.effect.texts
  violates "wiki_outbox_effect_type_check"
    (record.effect.effectType ∉ ["review_requested", "moderation_report_requested"])
  if record.effect.effectId ∈ tables.outbox.keys then return tables
  else return { tables with outbox := tables.outbox.set record.effect.effectId record }

def insertReceipt (tables : Tables) (row : ReceiptRow) : Except Raised Tables := do
  bindTexts (row.commandId :: row.fingerprint :: row.eventIds)
  let fingerprint ← char64 row.fingerprint
  violates "wiki_command_receipts_pkey" (row.commandId ∈ tables.receipts.keys)
  return { tables with
    receipts := tables.receipts.set row.commandId { row with fingerprint := fingerprint } }

/-- The page that a command is decided on, with its row locked. -/
def current (tables : Tables) : WikiCommand → Except Raised (Option PageState)
  | .createPage c => do
    bindTexts [c.slug]
    if ∃ page ∈ tables.pages.values, page.slug = c.slug then .error (.wikiError slugTaken)
    else return none
  | command => do
    let pageId ← uuid command.pageId
    return tables.pages.get? pageId

def insertEvents (tables : Tables) (state : Option PageState) (expectedVersion : Nat) :
    List WikiEvent → Except Raised (Option PageState × Tables)
  | [] => .ok (state, tables)
  | event :: rest => do
    let pageId ← uuid event.pageId
    let tables ← tables.insertEvent ⟨expectedVersion + 1, { event with pageId := pageId }⟩
    let page ← (evolve state event).mapError .wikiError
    insertEvents tables (some page) (expectedVersion + 1) rest

def streamConflict : WikiError := ⟨"stream_conflict", "the page stream changed concurrently", 409⟩

/-- A creation inserts the row of its page; a taken slug is a domain rejection. -/
def createRow (tables : Tables) (page : PageState) : Except Raised Tables :=
  match tables.insertPage page with
  | .error (.databaseError (some "wiki_pages_slug_key")) => .error (.wikiError slugTaken)
  | other => other

def updateRow (tables : Tables) (page : PageState) (expectedVersion : Nat) :
    Except Raised Tables := do
  let (status, tables) ← tables.updatePage page expectedVersion
  if status = 1 then return tables else .error (.wikiError streamConflict)

def writePage (tables : Tables) (command : WikiCommand) (nextState : PageState)
    (expectedVersion : Nat) : Except Raised Tables := do
  let pageId ← uuid nextState.pageId
  let headRevisionId ← uuid nextState.headRevisionId
  let page : PageState := { nextState with pageId := pageId, headRevisionId := headRevisionId }
  match command with
  | .createPage _ => tables.createRow page
  | _ => tables.updateRow page expectedVersion

def queue (tables : Tables) (occurredAt : Instant) : List OutboxEffect → Except Raised Tables
  | [] => .ok tables
  | effect :: rest => do
    let tables ← tables.insertOutbox
        { effect := effect, status := .pending, createdAt := occurredAt }
    tables.queue occurredAt rest

/-- What an accepted command writes: its events, its page, its effects and its receipt. -/
def record (tables : Tables) (fingerprint : String) (command : WikiCommand)
    (state : Option PageState) (decision : Decision) : Except Raised (CommandReceipt × Tables) := do
  let expectedVersion := version state
  let (nextState, tables) ← tables.insertEvents state expectedVersion decision.events
  match nextState with
  | none => .error noState
  | some nextState =>
    let tables ← tables.writePage command nextState expectedVersion
    let tables ← tables.queue command.occurredAt decision.effects
    let pageId ← uuid command.pageId
    let receipt : CommandReceipt := {
      commandId := command.commandId
      fingerprint := fingerprint
      pageId := command.pageId
      streamVersion := nextState.streamVersion
      eventIds := decision.events.map (·.eventId) }
    let tables ← tables.insertReceipt {
      commandId := receipt.commandId
      fingerprint := receipt.fingerprint
      pageId := pageId
      streamVersion := receipt.streamVersion
      eventIds := receipt.eventIds
      createdAt := command.occurredAt }
    return (receipt, tables)

def transaction (lib : Stdlib) (tables : Tables) (command : WikiCommand) :
    Except Raised (CommandReceipt × Tables) := do
  let fingerprint := intentFingerprint lib command
  bindTexts [command.commandId]
  match tables.receipts.get? command.commandId with
  | some prior =>
    if prior.fingerprint ≠ fingerprint then .error (.wikiError idempotencyConflict)
    else return ({ prior.receipt with replayed := true }, tables)
  | none =>
    let state ← tables.current command
    let decision ← (command.decide lib state).mapError .wikiError
    tables.record fingerprint command state decision

/-- The foreign key of the events is checked when the transaction commits. -/
def orphaned (tables : Tables) : Prop :=
  ∃ row ∈ tables.events, row.event.pageId ∉ tables.pages.keys

instance (tables : Tables) : Decidable tables.orphaned :=
  inferInstanceAs (Decidable (∃ row ∈ tables.events, row.event.pageId ∉ tables.pages.keys))

def execute (lib : Stdlib) (tables : Tables) (command : WikiCommand) :
    Except Raised CommandReceipt × Tables :=
  match tables.transaction lib command with
  | .error raised => (.error raised, tables)
  | .ok (receipt, written) =>
    if written.orphaned then (.error (.databaseError (some "wiki_events_page_id_fkey")), tables)
    else (.ok receipt, written)

/-- The events of a page, oldest first. -/
def stream (tables : Tables) (pageId : String) : List StoredEvent :=
  tables.events.filter (fun row => row.event.pageId = pageId)

end Tables

end Metahumotonic.Wiki
