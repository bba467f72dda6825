import Metahumotonic.Wiki.Ids
import Metahumotonic.Wiki.Memory

/-! Mutations at the HTTP boundary (`app/routers/wiki.py`): the public endpoints and
the moderation endpoints. A request has passed authentication and the validation
of its body; its path and body build a command, which the store executes. -/
namespace Metahumotonic.Wiki

open Library

/-- The Unicode tables that `normalize_slug` reads. -/
structure Unicode where
  nfkc : String → String
  casefold : String → String
  isSpace : Char → Bool
  isAlnum : Char → Bool

def MAX_SLUG : Nat := 80

def RESERVED_SLUGS : List String :=
  ["api", "authority", "canonical", "history", "recent-changes", "session"]

def strip (p : Char → Bool) (text : List Char) : List Char :=
  ((text.dropWhile p).reverse.dropWhile p).reverse

/-- Every run of matching characters becomes one hyphen. -/
def hyphenateRuns (p : Char → Bool) (inRun : Bool) : List Char → List Char
  | [] => []
  | c :: rest =>
    if p c then
      if inRun then hyphenateRuns p true rest else '-' :: hyphenateRuns p true rest
    else c :: hyphenateRuns p false rest

def normalizeSlug (unicode : Unicode) (value : String) : Except WikiError String :=
  let folded := unicode.casefold (String.ofList (strip unicode.isSpace (unicode.nfkc value).toList))
  let spaced := hyphenateRuns (fun c => unicode.isSpace c || c == '_') false folded.toList
  let kept := spaced.filter fun c => unicode.isAlnum c || c == '-'
  let normalized := String.ofList (strip (· == '-') (hyphenateRuns (· == '-') false kept))
  if normalized = "" ∨ MAX_SLUG < normalized.length then
    .error ⟨"invalid_slug", "slug must normalize to 1..80 characters", 422⟩
  else if normalized ∈ RESERVED_SLUGS then .error ⟨"reserved_slug", "slug is reserved", 422⟩
  else .ok normalized

structure CreatePageRequest where
  slug : String
  title : String
  content : String
  editSummary : String := ""

structure EditPageRequest where
  expectedHeadRevisionId : String
  title : Option String := none
  content : String
  editSummary : String := ""

structure SubmitReviewRequest where
  revisionId : Option String := none
  contentHash : Option String := none
  note : String := ""

structure ReportRequest where
  reason : String

structure QuarantineRequest where
  expectedHeadRevisionId : String
  contentHash : String
  reason : String

structure ReleaseRequest where
  expectedHeadRevisionId : String
  contentHash : String
  note : String := ""

inductive Mutation where
  | createPage (body : CreatePageRequest)
  | editPage (slug : String) (body : EditPageRequest)
  | submitReview (slug : String) (body : SubmitReviewRequest)
  | reportPage (slug : String) (body : ReportRequest)
  | quarantinePage (slug : String) (body : QuarantineRequest)
  | releasePage (slug : String) (body : ReleaseRequest)

/-- A request of an authenticated actor: a session's, or the moderator's. -/
structure Request where
  actorId : String
  scopes : List String
  idempotencyKey : Option String
  mutation : Mutation

/-- What a request does not carry: the clock and the random id. -/
structure Moment where
  now : Instant
  uuid4 : String

structure CommandResponse where
  commandId : String
  pageId : String
  streamVersion : Nat
  eventIds : List String
  replayed : Bool
  authority : Authority := .community
  deriving DecidableEq, Repr

def commandResponse (receipt : CommandReceipt) : CommandResponse where
  commandId := receipt.commandId
  pageId := receipt.pageId
  streamVersion := receipt.streamVersion
  eventIds := receipt.eventIds
  replayed := receipt.replayed

def requireScope (request : Request) (scope : String) : Except WikiError Unit :=
  refuse (scope ∉ request.scopes) ⟨"insufficient_scope", "required scope: " ++ scope, 403⟩

def pageAt (unicode : Unicode) (store : InMemoryWikiStore) (slug : String)
    (includeQuarantined : Bool) :
    Except WikiError PageState := do
  let normalized ← normalizeSlug unicode slug
  existing (store.getPageBySlug normalized includeQuarantined)

def pageOr404 (unicode : Unicode) (store : InMemoryWikiStore) (slug : String) :
    Except WikiError PageState :=
  pageAt unicode store slug false

def operatorPage (unicode : Unicode) (store : InMemoryWikiStore) (slug : String) :
    Except WikiError PageState :=
  pageAt unicode store slug true

/-- An optional text, or the page's own where it is missing or empty. -/
def orElse (given : Option String) (own : String) : String :=
  match given with
  | none => own
  | some text => if text = "" then own else text

namespace Request

variable (lib : Stdlib) (unicode : Unicode) (store : InMemoryWikiStore) (request : Request)
  (moment : Moment)

def commandBase (commandId : String) (scopes : List String) : CommandBase where
  commandId := commandId
  actorId := request.actorId
  scopes := scopes
  occurredAt := moment.now

def commandId : Except WikiError String :=
  commandIdOf lib moment.uuid4 request.actorId request.idempotencyKey

def createPage (body : CreatePageRequest) : Except WikiError WikiCommand := do
  requireScope request "wiki:edit"
  let commandId ← request.commandId lib moment
  let slug ← normalizeSlug unicode body.slug
  return .createPage { request.commandBase moment commandId request.scopes with
    pageId := stableId lib commandId .page
    revisionId := stableId lib commandId .revision
    slug := slug
    title := body.title
    content := body.content
    summary := body.editSummary }

def editImpl (slug : String) (body : EditPageRequest) : Except WikiError WikiCommand := do
  requireScope request "wiki:edit"
  let page ← pageOr404 unicode store slug
  let commandId ← request.commandId lib moment
  return .editPage { request.commandBase moment commandId request.scopes with
    pageId := page.pageId
    revisionId := stableId lib commandId .revision
    expectedRevisionId := body.expectedHeadRevisionId
    title := body.title.getD page.title
    content := body.content
    summary := body.editSummary }

def submitReview (slug : String) (body : SubmitReviewRequest) : Except WikiError WikiCommand := do
  requireScope request "wiki:submit"
  let page ← pageOr404 unicode store slug
  let commandId ← request.commandId lib moment
  return .submitReview { request.commandBase moment commandId request.scopes with
    pageId := page.pageId
    submissionId := stableId lib commandId .submission
    expectedRevisionId := orElse body.revisionId page.headRevisionId
    expectedContentHash := orElse body.contentHash page.contentHash
    note := body.note }

def reportPage (slug : String) (body : ReportRequest) : Except WikiError WikiCommand := do
  requireScope request "wiki:report"
  let page ← pageOr404 unicode store slug
  let commandId ← request.commandId lib moment
  return .reportPage { request.commandBase moment commandId request.scopes with
    pageId := page.pageId
    reportId := stableId lib commandId .report
    reason := body.reason }

def quarantinePage (slug : String) (body : QuarantineRequest) : Except WikiError WikiCommand := do
  let page ← operatorPage unicode store slug
  let commandId ← request.commandId lib moment
  return .quarantinePage { request.commandBase moment commandId ["wiki:moderate"] with
    pageId := page.pageId
    moderationId := stableId lib commandId .moderation
    expectedRevisionId := body.expectedHeadRevisionId
    expectedContentHash := body.contentHash
    reason := body.reason }

def releasePage (slug : String) (body : ReleaseRequest) : Except WikiError WikiCommand := do
  let page ← operatorPage unicode store slug
  let commandId ← request.commandId lib moment
  return .releasePage { request.commandBase moment commandId ["wiki:moderate"] with
    pageId := page.pageId
    moderationId := stableId lib commandId .moderation
    expectedRevisionId := body.expectedHeadRevisionId
    expectedContentHash := body.contentHash
    note := body.note }

/-- The command that an endpoint builds from its request and the current page. -/
def command : Except WikiError WikiCommand :=
  match request.mutation with
  | .createPage body => request.createPage lib unicode moment body
  | .editPage slug body => request.editImpl lib unicode store moment slug body
  | .submitReview slug body => request.submitReview lib unicode store moment slug body
  | .reportPage slug body => request.reportPage lib unicode store moment slug body
  | .quarantinePage slug body => request.quarantinePage lib unicode store moment slug body
  | .releasePage slug body => request.releasePage lib unicode store moment slug body

end Request

/-- One mutation over HTTP. -/
def handle (lib : Stdlib) (unicode : Unicode) (store : InMemoryWikiStore)
    (arrival : Request × Moment) :
    Except Raised CommandResponse × InMemoryWikiStore :=
  match arrival.1.command lib unicode store arrival.2 with
  | .error error => (.error (.wikiError error), store)
  | .ok command =>
    let executed := store.execute lib command
    (executed.1.map commandResponse, executed.2)

end Metahumotonic.Wiki
