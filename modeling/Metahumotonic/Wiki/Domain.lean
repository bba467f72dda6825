import Metahumotonic.Library.JsonText

/-! The command kernel of the community wiki (`app/wiki/domain.py`): commands,
events, the decision taken on a command and the fold of events into a page.
Digests are parameters; nothing below depends on how they are computed. -/
namespace Metahumotonic.Wiki

/-- Microseconds since the epoch: aware datetimes are compared as instants. -/
abbrev Instant := Int

/-- What the kernel and the router take from `hashlib` and `uuid`: the hex SHA-256
of UTF-8 text and the text of the version 5 UUID in the URL namespace. -/
structure Stdlib where
  sha256 : String → String
  uuid5 : String → String

inductive Authority where
  | community
  deriving DecidableEq, Repr

inductive ReviewStatus where
  | unreviewed
  | submitted
  deriving DecidableEq, Repr

inductive ModerationStatus where
  | visible
  | quarantined
  deriving DecidableEq, Repr

structure WikiError where
  code : String
  message : String
  statusCode : Nat := 409
  deriving DecidableEq, Repr

structure PageState where
  pageId : String
  slug : String
  title : String
  content : String
  headRevisionId : String
  contentHash : String
  headActorId : String
  streamVersion : Nat
  reviewStatus : ReviewStatus
  moderationStatus : ModerationStatus
  createdAt : Instant
  updatedAt : Instant
  authority : Authority := .community
  deriving DecidableEq, Repr

structure CommandBase where
  commandId : String
  actorId : String
  scopes : List String
  occurredAt : Instant
  deriving DecidableEq, Repr

structure CreatePage extends CommandBase where
  pageId : String
  revisionId : String
  slug : String
  title : String
  content : String
  summary : String := ""
  deriving DecidableEq, Repr

structure EditPage extends CommandBase where
  pageId : String
  revisionId : String
  expectedRevisionId : String
  title : String
  content : String
  summary : String := ""
  deriving DecidableEq, Repr

structure SubmitReview extends CommandBase where
  pageId : String
  submissionId : String
  expectedRevisionId : String
  expectedContentHash : String
  note : String := ""
  deriving DecidableEq, Repr

structure ReportPage extends CommandBase where
  pageId : String
  reportId : String
  reason : String
  deriving DecidableEq, Repr

structure QuarantinePage extends CommandBase where
  pageId : String
  moderationId : String
  expectedRevisionId : String
  expectedContentHash : String
  reason : String
  deriving DecidableEq, Repr

structure ReleasePage extends CommandBase where
  pageId : String
  moderationId : String
  expectedRevisionId : String
  expectedContentHash : String
  note : String := ""
  deriving DecidableEq, Repr

inductive WikiCommand where
  | createPage (command : CreatePage)
  | editPage (command : EditPage)
  | submitReview (command : SubmitReview)
  | reportPage (command : ReportPage)
  | quarantinePage (command : QuarantinePage)
  | releasePage (command : ReleasePage)
  deriving DecidableEq, Repr

namespace WikiCommand

def base : WikiCommand → CommandBase
  | createPage c => c.toCommandBase
  | editPage c => c.toCommandBase
  | submitReview c => c.toCommandBase
  | reportPage c => c.toCommandBase
  | quarantinePage c => c.toCommandBase
  | releasePage c => c.toCommandBase

def commandId (command : WikiCommand) : String := command.base.commandId
def actorId (command : WikiCommand) : String := command.base.actorId
def occurredAt (command : WikiCommand) : Instant := command.base.occurredAt

def pageId : WikiCommand → String
  | createPage c => c.pageId
  | editPage c => c.pageId
  | submitReview c => c.pageId
  | reportPage c => c.pageId
  | quarantinePage c => c.pageId
  | releasePage c => c.pageId

end WikiCommand

/-- The data of an event, one shape for each event type. -/
inductive EventData where
  | pageCreated (slug title content contentHash revisionId summary editSummary : String)
      (authority : Authority) (reviewStatus : ReviewStatus) (moderationStatus : ModerationStatus)
  | revisionCommitted (revisionId parentRevisionId slug title content contentHash summary
      editSummary : String) (reviewStatus : ReviewStatus)
  | reviewSubmitted (submissionId revisionId note : String) (authority : Authority)
      (reviewStatus : ReviewStatus)
  | pageReported (reportId revisionId contentHash reason : String) (authority : Authority)
  | pageQuarantined (moderationId revisionId contentHash reason : String)
      (moderationStatus : ModerationStatus) (authority : Authority)
  | pageReleased (moderationId revisionId contentHash note : String)
      (moderationStatus : ModerationStatus) (authority : Authority)
  deriving DecidableEq, Repr

/-- The stored name of an event type. -/
def EventData.eventType : EventData → String
  | .pageCreated .. => "page_created"
  | .revisionCommitted .. => "revision_committed"
  | .reviewSubmitted .. => "review_submitted"
  | .pageReported .. => "page_reported"
  | .pageQuarantined .. => "page_quarantined"
  | .pageReleased .. => "page_released"

structure WikiEvent where
  eventId : String
  commandId : String
  pageId : String
  occurredAt : Instant
  actorId : String
  schemaVersion : Nat
  data : EventData
  deriving DecidableEq, Repr

def WikiEvent.eventType (event : WikiEvent) : String := event.data.eventType

inductive EffectPayload where
  | reviewRequested (submissionId pageId slug revisionId actorId note : String)
      (authority : Authority)
  | moderationReportRequested (reportId pageId slug revisionId contentHash actorId reason : String)
      (authority : Authority)
  deriving DecidableEq, Repr

def EffectPayload.effectType : EffectPayload → String
  | .reviewRequested .. => "review_requested"
  | .moderationReportRequested .. => "moderation_report_requested"

structure OutboxEffect where
  effectId : String
  eventId : String
  payload : EffectPayload
  deriving DecidableEq, Repr

def OutboxEffect.effectType (effect : OutboxEffect) : String := effect.payload.effectType

structure Decision where
  events : List WikiEvent
  effects : List OutboxEffect := []
  deriving DecidableEq, Repr

def contentDigest (lib : Stdlib) (content : String) : String := lib.sha256 content

/-- Raise the error when the condition holds. -/
def refuse (condition : Prop) [Decidable condition] (error : WikiError) : Except WikiError Unit :=
  if condition then .error error else .ok ()

@[simp] theorem refuse_bind_ok {condition : Prop} [Decidable condition] {error : WikiError}
    {next : Except WikiError α} {a : α} :
    (refuse condition error >>= fun _ => next) = .ok a ↔ ¬ condition ∧ next = .ok a := by
  by_cases h : condition <;> simp [refuse, h, bind, Except.bind]

def require (command : CommandBase) (scope : String) : Except WikiError Unit :=
  refuse (scope ∉ command.scopes) ⟨"insufficient_scope", "required scope: " ++ scope, 403⟩

/-- The event envelope that every branch of `decide` fills from its command. -/
def CommandBase.envelope (command : CommandBase) (eventId pageId : String) (data : EventData) :
    WikiEvent where
  eventId := eventId
  commandId := command.commandId
  pageId := pageId
  occurredAt := command.occurredAt
  actorId := command.actorId
  schemaVersion := 1
  data := data

def CreatePage.event (lib : Stdlib) (command : CreatePage) : WikiEvent :=
  command.envelope command.revisionId command.pageId
    (.pageCreated command.slug command.title command.content (contentDigest lib command.content)
      command.revisionId command.summary command.summary .community .unreviewed .visible)

def CreatePage.decide (lib : Stdlib) (state : Option PageState) (command : CreatePage) :
    Except WikiError Decision := do
  require command.toCommandBase "wiki:edit"
  refuse (state.isSome = true) ⟨"page_exists", "the page already exists", 409⟩
  return { events := [command.event lib] }

def EditPage.event (lib : Stdlib) (state : PageState) (command : EditPage) : WikiEvent :=
  command.envelope command.revisionId command.pageId
    (.revisionCommitted command.revisionId state.headRevisionId state.slug command.title
      command.content (contentDigest lib command.content) command.summary command.summary
      .unreviewed)

def EditPage.decide (lib : Stdlib) (state : PageState) (command : EditPage) :
    Except WikiError Decision := do
  require command.toCommandBase "wiki:edit"
  refuse (state.moderationStatus = .quarantined)
    ⟨"page_quarantined", "quarantined pages cannot be edited", 423⟩
  refuse (command.expectedRevisionId ≠ state.headRevisionId)
    ⟨"revision_conflict", "the page head has changed", 409⟩
  return { events := [command.event lib state] }

def SubmitReview.event (state : PageState) (command : SubmitReview) : WikiEvent :=
  command.envelope command.submissionId command.pageId
    (.reviewSubmitted command.submissionId state.headRevisionId command.note .community .submitted)

def SubmitReview.effect (state : PageState) (command : SubmitReview) : OutboxEffect where
  effectId := "review:" ++ command.submissionId
  eventId := (command.event state).eventId
  payload := .reviewRequested command.submissionId state.pageId state.slug state.headRevisionId
    command.actorId command.note .community

def SubmitReview.decide (state : PageState) (command : SubmitReview) :
    Except WikiError Decision := do
  require command.toCommandBase "wiki:submit"
  refuse (state.moderationStatus = .quarantined)
    ⟨"page_quarantined", "quarantined pages cannot be submitted for review", 423⟩
  refuse (command.expectedRevisionId ≠ state.headRevisionId)
    ⟨"revision_conflict", "the page head has changed", 409⟩
  refuse (command.expectedContentHash ≠ state.contentHash)
    ⟨"content_hash_conflict", "the page content hash has changed", 409⟩
  refuse (state.reviewStatus = .submitted)
    ⟨"already_submitted", "the current revision is already submitted", 409⟩
  return { events := [command.event state], effects := [command.effect state] }

def ReportPage.event (state : PageState) (command : ReportPage) : WikiEvent :=
  command.envelope command.reportId command.pageId
    (.pageReported command.reportId state.headRevisionId state.contentHash command.reason
      .community)

def ReportPage.effect (state : PageState) (command : ReportPage) : OutboxEffect where
  effectId := "report:" ++ command.reportId
  eventId := (command.event state).eventId
  payload := .moderationReportRequested command.reportId state.pageId state.slug
    state.headRevisionId state.contentHash command.actorId command.reason .community

def ReportPage.decide (state : PageState) (command : ReportPage) : Except WikiError Decision := do
  require command.toCommandBase "wiki:report"
  refuse (state.moderationStatus = .quarantined)
    ⟨"page_quarantined", "the page is not publicly reportable", 404⟩
  return { events := [command.event state], effects := [command.effect state] }

/-- The checks that quarantine and release share. -/
def moderate (state : PageState) (command : CommandBase)
    (expectedRevisionId expectedContentHash : String) : Except WikiError Unit := do
  require command "wiki:moderate"
  refuse (command.actorId = state.headActorId)
    ⟨"moderator_is_head_actor", "the head revision author cannot moderate that revision", 403⟩
  refuse (expectedRevisionId ≠ state.headRevisionId)
    ⟨"revision_conflict", "the page head has changed", 409⟩
  refuse (expectedContentHash ≠ state.contentHash)
    ⟨"content_hash_conflict", "the page content hash has changed", 409⟩

def QuarantinePage.event (state : PageState) (command : QuarantinePage) : WikiEvent :=
  command.envelope command.moderationId command.pageId
    (.pageQuarantined command.moderationId state.headRevisionId state.contentHash command.reason
      .quarantined .community)

def QuarantinePage.decide (state : PageState) (command : QuarantinePage) :
    Except WikiError Decision := do
  moderate state command.toCommandBase command.expectedRevisionId command.expectedContentHash
  refuse (state.moderationStatus = .quarantined)
    ⟨"already_quarantined", "the page is already quarantined", 409⟩
  return { events := [command.event state] }

def ReleasePage.event (state : PageState) (command : ReleasePage) : WikiEvent :=
  command.envelope command.moderationId command.pageId
    (.pageReleased command.moderationId state.headRevisionId state.contentHash command.note
      .visible .community)

def ReleasePage.decide (state : PageState) (command : ReleasePage) :
    Except WikiError Decision := do
  moderate state command.toCommandBase command.expectedRevisionId command.expectedContentHash
  refuse (state.moderationStatus ≠ .quarantined)
    ⟨"page_not_quarantined", "the page is not quarantined", 409⟩
  return { events := [command.event state] }

def pageNotFound : WikiError := ⟨"page_not_found", "the page does not exist", 404⟩

def existing (state : Option PageState) : Except WikiError PageState :=
  match state with
  | none => .error pageNotFound
  | some page => .ok page

def WikiCommand.decide (lib : Stdlib) (state : Option PageState) : WikiCommand →
    Except WikiError Decision
  | .createPage c => c.decide lib state
  | .editPage c => existing state >>= fun page => c.decide lib page
  | .submitReview c => existing state >>= fun page => c.decide page
  | .reportPage c => existing state >>= fun page => c.decide page
  | .quarantinePage c => existing state >>= fun page => c.decide page
  | .releasePage c => existing state >>= fun page => c.decide page

/-- Fold one recorded event into the page. The stream may not start with any
event but `page_created`, and may not contain it again. -/
def evolve (state : Option PageState) (event : WikiEvent) : Except WikiError PageState :=
  match event.data, state with
  | .pageCreated .., some _ =>
    .error ⟨"invalid_event_stream", "page_created must be the first event", 409⟩
  | .pageCreated slug title content contentHash revisionId _ _ _ _ _, none => .ok {
      pageId := event.pageId
      slug := slug
      title := title
      content := content
      headRevisionId := revisionId
      contentHash := contentHash
      headActorId := event.actorId
      streamVersion := 1
      reviewStatus := .unreviewed
      moderationStatus := .visible
      createdAt := event.occurredAt
      updatedAt := event.occurredAt }
  | _, none =>
    .error ⟨"invalid_event_stream", "event stream does not start with page_created", 409⟩
  | .revisionCommitted revisionId _ _ title content contentHash _ _ _, some page => .ok {
      pageId := page.pageId
      slug := page.slug
      title := title
      content := content
      headRevisionId := revisionId
      contentHash := contentHash
      headActorId := event.actorId
      streamVersion := page.streamVersion + 1
      reviewStatus := .unreviewed
      moderationStatus := .visible
      createdAt := page.createdAt
      updatedAt := event.occurredAt }
  | .reviewSubmitted .., some page => .ok { page with
      streamVersion := page.streamVersion + 1
      reviewStatus := .submitted
      updatedAt := event.occurredAt }
  | .pageReported .., some page => .ok { page with streamVersion := page.streamVersion + 1 }
  | .pageQuarantined _ _ _ _ moderationStatus _, some page
  | .pageReleased _ _ _ _ moderationStatus _, some page => .ok { page with
      streamVersion := page.streamVersion + 1
      moderationStatus := moderationStatus }

def replayFrom (state : Option PageState) : List WikiEvent → Except WikiError (Option PageState)
  | [] => .ok state
  | event :: rest => evolve state event >>= fun page => replayFrom (some page) rest

def replay (events : List WikiEvent) : Except WikiError (Option PageState) := replayFrom none events

/-- The members of the client-intent object. The clock and the generated ids are
not part of the intent. -/
def commandIntent (command : WikiCommand) : List (String × String) :=
  let common := fun kind : String =>
    [("kind", kind), ("actor_id", command.actorId), ("page_id", command.pageId)]
  match command with
  | .createPage c => common "CreatePage" ++
      [("slug", c.slug), ("title", c.title), ("content", c.content), ("summary", c.summary)]
  | .editPage c => common "EditPage" ++
      [("expected_revision_id", c.expectedRevisionId), ("title", c.title), ("content", c.content),
        ("summary", c.summary)]
  | .submitReview c => common "SubmitReview" ++
      [("expected_revision_id", c.expectedRevisionId),
        ("expected_content_hash", c.expectedContentHash), ("note", c.note)]
  | .reportPage c => common "ReportPage" ++ [("reason", c.reason)]
  | .quarantinePage c => common "QuarantinePage" ++
      [("expected_revision_id", c.expectedRevisionId),
        ("expected_content_hash", c.expectedContentHash), ("reason", c.reason)]
  | .releasePage c => common "ReleasePage" ++
      [("expected_revision_id", c.expectedRevisionId),
        ("expected_content_hash", c.expectedContentHash), ("note", c.note)]

def intentFingerprint (lib : Stdlib) (command : WikiCommand) : String :=
  lib.sha256 (Library.JsonText.dumps (commandIntent command))

end Metahumotonic.Wiki
