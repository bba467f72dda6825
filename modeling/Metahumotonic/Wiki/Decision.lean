import Metahumotonic.Library.Checks
import Metahumotonic.Wiki.Domain

/-! What an accepted command does, guards included. Every later fact about the
kernel is a case analysis on `Accepted`; `decide` is not unfolded again. -/
namespace Metahumotonic.Wiki

open Library

theorem require_bind_ok {command : CommandBase} {scope : String}
    {next : Except WikiError α} {a : α} :
    (require command scope >>= fun _ => next) = .ok a ↔ scope ∈ command.scopes ∧ next = .ok a := by
  simp [require]

theorem moderate_bind_ok {state : PageState} {command : CommandBase} {revision hash : String}
    {next : Except WikiError α} {a : α} :
    (moderate state command revision hash >>= fun _ => next) = .ok a ↔
      ("wiki:moderate" ∈ command.scopes ∧ command.actorId ≠ state.headActorId ∧
        revision = state.headRevisionId ∧ hash = state.contentHash) ∧ next = .ok a := by
  unfold moderate
  rw [bind_assoc]
  simp only [bind_assoc, require_bind_ok, refuse_bind_ok, Decidable.not_not, ne_eq, and_assoc]

inductive Accepted (lib : Stdlib) : Option PageState → WikiCommand → Decision → Prop where
  | create (command : CreatePage) (scope : "wiki:edit" ∈ command.scopes) :
      Accepted lib none (.createPage command) ⟨[command.event lib], []⟩
  | edit (page : PageState) (command : EditPage) (scope : "wiki:edit" ∈ command.scopes)
      (visible : page.moderationStatus ≠ .quarantined)
      (head : command.expectedRevisionId = page.headRevisionId) :
      Accepted lib (some page) (.editPage command) ⟨[command.event lib page], []⟩
  | submit (page : PageState) (command : SubmitReview) (scope : "wiki:submit" ∈ command.scopes)
      (visible : page.moderationStatus ≠ .quarantined)
      (head : command.expectedRevisionId = page.headRevisionId)
      (hash : command.expectedContentHash = page.contentHash)
      (unreviewed : page.reviewStatus ≠ .submitted) :
      Accepted lib (some page) (.submitReview command) ⟨[command.event page], [command.effect page]⟩
  | report (page : PageState) (command : ReportPage) (scope : "wiki:report" ∈ command.scopes)
      (visible : page.moderationStatus ≠ .quarantined) :
      Accepted lib (some page) (.reportPage command) ⟨[command.event page], [command.effect page]⟩
  | quarantine (page : PageState) (command : QuarantinePage)
      (scope : "wiki:moderate" ∈ command.scopes) (other : command.actorId ≠ page.headActorId)
      (head : command.expectedRevisionId = page.headRevisionId)
      (hash : command.expectedContentHash = page.contentHash)
      (visible : page.moderationStatus ≠ .quarantined) :
      Accepted lib (some page) (.quarantinePage command) ⟨[command.event page], []⟩
  | release (page : PageState) (command : ReleasePage)
      (scope : "wiki:moderate" ∈ command.scopes) (other : command.actorId ≠ page.headActorId)
      (head : command.expectedRevisionId = page.headRevisionId)
      (hash : command.expectedContentHash = page.contentHash)
      (quarantined : page.moderationStatus = .quarantined) :
      Accepted lib (some page) (.releasePage command) ⟨[command.event page], []⟩

theorem existing_bind_ok {state : Option PageState}
    {next : PageState → Except WikiError α} {a : α} :
    (existing state >>= next) = .ok a ↔ ∃ page, state = some page ∧ next page = .ok a := by
  cases state <;> simp [existing, bind, Except.bind]

theorem decide_ok {lib : Stdlib} {state : Option PageState} {command : WikiCommand}
    {decision : Decision} (ok : command.decide lib state = .ok decision) :
    Accepted lib state command decision := by
  cases command with
  | createPage c =>
    simp only [WikiCommand.decide, CreatePage.decide, require_bind_ok, refuse_bind_ok,
      pure_ok] at ok
    obtain ⟨scope, absent, rfl⟩ := ok
    have none : state = none := by simpa using absent
    subst none
    exact .create c scope
  | editPage c =>
    simp only [WikiCommand.decide, existing_bind_ok, EditPage.decide, require_bind_ok,
      refuse_bind_ok, pure_ok, ne_eq, Decidable.not_not] at ok
    obtain ⟨page, rfl, scope, visible, head, rfl⟩ := ok
    exact .edit page c scope visible head
  | submitReview c =>
    simp only [WikiCommand.decide, existing_bind_ok, SubmitReview.decide, require_bind_ok,
      refuse_bind_ok, pure_ok, ne_eq, Decidable.not_not] at ok
    obtain ⟨page, rfl, scope, visible, head, hash, unreviewed, rfl⟩ := ok
    exact .submit page c scope visible head hash unreviewed
  | reportPage c =>
    simp only [WikiCommand.decide, existing_bind_ok, ReportPage.decide, require_bind_ok,
      refuse_bind_ok, pure_ok] at ok
    obtain ⟨page, rfl, scope, visible, rfl⟩ := ok
    exact .report page c scope visible
  | quarantinePage c =>
    simp only [WikiCommand.decide, existing_bind_ok, QuarantinePage.decide, moderate_bind_ok,
      refuse_bind_ok, pure_ok] at ok
    obtain ⟨page, rfl, ⟨scope, other, head, hash⟩, visible, rfl⟩ := ok
    exact .quarantine page c scope other head hash visible
  | releasePage c =>
    simp only [WikiCommand.decide, existing_bind_ok, ReleasePage.decide, moderate_bind_ok,
      refuse_bind_ok, pure_ok, ne_eq, Decidable.not_not] at ok
    obtain ⟨page, rfl, ⟨scope, other, head, hash⟩, quarantined, rfl⟩ := ok
    exact .release page c scope other head hash quarantined

/-- The id that the boundary generates for the event of a command. -/
def WikiCommand.eventId : WikiCommand → String
  | .createPage c => c.revisionId
  | .editPage c => c.revisionId
  | .submitReview c => c.submissionId
  | .reportPage c => c.reportId
  | .quarantinePage c => c.moderationId
  | .releasePage c => c.moderationId

def version : Option PageState → Nat
  | none => 0
  | some page => page.streamVersion

def EventData.createdSlug : EventData → Option String
  | .pageCreated slug .. => some slug
  | _ => none

/-- One accepted command is one event, and the event moves the page one version on. -/
structure Step (state : Option PageState) (command : WikiCommand) (event : WikiEvent)
    (page : PageState) : Prop where
  eventId : event.eventId = command.eventId
  commandId : event.commandId = command.commandId
  eventPage : event.pageId = command.pageId
  occurredAt : event.occurredAt = command.occurredAt
  schema : event.schemaVersion = 1
  evolved : evolve state event = .ok page
  version : page.streamVersion = version state + 1
  created : state = none →
    page.pageId = command.pageId ∧ event.data.createdSlug = some page.slug
  kept : ∀ before, state = some before → page.pageId = before.pageId ∧ page.slug = before.slug

theorem Step.onPage {before page : PageState} {command : WikiCommand} {event : WikiEvent}
    (eventId : event.eventId = command.eventId) (commandId : event.commandId = command.commandId)
    (eventPage : event.pageId = command.pageId) (occurredAt : event.occurredAt = command.occurredAt)
    (schema : event.schemaVersion = 1) (evolved : evolve (some before) event = .ok page)
    (version : page.streamVersion = before.streamVersion + 1)
    (kept : page.pageId = before.pageId ∧ page.slug = before.slug) :
    Step (some before) command event page where
  eventId := eventId
  commandId := commandId
  eventPage := eventPage
  occurredAt := occurredAt
  schema := schema
  evolved := evolved
  version := version
  created := nofun
  kept := by
    intro other same
    cases same
    exact kept

theorem Accepted.step {lib : Stdlib} {state : Option PageState} {command : WikiCommand}
    {decision : Decision} (accepted : Accepted lib state command decision) :
    ∃ event page, decision.events = [event] ∧ Step state command event page := by
  cases accepted with
  | create c => exact ⟨_, _, rfl, rfl, rfl, rfl, rfl, rfl, rfl, rfl, fun _ => ⟨rfl, rfl⟩, nofun⟩
  | edit page c => exact ⟨_, _, rfl, .onPage rfl rfl rfl rfl rfl rfl rfl ⟨rfl, rfl⟩⟩
  | submit page c => exact ⟨_, _, rfl, .onPage rfl rfl rfl rfl rfl rfl rfl ⟨rfl, rfl⟩⟩
  | report page c => exact ⟨_, _, rfl, .onPage rfl rfl rfl rfl rfl rfl rfl ⟨rfl, rfl⟩⟩
  | quarantine page c => exact ⟨_, _, rfl, .onPage rfl rfl rfl rfl rfl rfl rfl ⟨rfl, rfl⟩⟩
  | release page c => exact ⟨_, _, rfl, .onPage rfl rfl rfl rfl rfl rfl rfl ⟨rfl, rfl⟩⟩

/-- Only a creation is accepted where there is no page, and it is accepted nowhere else. -/
theorem Accepted.creates {lib : Stdlib} {command : WikiCommand} {decision : Decision}
    (accepted : Accepted lib none command decision) : ∃ c, command = .createPage c := by
  cases accepted
  exact ⟨_, rfl⟩

theorem Accepted.not_creates {lib : Stdlib} {page : PageState} {command : WikiCommand}
    {decision : Decision} (accepted : Accepted lib (some page) command decision) (c : CreatePage) :
    command ≠ .createPage c := by
  rintro rfl
  cases accepted

/-- Only the event of a creation names a slug, and it names the command's own. -/
theorem Accepted.createdSlug {lib : Stdlib} {state : Option PageState} {command : WikiCommand}
    {decision : Decision} {event : WikiEvent} (accepted : Accepted lib state command decision)
    (events : decision.events = [event]) {slug : String}
    (claims : event.data.createdSlug = some slug) :
    state = none ∧ ∃ c, command = .createPage c ∧ c.slug = slug := by
  cases accepted <;> obtain ⟨rfl, -⟩ := List.cons.inj events <;> cases claims
  exact ⟨rfl, _, rfl, rfl⟩

/-- The event types that leave work in the outbox. -/
def EventData.notifies : EventData → Bool
  | .reviewSubmitted .. | .pageReported .. => true
  | _ => false

def EventData.effectPrefix : EventData → String
  | .reviewSubmitted .. => "review:"
  | _ => "report:"

/-- The outbox gets one effect for a review or a report and none for other events. -/
theorem Accepted.effects {lib : Stdlib} {state : Option PageState} {command : WikiCommand}
    {decision : Decision} {event : WikiEvent} (accepted : Accepted lib state command decision)
    (events : decision.events = [event]) :
    (event.data.notifies = true ∧ ∃ effect, decision.effects = [effect] ∧
      effect.eventId = event.eventId ∧ effect.effectId = event.data.effectPrefix ++ event.eventId) ∨
    (event.data.notifies = false ∧ decision.effects = []) := by
  cases accepted <;> obtain ⟨rfl, -⟩ := List.cons.inj events
  · exact .inr ⟨rfl, rfl⟩
  · exact .inr ⟨rfl, rfl⟩
  · exact .inl ⟨rfl, _, rfl, rfl, rfl⟩
  · exact .inl ⟨rfl, _, rfl, rfl, rfl⟩
  · exact .inr ⟨rfl, rfl⟩
  · exact .inr ⟨rfl, rfl⟩

/-- The codes of the refusals of `decide`. -/
def refusalCodes : List String :=
  ["insufficient_scope", "page_exists", "page_not_found", "page_quarantined", "revision_conflict",
    "content_hash_conflict", "already_submitted", "moderator_is_head_actor", "already_quarantined",
    "page_not_quarantined"]

def RefusesListed (x : Except WikiError α) : Prop := ∀ error, x = .error error →
    error.code ∈ refusalCodes

theorem RefusesListed.refuse {condition : Prop} [Decidable condition] {error : WikiError}
    {next : Except WikiError α} (listed : error.code ∈ refusalCodes) (later : RefusesListed next) :
    RefusesListed (Wiki.refuse condition error >>= fun _ => next) := by
  intro raised failed
  by_cases h : condition
  · simp only [Wiki.refuse, if_pos h, bind, Except.bind] at failed
    cases failed
    exact listed
  · simp only [Wiki.refuse, if_neg h, bind, Except.bind] at failed
    exact later raised failed

theorem RefusesListed.pure (a : α) : RefusesListed (Pure.pure a : Except WikiError α) := nofun

theorem RefusesListed.existing {state : Option PageState} {next : PageState → Except WikiError α}
    (later : ∀ page, RefusesListed (next page)) : RefusesListed (Wiki.existing state >>= next) := by
  cases state with
  | none =>
    rintro raised ⟨⟩
    decide
  | some page => exact later page

theorem RefusesListed.moderate {state : PageState} {command : CommandBase} {revision hash : String}
    {next : Except WikiError α} (later : RefusesListed next) :
    RefusesListed (Wiki.moderate state command revision hash >>= fun _ => next) := by
  unfold Wiki.moderate
  rw [bind_assoc]
  simp only [bind_assoc]
  exact .refuse (by decide) (.refuse (by decide) (.refuse (by decide) (.refuse (by decide) later)))

theorem decide_code (lib : Stdlib) (state : Option PageState) (command : WikiCommand) :
    RefusesListed (command.decide lib state) := by
  cases command with
  | createPage c => exact .refuse (by decide) (.refuse (by decide) (.pure _))
  | editPage c =>
    exact .existing fun page =>
      .refuse (by decide) (.refuse (by decide) (.refuse (by decide) (.pure _)))
  | submitReview c =>
    exact .existing fun page => .refuse (by decide) (.refuse (by decide) (.refuse (by decide)
      (.refuse (by decide) (.refuse (by decide) (.pure _)))))
  | reportPage c =>
    exact .existing fun page => .refuse (by decide) (.refuse (by decide) (.pure _))
  | quarantinePage c => exact .existing fun page => .moderate (.refuse (by decide) (.pure _))
  | releasePage c => exact .existing fun page => .moderate (.refuse (by decide) (.pure _))

end Metahumotonic.Wiki
