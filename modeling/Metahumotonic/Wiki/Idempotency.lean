import Metahumotonic.Library.Run
import Metahumotonic.Wiki.Decision
import Metahumotonic.Wiki.Router

/-! Retries of a mutation. The receipt of a command is kept for good, but a retry
reaches it only through a command that the router builds from the page as it is
then. -/
namespace Metahumotonic.Wiki

open Library InMemoryWikiStore

section Store

variable {lib : Stdlib} {store : InMemoryWikiStore} {command : WikiCommand}

/-- What `execute` answers and leaves behind. -/
inductive Executed (lib : Stdlib) (store : InMemoryWikiStore) (command : WikiCommand) :
    Except Raised CommandReceipt → InMemoryWikiStore → Prop where
  | raised (raised : Raised) : Executed lib store command (.error raised) store
  | replayed (prior : CommandReceipt) (found : store.receipts.get? command.commandId = some prior)
      (same : prior.fingerprint = intentFingerprint lib command) :
      Executed lib store command (.ok { prior with replayed := true }) store
  | recorded (receipt : CommandReceipt) (state : Option PageState) (event : WikiEvent)
      (page : PageState) (next : InMemoryWikiStore)
      (unused : store.receipts.get? command.commandId = none)
      (current : store.current command = .ok state) (step : Step state command event page)
      (fingerprint : receipt.fingerprint = intentFingerprint lib command)
      (pages : next.pages = store.pages.set command.pageId page)
      (slugs : next.slugToId = claimSlug store.slugToId command)
      (receipts : next.receipts = store.receipts.set command.commandId receipt) :
      Executed lib store command (.ok receipt) next

theorem executed (lib : Stdlib) (store : InMemoryWikiStore) (command : WikiCommand) :
    Executed lib store command (store.execute lib command).1 (store.execute lib command).2 := by
  unfold InMemoryWikiStore.execute
  dsimp only
  split
  · rename_i prior found
    split
    · exact .raised _
    · rename_i same
      exact .replayed prior found (Decidable.not_not.mp same)
  · rename_i unused
    split
    · exact .raised _
    · rename_i state current
      split
      · exact .raised _
      · rename_i decision decided
        obtain ⟨event, page, events, step⟩ := (decide_ok decided).step
        rw [events]
        simp only [appendEvents, step.evolved]
        exact .recorded _ state event page _ unused current step rfl rfl rfl rfl

/-- Nothing is lost: receipts and slugs stay as they are, and pages stay there. -/
structure Later (s t : InMemoryWikiStore) : Prop where
  receipts : ∀ commandId receipt, s.receipts.get? commandId = some receipt →
    t.receipts.get? commandId = some receipt
  slugs : ∀ slug pageId, s.slugToId.get? slug = some pageId → t.slugToId.get? slug = some pageId
  pages : ∀ pageId page, s.pages.get? pageId = some page → ∃ now, t.pages.get? pageId = some now

theorem Later.refl (s : InMemoryWikiStore) : Later s s :=
  ⟨fun _ _ => id, fun _ _ => id, fun _ page found => ⟨page, found⟩⟩

theorem Later.trans {s t u : InMemoryWikiStore} (first : Later s t) (second : Later t u) :
    Later s u where
  receipts commandId receipt found := second.receipts _ _ (first.receipts _ _ found)
  slugs slug pageId found := second.slugs _ _ (first.slugs _ _ found)
  pages pageId page found := by
    obtain ⟨now, kept⟩ := first.pages pageId page found
    exact second.pages pageId now kept

/-- Every page is stored under its own id. -/
def Homed (store : InMemoryWikiStore) : Prop :=
  ∀ pageId page, store.pages.get? pageId = some page → page.pageId = pageId

theorem current_create {c : CreatePage} {state : Option PageState}
    (current : store.current (.createPage c) = .ok state) :
    state = none ∧ c.slug ∉ store.slugToId.keys := by
  simp only [InMemoryWikiStore.current] at current
  split at current
  · cases current
  · rename_i free
    cases current
    exact ⟨rfl, free⟩

theorem execute_later (lib : Stdlib) (store : InMemoryWikiStore) (command : WikiCommand) :
    Later store (store.execute lib command).2 := by
  have outcome := executed lib store command
  generalize store.execute lib command = result at outcome
  obtain ⟨answer, next⟩ := result
  dsimp only at outcome ⊢
  cases outcome with
  | raised _ => exact .refl store
  | replayed _ _ _ => exact .refl store
  | recorded receipt state event page _ unused current step fingerprint pages slugs receipts =>
    constructor
    · intro commandId kept found
      rw [receipts, Table.get?_set]
      split
      · rename_i same
        rw [same, unused] at found
        cases found
      · exact found
    · intro slug pageId found
      rw [slugs]
      cases command with
      | createPage c =>
        rw [claimSlug, Table.get?_set]
        split
        · rename_i same
          have free := (Table.not_mem_keys _ _).mp (current_create current).2
          rw [same, free] at found
          cases found
        · exact found
      | _ => exact found
    · intro pageId old found
      rw [pages, Table.get?_set]
      split
      · exact ⟨page, rfl⟩
      · exact ⟨old, found⟩

theorem execute_homed (lib : Stdlib) (homed : Homed store) (command : WikiCommand) :
    Homed (store.execute lib command).2 := by
  have outcome := executed lib store command
  generalize store.execute lib command = result at outcome
  obtain ⟨answer, next⟩ := result
  dsimp only at outcome ⊢
  cases outcome with
  | raised _ => exact homed
  | replayed _ _ _ => exact homed
  | recorded receipt state event page _ unused current step fingerprint pages slugs receipts =>
    have home : page.pageId = command.pageId := by
      cases state with
      | none => exact (step.created rfl).1
      | some before =>
        refine (step.kept before rfl).1.trans (homed _ _ ?_)
        cases command with
        | createPage c => cases (current_create current).1
        | _ => exact Except.ok.inj current
    intro pageId found
    rw [pages, Table.get?_set]
    split
    · rename_i same
      rintro ⟨⟩
      rw [home, same]
    · exact homed pageId found

/-- An accepted command leaves its receipt, under which a later command with its id
is answered. -/
theorem execute_receipt {answer : CommandReceipt}
    (accepted : (store.execute lib command).1 = .ok answer) :
    ∃ prior, (store.execute lib command).2.receipts.get? command.commandId = some prior ∧
      prior.fingerprint = intentFingerprint lib command ∧
      { prior with replayed := true } = { answer with replayed := true } := by
  have outcome := executed lib store command
  generalize store.execute lib command = result at outcome accepted
  obtain ⟨given, next⟩ := result
  dsimp only at outcome accepted ⊢
  subst accepted
  cases outcome with
  | replayed prior found same => exact ⟨prior, found, same, rfl⟩
  | recorded receipt state event page _ unused current step fingerprint pages slugs receipts =>
    exact ⟨answer, by rw [receipts, Table.get?_set_self], fingerprint, rfl⟩

theorem execute_again {prior : CommandReceipt}
    (found : store.receipts.get? command.commandId = some prior) :
    store.execute lib command =
      if prior.fingerprint = intentFingerprint lib command then
        (.ok { prior with replayed := true }, store)
      else (.error (.wikiError idempotencyConflict), store) := by
  unfold InMemoryWikiStore.execute
  rw [found]
  dsimp only
  split <;> simp_all

end Store

section Boundary

variable {lib : Stdlib} {unicode : Unicode} {s t store : InMemoryWikiStore} {request : Request}

theorem handle_cases (lib : Stdlib) (unicode : Unicode) (store : InMemoryWikiStore)
    (arrival : Request × Moment) :
    (∃ error, handle lib unicode store arrival = (.error (.wikiError error), store)) ∨
    ∃ command, arrival.1.command lib unicode store arrival.2 = .ok command ∧
      handle lib unicode store arrival =
        ((store.execute lib command).1.map commandResponse, (store.execute lib command).2) := by
  unfold handle
  cases arrival.1.command lib unicode store arrival.2 with
  | error error => exact .inl ⟨error, rfl⟩
  | ok command => exact .inr ⟨command, rfl, rfl⟩

theorem handle_later (arrival : Request × Moment) :
    Later store (handle lib unicode store arrival).2 := by
  rcases handle_cases lib unicode store arrival with ⟨error, same⟩ | ⟨command, _, same⟩
  · rw [same]
    exact .refl store
  · rw [same]
    exact execute_later lib store command

theorem handle_homed (homed : Homed store) (arrival : Request × Moment) :
    Homed (handle lib unicode store arrival).2 := by
  rcases handle_cases lib unicode store arrival with ⟨error, same⟩ | ⟨command, _, same⟩
  · rw [same]
    exact homed
  · rw [same]
    exact execute_homed lib homed command

theorem served_later (store : InMemoryWikiStore) (arrivals : List (Request × Moment)) :
    Later store (serve (handle lib unicode) store arrivals).2 :=
  serve_invariant (handle lib unicode) (fun _ => True) (Later store)
    (fun _ arrival _ before => before.trans (handle_later arrival)) arrivals
    (fun _ _ => trivial) store
    (.refl store)

theorem served_homed (homed : Homed store) (arrivals : List (Request × Moment)) :
    Homed (serve (handle lib unicode) store arrivals).2 :=
  serve_invariant (handle lib unicode) (fun _ => True) Homed
    (fun _ arrival _ before => handle_homed before arrival) arrivals
    (fun _ _ => trivial) store homed

theorem empty_homed : Homed {} := nofun

theorem existing_ok {state : Option PageState} {page : PageState} :
    existing state = .ok page ↔ state = some page := by
  cases state <;> simp [existing]

/-- The public sees the pages that are not quarantined. -/
theorem pageOr404_ok {slug : String} {page : PageState} :
    pageOr404 unicode store slug = .ok page ↔
      operatorPage unicode store slug = .ok page ∧ page.moderationStatus ≠ .quarantined := by
  unfold pageOr404 operatorPage pageAt
  cases normalizeSlug unicode slug with
  | error error => simp [bind, Except.bind]
  | ok normalized =>
    simp only [bind, Except.bind, existing_ok, getPageBySlug, and_true,
      Bool.true_eq_false, and_false,
      if_false]
    cases (store.slugToId.get? normalized).bind fun pageId =>
      if pageId = "" then none else store.pages.get? pageId with
    | none => simp
    | some found =>
      by_cases quarantined : found.moderationStatus = .quarantined
      · simp only [quarantined, if_true, reduceCtorEq, Option.some.injEq, false_iff, not_and,
          Decidable.not_not]
        rintro rfl
        exact quarantined
      · simp only [quarantined, if_false, Option.some.injEq]
        constructor
        · rintro rfl
          exact ⟨rfl, quarantined⟩
        · exact And.left

/-- A page is found again under its slug, with its id. -/
theorem operatorPage_later (later : Later s t) (homedS : Homed s) (homedT : Homed t) {slug : String}
    {page : PageState} (found : operatorPage unicode s slug = .ok page) :
    ∃ now, operatorPage unicode t slug = .ok now ∧ now.pageId = page.pageId := by
  unfold operatorPage pageAt at found ⊢
  cases normal : normalizeSlug unicode slug with
  | error error => rw [normal] at found; cases found
  | ok normalized =>
    rw [normal] at found
    simp only [bind, Except.bind, existing_ok, getPageBySlug, Bool.true_eq_false, and_false,
      if_false] at found ⊢
    cases mapped : s.slugToId.get? normalized with
    | none => rw [mapped] at found; cases found
    | some pageId =>
      rw [mapped] at found
      rw [later.slugs _ _ mapped]
      by_cases blank : pageId = ""
      · simp [blank] at found
      · simp only [Option.bind_some, if_neg blank] at found ⊢
        cases stored : s.pages.get? pageId with
        | none => rw [stored] at found; cases found
        | some old =>
          rw [stored] at found
          cases found
          obtain ⟨now, there⟩ := later.pages _ _ stored
          exact ⟨now, by rw [there], (homedT _ _ there).trans (homedS _ _ stored).symm⟩

theorem requireScope_ok {scope : String} {u : Unit} :
    requireScope request scope = .ok u ↔ scope ∈ request.scopes := by
  by_cases granted : scope ∈ request.scopes <;> simp [requireScope, refuse, granted]

/-- Whether a retry builds the command of the first request again: creations and
moderation always do. The other endpoints need a page that the public sees, on which
every omitted field is completed as it was. -/
def StillOpen (unicode : Unicode) (s t : InMemoryWikiStore) : Mutation → Prop
  | .createPage _ | .quarantinePage _ _ | .releasePage _ _ => True
  | .editPage slug body => ∃ old now, operatorPage unicode s slug = .ok old ∧
      operatorPage unicode t slug = .ok now ∧ now.moderationStatus ≠ .quarantined ∧
      body.title.getD now.title = body.title.getD old.title
  | .submitReview slug body => ∃ old now, operatorPage unicode s slug = .ok old ∧
      operatorPage unicode t slug = .ok now ∧ now.moderationStatus ≠ .quarantined ∧
      orElse body.revisionId now.headRevisionId = orElse body.revisionId old.headRevisionId ∧
      orElse body.contentHash now.contentHash = orElse body.contentHash old.contentHash
  | .reportPage slug _ => ∃ now, operatorPage unicode t slug = .ok now ∧
      now.moderationStatus ≠ .quarantined

section Build

variable {moment first again : Moment} {c d : WikiCommand}

theorem createPage_ok {body : CreatePageRequest} :
    request.createPage lib unicode moment body = .ok c ↔ "wiki:edit" ∈ request.scopes ∧
      ∃ commandId, request.commandId lib moment = .ok commandId ∧
      ∃ slug, normalizeSlug unicode body.slug = .ok slug ∧
      .createPage { request.commandBase moment commandId request.scopes with
        pageId := stableId lib commandId .page
        revisionId := stableId lib commandId .revision
        slug := slug
        title := body.title
        content := body.content
        summary := body.editSummary } = c := by
  simp only [Request.createPage, requireScope_ok, bind_ok, pure_ok, exists_const]

theorem editImpl_ok {slug : String} {body : EditPageRequest} :
    request.editImpl lib unicode store moment slug body = .ok c ↔ "wiki:edit" ∈ request.scopes ∧
      ∃ page, pageOr404 unicode store slug = .ok page ∧
      ∃ commandId, request.commandId lib moment = .ok commandId ∧
      .editPage { request.commandBase moment commandId request.scopes with
        pageId := page.pageId
        revisionId := stableId lib commandId .revision
        expectedRevisionId := body.expectedHeadRevisionId
        title := body.title.getD page.title
        content := body.content
        summary := body.editSummary } = c := by
  simp only [Request.editImpl, requireScope_ok, bind_ok, pure_ok, exists_const]

theorem submitReview_ok {slug : String} {body : SubmitReviewRequest} :
    request.submitReview lib unicode store moment slug body = .ok c ↔
      "wiki:submit" ∈ request.scopes ∧
      ∃ page, pageOr404 unicode store slug = .ok page ∧
      ∃ commandId, request.commandId lib moment = .ok commandId ∧
      .submitReview { request.commandBase moment commandId request.scopes with
        pageId := page.pageId
        submissionId := stableId lib commandId .submission
        expectedRevisionId := orElse body.revisionId page.headRevisionId
        expectedContentHash := orElse body.contentHash page.contentHash
        note := body.note } = c := by
  simp only [Request.submitReview, requireScope_ok, bind_ok, pure_ok, exists_const]

theorem reportPage_ok {slug : String} {body : ReportRequest} :
    request.reportPage lib unicode store moment slug body = .ok c ↔ "wiki:report" ∈ request.scopes ∧
      ∃ page, pageOr404 unicode store slug = .ok page ∧
      ∃ commandId, request.commandId lib moment = .ok commandId ∧
      .reportPage { request.commandBase moment commandId request.scopes with
        pageId := page.pageId
        reportId := stableId lib commandId .report
        reason := body.reason } = c := by
  simp only [Request.reportPage, requireScope_ok, bind_ok, pure_ok, exists_const]

theorem quarantinePage_ok {slug : String} {body : QuarantineRequest} :
    request.quarantinePage lib unicode store moment slug body = .ok c ↔
      ∃ page, operatorPage unicode store slug = .ok page ∧
      ∃ commandId, request.commandId lib moment = .ok commandId ∧
      .quarantinePage { request.commandBase moment commandId ["wiki:moderate"] with
        pageId := page.pageId
        moderationId := stableId lib commandId .moderation
        expectedRevisionId := body.expectedHeadRevisionId
        expectedContentHash := body.contentHash
        reason := body.reason } = c := by
  simp only [Request.quarantinePage, bind_ok, pure_ok]

theorem releasePage_ok {slug : String} {body : ReleaseRequest} :
    request.releasePage lib unicode store moment slug body = .ok c ↔
      ∃ page, operatorPage unicode store slug = .ok page ∧
      ∃ commandId, request.commandId lib moment = .ok commandId ∧
      .releasePage { request.commandBase moment commandId ["wiki:moderate"] with
        pageId := page.pageId
        moderationId := stableId lib commandId .moderation
        expectedRevisionId := body.expectedHeadRevisionId
        expectedContentHash := body.contentHash
        note := body.note } = c := by
  simp only [Request.releasePage, bind_ok, pure_ok]

/-- The id of the command is the one of the actor and the key. -/
theorem command_commandId (built : request.command lib unicode store moment = .ok c) :
    request.commandId lib moment = .ok c.commandId := by
  unfold Request.command at built
  split at built
  · obtain ⟨_, _, id, _, _, rfl⟩ := createPage_ok.mp built
    exact id
  · obtain ⟨_, _, _, _, id, rfl⟩ := editImpl_ok.mp built
    exact id
  · obtain ⟨_, _, _, _, id, rfl⟩ := submitReview_ok.mp built
    exact id
  · obtain ⟨_, _, _, _, id, rfl⟩ := reportPage_ok.mp built
    exact id
  · obtain ⟨_, _, _, id, rfl⟩ := quarantinePage_ok.mp built
    exact id
  · obtain ⟨_, _, _, id, rfl⟩ := releasePage_ok.mp built
    exact id

/-- A key makes the id the same at any time. -/
theorem commandId_keyed (lib : Stdlib) (first again : Moment) {key : String}
    (keyed : request.idempotencyKey = some key) (given : key ≠ "") :
    request.commandId lib first = request.commandId lib again := by
  simp only [Request.commandId, keyed, commandIdOf, if_neg given]

/-- Commands with one intent text have the same intent. -/
theorem intent_member
    (same : JsonText.dumps (commandIntent d) = JsonText.dumps (commandIntent c))
    (field : String × String) (member : field ∈ commandIntent d) : field ∈ commandIntent c :=
  (JsonText.dumps_injective same).mem_iff.mp member

theorem rebuilt_iff (built : request.command lib unicode s first = .ok c)
    (sameId : request.commandId lib first = request.commandId lib again) (later : Later s t)
    (homedS : Homed s) (homedT : Homed t)
    (collisionFree : ∀ d, request.command lib unicode t again = .ok d →
      intentFingerprint lib d = intentFingerprint lib c →
      JsonText.dumps (commandIntent d) = JsonText.dumps (commandIntent c)) :
    (∃ d, request.command lib unicode t again = .ok d ∧
      intentFingerprint lib d = intentFingerprint lib c) ↔
        StillOpen unicode s t request.mutation := by
  cases endpoint : request.mutation with
  | createPage body =>
    simp only [Request.command, endpoint] at built ⊢
    obtain ⟨scope, id, derived, slug, normal, rfl⟩ := createPage_ok.mp built
    refine iff_of_true
      ⟨_, createPage_ok.mpr ⟨scope, id, sameId ▸ derived, slug, normal, rfl⟩, ?_⟩ trivial
    rfl
  | editPage slug body =>
    simp only [Request.command, endpoint] at built collisionFree ⊢
    obtain ⟨scope, old, found, id, derived, rfl⟩ := editImpl_ok.mp built
    have foundS := (pageOr404_ok.mp found).1
    obtain ⟨now, foundT, samePage⟩ := operatorPage_later later homedS homedT foundS
    constructor
    · rintro ⟨d, rebuilt, print⟩
      have text := collisionFree d rebuilt print
      obtain ⟨_, page, seen, _, _, rfl⟩ := editImpl_ok.mp rebuilt
      obtain ⟨there, visible⟩ := pageOr404_ok.mp seen
      have title := intent_member text ("title", body.title.getD page.title)
        (by simp [commandIntent])
      simp only [commandIntent, List.cons_append, List.nil_append, List.mem_cons, Prod.mk.injEq,
        String.reduceEq, false_and, true_and, false_or, List.not_mem_nil, or_false] at title
      exact ⟨old, page, foundS, there, visible, title⟩
    · rintro ⟨old', page, sameS, there, visible, title⟩
      cases Except.ok.inj (foundS.symm.trans sameS)
      cases Except.ok.inj (foundT.symm.trans there)
      refine ⟨_, editImpl_ok.mpr ⟨scope, now, pageOr404_ok.mpr ⟨there, visible⟩, id,
        sameId ▸ derived,
        rfl⟩, ?_⟩
      simp only [intentFingerprint, commandIntent, WikiCommand.pageId, samePage, title]
      rfl
  | submitReview slug body =>
    simp only [Request.command, endpoint] at built collisionFree ⊢
    obtain ⟨scope, old, found, id, derived, rfl⟩ := submitReview_ok.mp built
    have foundS := (pageOr404_ok.mp found).1
    obtain ⟨now, foundT, samePage⟩ := operatorPage_later later homedS homedT foundS
    constructor
    · rintro ⟨d, rebuilt, print⟩
      have text := collisionFree d rebuilt print
      obtain ⟨_, page, seen, _, _, rfl⟩ := submitReview_ok.mp rebuilt
      obtain ⟨there, visible⟩ := pageOr404_ok.mp seen
      have revision := intent_member text
        ("expected_revision_id", orElse body.revisionId page.headRevisionId)
        (by simp [commandIntent])
      have hash := intent_member text
        ("expected_content_hash", orElse body.contentHash page.contentHash)
        (by simp [commandIntent])
      simp only [commandIntent, List.cons_append, List.nil_append, List.mem_cons, Prod.mk.injEq,
        String.reduceEq, false_and, true_and, false_or, List.not_mem_nil, or_false] at revision hash
      exact ⟨old, page, foundS, there, visible, revision, hash⟩
    · rintro ⟨old', page, sameS, there, visible, revision, hash⟩
      cases Except.ok.inj (foundS.symm.trans sameS)
      cases Except.ok.inj (foundT.symm.trans there)
      refine ⟨_, submitReview_ok.mpr ⟨scope, now, pageOr404_ok.mpr ⟨there, visible⟩, id,
        sameId ▸ derived, rfl⟩, ?_⟩
      simp only [intentFingerprint, commandIntent, WikiCommand.pageId, samePage, revision, hash]
      rfl
  | reportPage slug body =>
    simp only [Request.command, endpoint] at built ⊢
    obtain ⟨scope, old, found, id, derived, rfl⟩ := reportPage_ok.mp built
    have foundS := (pageOr404_ok.mp found).1
    obtain ⟨now, foundT, samePage⟩ := operatorPage_later later homedS homedT foundS
    constructor
    · rintro ⟨d, rebuilt, _⟩
      obtain ⟨_, page, seen, _, _, rfl⟩ := reportPage_ok.mp rebuilt
      exact ⟨page, pageOr404_ok.mp seen⟩
    · rintro ⟨page, there, visible⟩
      cases Except.ok.inj (foundT.symm.trans there)
      refine ⟨_, reportPage_ok.mpr ⟨scope, now, pageOr404_ok.mpr ⟨there, visible⟩, id,
        sameId ▸ derived, rfl⟩, ?_⟩
      simp only [intentFingerprint, commandIntent, WikiCommand.pageId, samePage]
      rfl
  | quarantinePage slug body =>
    simp only [Request.command, endpoint] at built ⊢
    obtain ⟨old, found, id, derived, rfl⟩ := quarantinePage_ok.mp built
    obtain ⟨now, foundT, samePage⟩ := operatorPage_later later homedS homedT found
    refine iff_of_true
      ⟨_, quarantinePage_ok.mpr ⟨now, foundT, id, sameId ▸ derived, rfl⟩, ?_⟩ trivial
    simp only [intentFingerprint, commandIntent, WikiCommand.pageId, samePage]
    rfl
  | releasePage slug body =>
    simp only [Request.command, endpoint] at built ⊢
    obtain ⟨old, found, id, derived, rfl⟩ := releasePage_ok.mp built
    obtain ⟨now, foundT, samePage⟩ := operatorPage_later later homedS homedT found
    refine iff_of_true ⟨_, releasePage_ok.mpr ⟨now, foundT, id, sameId ▸ derived, rfl⟩, ?_⟩ trivial
    simp only [intentFingerprint, commandIntent, WikiCommand.pageId, samePage]
    rfl

end Build

/-- The store after some arrivals. -/
def stateAfter (lib : Stdlib) (unicode : Unicode) (arrivals : List (Request × Moment)) :
    InMemoryWikiStore :=
  (serve (handle lib unicode) {} arrivals).2

theorem stateAfter_later (lib : Stdlib) (unicode : Unicode)
    (before between : List (Request × Moment))
    (arrival : Request × Moment) :
    Later (handle lib unicode (stateAfter lib unicode before) arrival).2
      (stateAfter lib unicode (before ++ arrival :: between)) := by
  unfold stateAfter
  rw [serve_append]
  exact served_later _ between

/-- A retry is answered with the receipt exactly if it builds a command with the same fingerprint.
-/
theorem replayed_iff {s t : InMemoryWikiStore} {request : Request} {first again : Moment}
    {response : CommandResponse} {c : WikiCommand}
    (built : request.command lib unicode s first = .ok c)
    (accepted : (handle lib unicode s (request, first)).1 = .ok response)
    (sameId : request.commandId lib first = request.commandId lib again)
    (afterFirst : Later (handle lib unicode s (request, first)).2 t) :
    handle lib unicode t (request, again) = (.ok { response with replayed := true }, t) ↔
      ∃ d, request.command lib unicode t again = .ok d ∧
        intentFingerprint lib d = intentFingerprint lib c := by
  rcases handle_cases lib unicode s (request, first) with ⟨error, same⟩ | ⟨c', built', same⟩
  · rw [same] at accepted
    cases accepted
  · cases Except.ok.inj (built'.symm.trans built)
    rw [same] at accepted afterFirst
    cases answered : (s.execute lib c).1 with
    | error raised => rw [answered] at accepted; cases accepted
    | ok receipt =>
      rw [answered] at accepted
      cases accepted
      obtain ⟨prior, found, print, shown⟩ := execute_receipt answered
      have kept := afterFirst.receipts _ _ found
      have response : commandResponse { prior with replayed := true } =
          { commandResponse receipt with replayed := true } := by
        rw [shown]; rfl
      constructor
      · intro replayed
        rcases handle_cases lib unicode t (request, again) with ⟨error, failed⟩ | ⟨d, rebuilt, same⟩
        · rw [failed] at replayed
          cases replayed
        · have id : d.commandId = c.commandId := Except.ok.inj
            ((command_commandId rebuilt).symm.trans (sameId.symm.trans (command_commandId built)))
          refine ⟨d, rebuilt, ?_⟩
          rw [same, execute_again (id ▸ kept)] at replayed
          split at replayed
          · rename_i matching
            rw [← matching, print]
          · cases replayed
      · rintro ⟨d, rebuilt, matching⟩
        have id : d.commandId = c.commandId := Except.ok.inj
          ((command_commandId rebuilt).symm.trans (sameId.symm.trans (command_commandId built)))
        unfold handle
        rw [rebuilt]
        dsimp only
        rw [execute_again (id ▸ kept), if_pos (print.trans matching.symm)]
        simp only [Except.map, response]

theorem accepted_command {s : InMemoryWikiStore} {request : Request} {first : Moment}
    {response : CommandResponse}
    (accepted : (handle lib unicode s (request, first)).1 = .ok response) :
    ∃ c, request.command lib unicode s first = .ok c := by
  rcases handle_cases lib unicode s (request, first) with ⟨error, same⟩ | ⟨c, built, _⟩
  · rw [same] at accepted
    cases accepted
  · exact ⟨c, built⟩

/-- A retry of an accepted keyed mutation is answered with its receipt, and changes
nothing, exactly when it is still open. -/
theorem retry_replays_iff (before between : List (Request × Moment)) (request : Request)
    (first again : Moment) (key : String) (response : CommandResponse)
    (keyed : request.idempotencyKey = some key) (given : key ≠ "")
    (accepted : (handle lib unicode (stateAfter lib unicode before) (request, first)).1 =
      .ok response)
    (collisionFree : ∀ c d, request.command lib unicode (stateAfter lib unicode before)
      first = .ok c →
      request.command lib unicode
        (stateAfter lib unicode (before ++ (request, first) :: between)) again =
        .ok d →
      intentFingerprint lib d = intentFingerprint lib c →
      JsonText.dumps (commandIntent d) = JsonText.dumps (commandIntent c)) :
    handle lib unicode (stateAfter lib unicode (before ++ (request, first) :: between))
      (request, again) =
        (.ok { response with replayed := true },
          stateAfter lib unicode (before ++ (request, first) :: between)) ↔
      StillOpen unicode (stateAfter lib unicode before)
        (stateAfter lib unicode (before ++ (request, first) :: between)) request.mutation := by
  have homedS : Homed (stateAfter lib unicode before) := served_homed empty_homed before
  have homedT : Homed (stateAfter lib unicode (before ++ (request, first) :: between)) :=
    served_homed empty_homed _
  have afterFirst := stateAfter_later lib unicode before between (request, first)
  have later := (handle_later (request, first)).trans afterFirst
  have sameId := commandId_keyed lib first again keyed given
  obtain ⟨c, built⟩ := accepted_command accepted
  rw [replayed_iff built accepted sameId afterFirst]
  exact rebuilt_iff built sameId later homedS homedT fun d rebuilt =>
    collisionFree c d built rebuilt

end Boundary

/-- Every accepted mutation that was sent with a key is replayed by a retry, whatever
was accepted in between. -/
def RetriesReplay (lib : Stdlib) (unicode : Unicode) : Prop :=
  ∀ (before between : List (Request × Moment)) (request : Request) (first again : Moment)
    (key : String) (response : CommandResponse),
    request.idempotencyKey = some key → key ≠ "" →
    (handle lib unicode (stateAfter lib unicode before) (request, first)).1 = .ok response →
    handle lib unicode (stateAfter lib unicode (before ++ (request, first) :: between))
      (request, again) =
      (.ok { response with replayed := true },
        stateAfter lib unicode (before ++ (request, first) :: between))

section Sample

/-! An edit that leaves the title to the page, and a later edit that changes it. -/

def ascii : Unicode where
  nfkc := id
  casefold := fun text => String.ofList (text.toList.map Char.toLower)
  isSpace := Char.isWhitespace
  isAlnum := Char.isAlphanum

def retitled : EditPage := { sampleEdit with
  actorId := "ann"
  expectedRevisionId := "4a5ef745-6ed2-5a68-95a2-6b0e7275e883"
  title := "House"
  content := "hello all" }

def retryDigests : List (String × String) := [
    ("bob\x00key-1", "dc565f8774944775d81b4cc5c0c5cd43a642d99c5e7b1dc78c682e7dde9e0be7"),
    ("hello all", "1d076431c5767c0ea545afd57a77a361d1f881d34b256cf59a26ec213d2dbfb9"),
    (JsonText.dumps (commandIntent (.editPage retitled)),
      "ae40cae1adaa979c903ee7a66b7a8ff7a5c9dd2ac3d2b2ade71596b4c007d353"),
    (JsonText.dumps (commandIntent (.editPage { sampleEdit with title := "House" })),
      "1d7fc94e7ce3db635970e8e1059301d67805e5ddba23dd41c19204cfb46fe05a")]

def retryUuids : List (String × String) := [
    ("metahumotonic-wiki:idem:dc565f8774944775d81b4cc5c0c5cd43a642d99c5e7b1dc78c682e7dde9e0be7:revision",
      "4a5ef745-6ed2-5a68-95a2-6b0e7275e883"),
    ("metahumotonic-wiki:cmd:44444444-4444-4444-8444-444444444444:revision",
      "816763ca-e99d-597b-88cd-ccb3b15cee06")]

/-- The digests of the texts that these requests come with. -/
def retryLib : Stdlib where
  sha256 text := ((retryDigests ++ sampleDigests).lookup text).getD
    (String.ofList (List.replicate 64 '0'))
  uuid5 text := ((retryUuids ++ sampleUuids).lookup text).getD
    "00000000-0000-5000-8000-000000000000"

def createHome : Request × Moment :=
  ({ actorId := "ann"
     scopes := ["wiki:edit"]
     idempotencyKey := none
     mutation := .createPage { slug := "Home", title := "Home", content := "hello" } },
    ⟨1, "11111111-1111-4111-8111-111111111111"⟩)

def editHome : Request where
  actorId := "bob"
  scopes := ["wiki:edit"]
  idempotencyKey := some "key-1"
  mutation := .editPage "home" { expectedHeadRevisionId := sampleRevisionId, content :=
    "hello again" }

def retitleHome : Request × Moment :=
  ({ actorId := "ann"
     scopes := ["wiki:edit"]
     idempotencyKey := none
     mutation := .editPage "home" {
       expectedHeadRevisionId := "4a5ef745-6ed2-5a68-95a2-6b0e7275e883"
       title := some "House"
       content := "hello all" } },
    ⟨3, "44444444-4444-4444-8444-444444444444"⟩)

def editedHome : CommandResponse where
  commandId := "idem:dc565f8774944775d81b4cc5c0c5cd43a642d99c5e7b1dc78c682e7dde9e0be7"
  pageId := samplePageId
  streamVersion := 2
  eventIds := ["4a5ef745-6ed2-5a68-95a2-6b0e7275e883"]
  replayed := false

theorem editHome_accepted :
    (handle retryLib ascii (stateAfter retryLib ascii [createHome]) (editHome, ⟨2, ""⟩)).1 =
      .ok editedHome := by
  decide +kernel

/-- The command that the edit builds at a time, while the title is the first one. -/
def editHomeCommand (now : Instant) : WikiCommand :=
  .editPage { sampleEdit with
    commandId := editedHome.commandId
    occurredAt := now
    revisionId := "4a5ef745-6ed2-5a68-95a2-6b0e7275e883" }

theorem editHome_built :
    editHome.command retryLib ascii (stateAfter retryLib ascii [createHome]) ⟨2, ""⟩ =
      .ok (editHomeCommand 2) := by
  decide +kernel

/-- Texts that a table of distinct digests lists have the same digest only if they are the same. -/
theorem listed_injective {rows : List (String × String)} {default : String}
    (distinct : (rows.map Prod.snd).Nodup)
    {a b : String} (first : a ∈ rows.map Prod.fst) (second : b ∈ rows.map Prod.fst)
    (same : (rows.lookup a).getD default = (rows.lookup b).getD default) : a = b := by
  have found : ∀ {text}, text ∈ rows.map Prod.fst → ∃ digest, rows.lookup text = some digest := by
    intro text listed
    obtain ⟨row, member, rfl⟩ := List.mem_map.mp listed
    exact Option.isSome_iff_exists.mp (List.lookup_isSome_iff.mpr ⟨row, member, beq_self_eq_true _⟩)
  obtain ⟨x, foundA⟩ := found first
  obtain ⟨y, foundB⟩ := found second
  rw [foundA, foundB] at same
  have rowA := Table.mem_of_lookup foundA
  have rowB := Table.mem_of_lookup foundB
  exact congrArg Prod.fst (List.inj_on_of_nodup_map distinct rowA rowB same)

theorem retryDigests_distinct : ((retryDigests ++ sampleDigests).map Prod.snd).Nodup := by
  simp [retryDigests, sampleDigests]

/-- The retry of the first edit is refused, because the page has another title now. -/
theorem retries_may_conflict : ¬ RetriesReplay retryLib ascii := by
  intro replays
  have replayed := replays [createHome] [retitleHome] editHome ⟨2, ""⟩ ⟨4, ""⟩ "key-1"
    editedHome rfl
    (by decide) editHome_accepted
  have rebuilt : editHome.command retryLib ascii
      (stateAfter retryLib ascii ([createHome] ++ (editHome, ⟨2, ""⟩) :: [retitleHome])) ⟨4, ""⟩ =
      .ok (.editPage { sampleEdit with
        commandId := editedHome.commandId
        occurredAt := 4
        title := "House"
        revisionId := "4a5ef745-6ed2-5a68-95a2-6b0e7275e883" }) := by
    decide +kernel
  obtain ⟨d, built, print⟩ := (replayed_iff editHome_built editHome_accepted
    (commandId_keyed retryLib _ _ rfl (by decide)) (stateAfter_later _ _ _ _ _)).mp replayed
  cases Except.ok.inj (rebuilt.symm.trans built)
  have second : JsonText.dumps (commandIntent (.editPage { sampleEdit with title := "House" })) ∈
      (retryDigests ++ sampleDigests).map Prod.fst := List.mem_of_getElem? (i := 3) rfl
  have first : JsonText.dumps (commandIntent (.editPage sampleEdit)) ∈
      (retryDigests ++ sampleDigests).map Prod.fst := List.mem_of_getElem? (i := 8) rfl
  simp only [intentFingerprint, retryLib] at print
  have text := listed_injective retryDigests_distinct second first print
  have title := intent_member text ("title", "House") (by simp [commandIntent])
  exact absurd title (by decide)

theorem retry_replays_sample :
    handle retryLib ascii (stateAfter retryLib ascii ([createHome] ++ (editHome, ⟨2, ""⟩) :: []))
        (editHome, ⟨4, ""⟩) =
      (.ok { editedHome with replayed := true },
        stateAfter retryLib ascii ([createHome] ++ (editHome, ⟨2, ""⟩) :: [])) ↔
    StillOpen ascii (stateAfter retryLib ascii [createHome])
      (stateAfter retryLib ascii ([createHome] ++ (editHome, ⟨2, ""⟩) :: []))
        editHome.mutation := by
  refine retry_replays_iff [createHome] [] editHome ⟨2, ""⟩
    ⟨4, ""⟩ "key-1" editedHome rfl (by decide)
    editHome_accepted ?_
  intro c d first again _
  have builtAgain : editHome.command retryLib ascii
      (stateAfter retryLib ascii ([createHome] ++ (editHome, ⟨2, ""⟩) :: [])) ⟨4, ""⟩ =
      .ok (editHomeCommand 4) := by
    decide +kernel
  rw [editHome_built] at first
  rw [builtAgain] at again
  cases first
  cases again
  rfl

end Sample

end Metahumotonic.Wiki
