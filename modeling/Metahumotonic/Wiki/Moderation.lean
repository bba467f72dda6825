import Metahumotonic.Wiki.Reads

/-! Moderation of a page. Quarantines and releases take turns, none is made by the author of
the head, nobody works on a page in quarantine, and no read path shows it. -/
namespace Metahumotonic.Wiki

open Library

namespace EventData

/-- A quarantine or a release, by the status that it brings about. -/
def moderation : EventData → Option ModerationStatus
  | .pageQuarantined .. => some .quarantined
  | .pageReleased .. => some .visible
  | _ => none

/-- The event is a commit, a submission or a report. -/
def works : EventData → Bool
  | .revisionCommitted .. | .reviewSubmitted .. | .pageReported .. => true
  | _ => false

end EventData

/-- The actor of the last creation or commit. -/
def headAuthor (events : List WikiEvent) : Option String :=
  (events.filterMap fun event => event.data.revision.map fun _ => event.actorId).getLast?

def moderations (events : List WikiEvent) : List ModerationStatus := events.filterMap
    (·.data.moderation)

/-- The last moderation was a quarantine. -/
def InQuarantine (events : List WikiEvent) : Prop :=
  (moderations events).getLast? = some .quarantined

/-- The duties of authors and moderators are separate all along the events of a page. -/
structure Moderated (events : List WikiEvent) : Prop where
  others : ∀ before event after, events = before ++ event :: after →
    event.data.moderation.isSome = true →
    ∃ author, headAuthor before = some author ∧ event.actorId ≠ author
  alternate : ∀ i status, (moderations events)[i]? = some status →
    (status = .quarantined ↔ i % 2 = 0)
  shielded : ∀ before event after, events = before ++ event :: after → event.data.works = true →
    ¬ InQuarantine before

/-- A page and its moderation so far. -/
structure ModerationRecord (events : List WikiEvent) (state : Option PageState) :
    Prop extends Moderated events where
  author : headAuthor events = state.map (·.headActorId)
  status : InQuarantine events ↔ ∃ page, state = some page ∧ page.moderationStatus = .quarantined
  turn : InQuarantine events ↔ (moderations events).length % 2 = 1

theorem empty_moderation : ModerationRecord [] none where
  others before event after split := by simp at split
  alternate i status there := by simp [moderations] at there
  shielded before event after split := by simp at split
  author := rfl
  status := by simp [InQuarantine, moderations]
  turn := by simp [InQuarantine, moderations]

theorem headAuthor_snoc (events : List WikiEvent) (event : WikiEvent) :
    headAuthor (events ++ [event]) =
      if event.data.revision.isSome then some event.actorId else headAuthor events := by
  unfold headAuthor
  rw [List.filterMap_append]
  cases made : event.data.revision <;> simp [made]

theorem moderations_snoc (events : List WikiEvent) (event : WikiEvent) :
    moderations (events ++ [event]) = moderations events ++ event.data.moderation.toList := by
  unfold moderations
  rw [List.filterMap_append]
  cases made : event.data.moderation <;> simp [made]

namespace ModerationRecord

variable {events : List WikiEvent} {event : WikiEvent} {page : PageState}

/-- An event that is no moderation, on a page that is not in quarantine. -/
theorem work {state : Option PageState} (record : ModerationRecord events state)
    (plain : event.data.moderation = none)
    (visible : ∀ old, state = some old → old.moderationStatus ≠ .quarantined)
    (author : page.headActorId = if event.data.revision.isSome then event.actorId else
      (headAuthor events).getD event.actorId)
    (first : state = none → event.data.revision.isSome = true)
    (status : page.moderationStatus = .visible) :
      ModerationRecord (events ++ [event]) (some page) := by
  have free : ¬ InQuarantine events := by
    rw [record.status]
    rintro ⟨old, same, quarantined⟩
    exact visible old same quarantined
  have same : moderations (events ++ [event]) = moderations events := by
    rw [moderations_snoc, plain, Option.toList_none, List.append_nil]
  have still : InQuarantine (events ++ [event]) ↔ InQuarantine events := by
    rw [InQuarantine, same, InQuarantine]
  refine ⟨⟨?_, ?_, ?_⟩, ?_, ?_, ?_⟩
  · intro before other after split moderates
    rcases split_snoc split with ⟨_, rfl, _⟩ | ⟨rest, inner⟩
    · rw [plain] at moderates
      cases moderates
    · exact record.others before other rest inner moderates
  · rw [same]
    exact record.alternate
  · intro before other after split works
    rcases split_snoc split with ⟨rfl, _, _⟩ | ⟨rest, inner⟩
    · exact free
    · exact record.shielded before other rest inner works
  · rw [headAuthor_snoc, Option.map_some, author]
    split
    · rfl
    · rename_i made
      cases state with
      | none => exact absurd (first rfl) made
      | some old => rw [record.author]; rfl
  · rw [still]
    apply iff_of_false free
    rintro ⟨_, ⟨⟩, quarantined⟩
    rw [status] at quarantined
    cases quarantined
  · rw [still, same]
    exact record.turn

/-- A moderation by another than the author of the head, that changes the status. -/
theorem moderate {old : PageState} {status : ModerationStatus}
    (record : ModerationRecord events (some old))
    (made : event.data.moderation = some status) (other : event.actorId ≠ old.headActorId)
    (idle : event.data.works = false) (keeps : event.data.revision = none)
    (turns : status = .quarantined ↔ old.moderationStatus ≠ .quarantined)
    (author : page.headActorId = old.headActorId) (after : page.moderationStatus = status) :
    ModerationRecord (events ++ [event]) (some page) := by
  have same : moderations (events ++ [event]) = moderations events ++ [status] := by
    rw [moderations_snoc, made, Option.toList_some]
  have now : InQuarantine (events ++ [event]) ↔ status = .quarantined := by
    rw [InQuarantine, same, List.getLast?_append, List.getLast?_singleton, Option.some_or,
      Option.some.injEq]
  have before : InQuarantine events ↔ old.moderationStatus = .quarantined := by
    rw [record.status]
    constructor
    · rintro ⟨_, ⟨⟩, quarantined⟩
      exact quarantined
    · exact fun quarantined => ⟨old, rfl, quarantined⟩
  have even : status = .quarantined ↔ (moderations events).length % 2 = 0 := by
    rw [turns, ne_eq, ← before, record.turn]
    omega
  refine ⟨⟨?_, ?_, ?_⟩, ?_, ?_, ?_⟩
  · intro prior next later split moderates
    rcases split_snoc split with ⟨rfl, rfl, _⟩ | ⟨rest, inner⟩
    · exact ⟨old.headActorId, record.author, other⟩
    · exact record.others prior next rest inner moderates
  · intro i found there
    rw [same] at there
    by_cases inside : i < (moderations events).length
    · rw [List.getElem?_append_left inside] at there
      exact record.alternate i found there
    · rw [List.getElem?_append_right (by omega)] at there
      obtain ⟨at_, found_⟩ := List.getElem?_eq_some_iff.mp there
      have last : i = (moderations events).length := by
        rw [List.length_singleton] at at_
        omega
      rw [List.getElem_singleton] at found_
      rw [last, ← found_]
      exact even
  · intro prior next later split works
    rcases split_snoc split with ⟨_, rfl, _⟩ | ⟨rest, inner⟩
    · rw [idle] at works
      cases works
    · exact record.shielded prior next rest inner works
  · rw [headAuthor_snoc, keeps, record.author, Option.map_some, Option.map_some, author]
    rfl
  · rw [now, ← after]
    constructor
    · exact fun quarantined => ⟨page, rfl, quarantined⟩
    · rintro ⟨_, ⟨⟩, quarantined⟩
      exact quarantined
  · rw [now, same, even, List.length_append, List.length_singleton]
    omega

/-- One accepted command keeps the duties separate. -/
theorem step {lib : Stdlib} {state : Option PageState} {command : WikiCommand}
    {effects : List OutboxEffect}
    (record : ModerationRecord events state)
    (accepted : Accepted lib state command ⟨[event], effects⟩)
    (evolved : evolve state event = .ok page) :
    ModerationRecord (events ++ [event]) (some page) := by
  have known : ∀ old, state = some old → headAuthor events = some old.headActorId := by
    rintro old rfl
    exact record.author
  have remains : ∀ old : PageState, old.moderationStatus ≠ .quarantined →
      old.moderationStatus = .visible := by
    intro old free
    cases status : old.moderationStatus with
    | visible => rfl
    | quarantined => exact absurd status free
  cases accepted with
  | create c =>
    cases evolved
    exact record.work rfl (fun _ none_ => by cases none_) rfl (fun _ => rfl) rfl
  | edit old c scope visible head =>
    cases evolved
    exact record.work rfl (by rintro _ ⟨⟩; exact visible) rfl (fun none_ => by cases none_) rfl
  | submit old c scope visible head hash unreviewed =>
    cases evolved
    refine record.work rfl (by rintro _ ⟨⟩; exact visible) ?_ (fun none_ => by cases none_)
      (remains old visible)
    rw [known old rfl]
    rfl
  | report old c scope visible =>
    cases evolved
    refine record.work rfl (by rintro _ ⟨⟩; exact visible) ?_ (fun none_ => by cases none_)
      (remains old visible)
    rw [known old rfl]
    rfl
  | quarantine old c scope other head hash visible =>
    cases evolved
    exact record.moderate rfl other rfl rfl (iff_of_true rfl visible) rfl rfl
  | release old c scope other head hash quarantined =>
    cases evolved
    exact record.moderate rfl other rfl rfl (iff_of_false nofun fun free =>
      free quarantined) rfl rfl

end ModerationRecord

theorem Recorded.moderation {lib : Stdlib} {commandIds : Set String} {journal : Journal}
    (recorded : Recorded lib commandIds journal) {pageId : String} {state : Option PageState}
    (replayed : journal.page pageId = .ok state) :
    ModerationRecord ((journal.stream pageId).map (·.event)) state := by
  induction recorded generalizing pageId state with
  | empty => cases replayed; exact empty_moderation
  | @accept journal command new old page past derived known enters ih =>
    rw [enters.stream]
    by_cases here : pageId = command.pageId
    · subst here
      rw [enters.page_self] at replayed
      cases replayed
      rw [if_pos rfl, List.map_append]
      exact (ih enters.replayed).step enters.accepted enters.step.evolved
    · rw [enters.page_other here] at replayed
      rw [if_neg here]
      exact ih replayed

/-- What moderation promises of a store. -/
structure SeparateDuties (stream : String → List StoredEvent) (reads : Reads) : Prop where
  moderated : ∀ pageId, Moderated ((stream pageId).map (·.event))
  hidden : ∀ pageId, InQuarantine ((stream pageId).map (·.event)) → reads.Hides stream pageId

section Stores

variable {lib : Stdlib} {commandIds : Set String} {journal : Journal}

theorem Recorded.separate (recorded : Recorded lib commandIds journal)
    {pages : Table String PageState}
    {stream : String → List StoredEvent} {reads : Reads}
    (same : ∀ pageId, journal.page pageId = .ok (pages.get? pageId))
    (streams : ∀ pageId, stream pageId = journal.stream pageId)
    (hides : Sourced pages stream → ∀ pageId page, pages.get? pageId = some page →
      page.moderationStatus = .quarantined → reads.Hides stream pageId) :
        SeparateDuties stream reads := by
  have sourced : Sourced pages stream := by
    refine ⟨fun pageId page found => recorded.page_home (by rw [same, found]),
      fun pageId stored member => ?_⟩
    rw [streams] at member
    obtain ⟨entry, _, rfl, home⟩ := Journal.mem_stream.mp member
    exact home
  refine ⟨fun pageId => ?_, fun pageId quarantine => ?_⟩
  · rw [streams]
    exact (recorded.moderation (same pageId)).toModerated
  · rw [streams] at quarantine
    obtain ⟨page, found, quarantined⟩ := (recorded.moderation (same pageId)).status.mp quarantine
    exact hides sourced pageId page found quarantined

/-- The ids of the pages that a journal knows are canonical UUIDs. -/
theorem Recorded.page_canonical (recorded : Recorded lib commandIds journal)
    (documented : lib.Documented)
    {pageId : String} {page : PageState} (replayed : journal.page pageId = .ok (some page)) :
    uuid pageId = .ok pageId := by
  obtain ⟨entry, member, same, _⟩ := recorded.page_slug replayed
  obtain ⟨first, _, home, id⟩ := recorded.created member
  rw [← same, ← home, id]
  exact documented.uuid5 _

end Stores

/-- After any commands, in either store and for any way of matching queries, the duties
of authors and moderators are separate, and a page in quarantine is not shown. -/
theorem duties_separate (lib : Stdlib) (commands : List WikiCommand)
    (matching : String → PageState → Bool)
    (derived : ∀ command ∈ commands, RouterDerived lib command)
    (distinct : StableIdsDistinct lib {id | ∃ command ∈ commands, command.commandId = id}) :
    SeparateDuties (serve (InMemoryWikiStore.execute lib) {} commands).2.stream
      ((serve (InMemoryWikiStore.execute lib) {} commands).2.reads matching) ∧
    (lib.Documented →
      (∀ command ∈ commands, ∃ commandId, command.pageId = stableId lib commandId .page) →
      SeparateDuties (serve (Tables.execute lib) {} commands).2.stream
        ((serve (Tables.execute lib) {} commands).2.reads matching)) := by
  let commandIds : Set String := {id | ∃ command ∈ commands, command.commandId = id}
  have known : ∀ command ∈ commands, command.commandId ∈ commandIds :=
    fun command member => ⟨command, member, rfl⟩
  constructor
  · obtain ⟨_, recorded, represents⟩ := memory_refines distinct commands derived known
    exact recorded.separate represents.pages represents.events fun sourced _ _ found quarantined =>
      InMemoryWikiStore.hides matching sourced found quarantined
  · intro documented pages
    obtain ⟨journal, recorded, holds⟩ :=
      postgres_runs distinct documented commands derived known pages
    refine recorded.separate holds.pages (fun pageId => ?_) fun sourced pageId _ found
      quarantined => ?_
    · rw [Tables.stream, holds.events, Journal.stream]
    · refine Tables.hides matching sourced ?_ found quarantined
      exact recorded.page_canonical documented (by rw [holds.pages, found])

/-! A page that a moderator puts into quarantine, releases and puts into quarantine again. -/

def moderationOf (commandId : String) (occurredAt : Instant) (moderationId reason : String) :
    QuarantinePage where
  commandId
  actorId := "mia"
  scopes := ["wiki:moderate"]
  occurredAt
  pageId := samplePageId
  moderationId
  expectedRevisionId := sampleRevisionId
  expectedContentHash := "2cf24dba5fb0a30e26e83b2ac5b9e29e1b161e5c1fa7425e73043362938b9824"
  reason

def firstQuarantine : QuarantinePage :=
  moderationOf "cmd:22222222-2222-4222-8222-222222222222" 2
    "6805e233-fed6-5e04-ae23-bf25bea151a4" "spam"

def sampleRelease : ReleasePage where
  commandId := "cmd:33333333-3333-4333-8333-333333333333"
  actorId := "mia"
  scopes := ["wiki:moderate"]
  occurredAt := 3
  pageId := samplePageId
  moderationId := "5c05d2c8-4d5a-5e51-8575-b023dffd594e"
  expectedRevisionId := sampleRevisionId
  expectedContentHash := "2cf24dba5fb0a30e26e83b2ac5b9e29e1b161e5c1fa7425e73043362938b9824"
  note := "no spam"

def secondQuarantine : QuarantinePage :=
  moderationOf "cmd:44444444-4444-4444-8444-444444444444" 4 "2d63544c-8d7f-5957-8154-a07f8793a1f7"
    "spam again"

def moderatedCommands : List WikiCommand :=
  [.createPage sampleCreate, .quarantinePage firstQuarantine, .releasePage sampleRelease,
    .quarantinePage secondQuarantine]

def moderatedDigests : List (String × String) := [
    (JsonText.dumps (commandIntent (.quarantinePage firstQuarantine)),
      "1a60ece1101e56acece5e5f016f27a1f8279d3bc34c21aa93d4aaaab0d1c2a59"),
    (JsonText.dumps (commandIntent (.releasePage sampleRelease)),
      "a26c836a2636c719bb06ffae5aac1ee2cfc31c93fd41228202b1baa84fc7dbb3"),
    (JsonText.dumps (commandIntent (.quarantinePage secondQuarantine)),
      "0719b0d0e915fe4087dd524eb280df925cc62c2c27a2f6fcc8f247f817968484")]

def moderatedUuids : List (String × String) := [
    ("metahumotonic-wiki:cmd:44444444-4444-4444-8444-444444444444:page",
      "f1fd4fe8-1103-5a75-be5f-54b3001e3688"),
    ("metahumotonic-wiki:cmd:44444444-4444-4444-8444-444444444444:revision",
      "816763ca-e99d-597b-88cd-ccb3b15cee06"),
    ("metahumotonic-wiki:cmd:44444444-4444-4444-8444-444444444444:submission",
      "73885db3-8cb1-5430-ba4d-147e9307fe41"),
    ("metahumotonic-wiki:cmd:44444444-4444-4444-8444-444444444444:report",
      "7586aa70-4e2d-563d-be7c-de08e2741c58"),
    ("metahumotonic-wiki:cmd:44444444-4444-4444-8444-444444444444:moderation",
      "2d63544c-8d7f-5957-8154-a07f8793a1f7")]

/-- The digests of the texts that these commands come with. -/
def moderatedLib : Stdlib where
  sha256 text := ((moderatedDigests ++ sampleDigests).lookup text).getD
    (String.ofList (List.replicate 64 '0'))
  uuid5 text := ((moderatedUuids ++ sampleUuids).lookup text).getD
    "00000000-0000-5000-8000-000000000000"

theorem moderated_documented : moderatedLib.Documented where
  sha256 := by
    have listed : ∀ row ∈ moderatedDigests ++ sampleDigests,
        row.2.length = 64 ∧ row.2.toList.all (· ∈ hexDigits) := by
      intro row member
      rcases List.mem_append.mp member with here | there
      · simp only [moderatedDigests, List.mem_cons, List.not_mem_nil, or_false] at here
        rcases here with rfl | rfl | rfl <;> exact digest_literal rfl (by decide) (by decide)
      · exact sampleDigests_documented row there
    have zeros : (String.ofList (List.replicate 64 '0')).length = 64 ∧
        (String.ofList (List.replicate 64 '0')).toList.all (· ∈ hexDigits) :=
      digest_literal rfl (by decide) (by decide)
    intro text
    have hit := forall_lookup (P := fun digest => digest.length = 64 ∧
      digest.toList.all (· ∈ hexDigits))
      listed zeros text
    have same : moderatedLib.sha256 text = ((moderatedDigests ++ sampleDigests).lookup text).getD
        (String.ofList (List.replicate 64 '0')) := by
      rw [moderatedLib]
    rw [← same] at hit
    exact ⟨hit.1, fun c member => of_decide_eq_true (List.all_eq_true.mp hit.2 c member)⟩
  uuid5 := by
    have listed : ∀ row ∈ moderatedUuids ++ sampleUuids, uuid row.2 = .ok row.2 := by
      intro row member
      rcases List.mem_append.mp member with here | there
      · simp only [moderatedUuids, List.mem_cons, List.not_mem_nil, or_false] at here
        rcases here with rfl | rfl | rfl | rfl | rfl <;>
          exact uuid_literal rfl (by decide) (by decide) (by decide) (by decide)
      · exact sampleUuids_documented row there
    exact forall_lookup (P := fun id => uuid id = .ok id) listed
      (uuid_literal rfl (by decide) (by decide) (by decide) (by decide))

theorem moderated_derived : ∀ command ∈ moderatedCommands, RouterDerived moderatedLib command := by
  intro command member
  simp only [moderatedCommands, List.mem_cons, List.not_mem_nil, or_false] at member
  rcases member with rfl | rfl | rfl | rfl
  · refine ⟨?_, by decide⟩
    rintro c ⟨⟩
    decide
  · exact ⟨nofun, by decide⟩
  · exact ⟨nofun, by decide⟩
  · exact ⟨nofun, by decide⟩

theorem moderated_distinct :
    StableIdsDistinct moderatedLib {id | ∃ command ∈ moderatedCommands,
      command.commandId = id} := by
  have all : ∀ c ∈ moderatedCommands, ∀ d ∈ moderatedCommands, ∀ p ∈ purposes, ∀ q ∈ purposes,
      stableId moderatedLib c.commandId p = stableId moderatedLib d.commandId q →
        c.commandId = d.commandId ∧ p = q := by decide
  rintro _ ⟨c, hc, rfl⟩ _ ⟨d, hd, rfl⟩ p q same
  exact all c hc d hd p (mem_purposes p) q (mem_purposes q) same

theorem duties_separate_moderated :
    let memory := (serve (InMemoryWikiStore.execute moderatedLib) {} moderatedCommands).2
    let postgres := (serve (Tables.execute moderatedLib) {} moderatedCommands).2
    moderations ((memory.stream samplePageId).map (·.event)) =
      [.quarantined, .visible, .quarantined] ∧
    SeparateDuties memory.stream (memory.reads fun _ _ => true) ∧
    SeparateDuties postgres.stream (postgres.reads fun _ _ => true) := by
  obtain ⟨memory, postgres⟩ := duties_separate moderatedLib moderatedCommands (fun _ _ => true)
    moderated_derived moderated_distinct
  refine ⟨by decide +kernel, memory,
    postgres moderated_documented fun command member => ⟨sampleCreate.commandId, ?_⟩⟩
  revert command
  decide

end Metahumotonic.Wiki
