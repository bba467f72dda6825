import Mathlib.Data.List.MinMax
import Metahumotonic.Wiki.Agreement

/-! The migration `002_reactive_moderation.sql`, which adds two columns to the pages of the release
before it and fills them from the events. -/
namespace Metahumotonic.Wiki

open Library

/-- A row of `wiki_pages` before the migration. -/
structure LegacyPage where
  pageId : String
  slug : String
  title : String
  content : String
  headRevisionId : String
  contentHash : String
  streamVersion : Nat
  reviewStatus : ReviewStatus
  createdAt : Instant
  updatedAt : Instant
  authority : Authority

structure LegacyTables where
  pages : Table String LegacyPage
  events : List StoredEvent
  receipts : Table String ReceiptRow
  outbox : Table String OutboxRecord

/-- `event_type IN ('page_created', 'revision_committed')`. -/
def EventData.heads : EventData → Bool
  | .pageCreated .. | .revisionCommitted .. => true
  | _ => false

/-- Who wrote the last of these events of a page (`DISTINCT ON (page_id) … ORDER BY page_id,
event_index DESC`). -/
def headActorId (events : List StoredEvent) (pageId : String) : Option String :=
  ((events.filter fun row => row.event.pageId = pageId ∧ row.event.data.heads).argmax (·.index)).map
    (·.event.actorId)

/-- The row with its two new columns; the second one gets its default. -/
def LegacyPage.altered (page : LegacyPage) (headActorId : String) : PageState where
  pageId := page.pageId
  slug := page.slug
  title := page.title
  content := page.content
  headRevisionId := page.headRevisionId
  contentHash := page.contentHash
  headActorId := headActorId
  streamVersion := page.streamVersion
  reviewStatus := page.reviewStatus
  moderationStatus := .visible
  createdAt := page.createdAt
  updatedAt := page.updatedAt
  authority := page.authority

/-- The script; it fails where `SET NOT NULL` meets a page that no event has filled. -/
def reactiveModeration (old : LegacyTables) : Option Tables :=
  if ∀ page ∈ old.pages.values, (headActorId old.events page.pageId).isSome then
    some {
      pages := ⟨old.pages.entries.map fun row =>
        (row.1, row.2.altered ((headActorId old.events row.2.pageId).getD "")), by
        rw [List.map_map]; exact old.pages.nodup⟩
      events := old.events
      receipts := old.receipts
      outbox := old.outbox }
  else none

/-- The row without the two columns. -/
def PageState.legacy (page : PageState) : LegacyPage where
  pageId := page.pageId
  slug := page.slug
  title := page.title
  content := page.content
  headRevisionId := page.headRevisionId
  contentHash := page.contentHash
  streamVersion := page.streamVersion
  reviewStatus := page.reviewStatus
  createdAt := page.createdAt
  updatedAt := page.updatedAt
  authority := page.authority

def Tables.legacy (tables : Tables) : LegacyTables where
  pages := ⟨tables.pages.entries.map fun row => (row.1, row.2.legacy), by
    rw [List.map_map]; exact tables.pages.nodup⟩
  events := tables.events
  receipts := tables.receipts
  outbox := tables.outbox

/-- The release before the migration had no such commands. -/
def WikiCommand.moderates : WikiCommand → Bool
  | .quarantinePage _ | .releasePage _ => true
  | _ => false

def EventData.moderates : EventData → Bool
  | .pageQuarantined .. | .pageReleased .. => true
  | _ => false

section Heads

variable {lib : Stdlib} {commandIds : Set String} {journal : Journal} {command : WikiCommand}
    {entry : Entry}
  {state : Option PageState} {page : PageState}

/-- What the migration reads of a page and its events. -/
def Unmoderated (journal : Journal) (pageId : String) (page : PageState) : Prop :=
  headActorId (journal.map Entry.stored) pageId = some page.headActorId ∧
    page.moderationStatus = .visible

theorem headActorId_stream (journal : Journal) (pageId : String) :
    headActorId (journal.map Entry.stored) pageId =
    (((journal.stream pageId).filter fun row => row.event.data.heads).argmax (·.index)).map
    (·.event.actorId) := by
  rw [headActorId, Journal.stream, List.filter_filter]
  refine congrArg (fun rows : List StoredEvent => (rows.argmax (·.index)).map (·.event.actorId))
    (List.filter_congr fun row _ => ?_)
  simp only [Bool.decide_and, Bool.decide_eq_true, Bool.and_comm]

/-- An event at the end of its stream is the last of its page, if it is one that counts. -/
theorem Enters.headActorId (enters : Enters lib journal command entry state page)
    (recorded : Recorded lib commandIds journal) :
    Wiki.headActorId ((journal ++ [entry]).map Entry.stored) command.pageId =
      if entry.event.data.heads then some entry.event.actorId
      else Wiki.headActorId (journal.map Entry.stored) command.pageId := by
  rw [headActorId_stream, headActorId_stream, enters.stream, if_pos rfl, List.filter_append]
  have stored : entry.stored.event = entry.event := rfl
  by_cases counts : entry.event.data.heads = true
  · rw [if_pos counts, List.filter_cons, stored, if_pos counts, List.filter_nil, List.argmax_concat]
    cases latest : ((journal.stream command.pageId).filter fun row => row.event.data.heads).argmax
      (·.index) with
    | none => rfl
    | some old =>
      have member := (List.mem_filter.mp (List.argmax_mem latest)).1
      have before : old.index < entry.stored.index := by
        rw [enters.index]
        exact Nat.lt_succ_of_le (recorded.stream_index_le member)
      dsimp only
      rw [if_pos before]
      rfl
  · rw [if_neg counts, List.filter_cons, stored, if_neg counts, List.filter_nil, List.append_nil]

/-- An event that is no moderation sets the head actor of a visible page, or keeps both columns. -/
theorem evolve_columns {event : WikiEvent} (evolved : evolve state event = .ok page)
    (plain : event.data.moderates = false) :
    if event.data.heads then page.headActorId = event.actorId ∧ page.moderationStatus = .visible
    else ∃ old, state = some old ∧ page.headActorId = old.headActorId ∧
      page.moderationStatus = old.moderationStatus := by
  obtain ⟨eventId, commandId, pageId, occurredAt, actorId, schemaVersion, data⟩ := event
  cases state with
  | none =>
    cases data with
    | pageCreated =>
      cases evolved
      exact ⟨rfl, rfl⟩
    | _ => cases evolved
  | some old =>
    cases data with
    | pageCreated => cases evolved
    | revisionCommitted =>
      cases evolved
      exact ⟨rfl, rfl⟩
    | reviewSubmitted | pageReported =>
      cases evolved
      exact ⟨old, rfl, rfl, rfl⟩
    | pageQuarantined | pageReleased => cases plain

theorem Enters.unmoderated (enters : Enters lib journal command entry state page)
    (recorded : Recorded lib commandIds journal) (plain : entry.event.data.moderates = false)
    (before : ∀ old, state = some old → Unmoderated journal command.pageId old) :
    Unmoderated (journal ++ [entry]) command.pageId page := by
  have columns := evolve_columns enters.step.evolved plain
  rw [Unmoderated, enters.headActorId recorded]
  split_ifs at columns ⊢ with counts
  · exact ⟨congrArg some columns.1.symm, columns.2⟩
  · obtain ⟨old, rfl, actor, visible⟩ := columns
    rw [actor, visible]
    exact before old rfl

theorem Accepted.moderates {decision : Decision} (accepted : Accepted lib state command decision) :
    ∀ event ∈ decision.events, event.data.moderates = command.moderates := by
  intro event member
  cases accepted <;> obtain rfl := List.mem_singleton.mp member <;> rfl

/-- A journal without moderation, and what the migration reads of it. -/
structure Legacy (lib : Stdlib) (commandIds : Set String) (journal : Journal) : Prop where
  recorded : Recorded lib commandIds journal
  pages : ∀ pageId page, journal.page pageId = .ok (some page) → Unmoderated journal pageId page

theorem Legacy.accept (legacy : Legacy lib commandIds journal) (derived : RouterDerived lib command)
    (known : command.commandId ∈ commandIds) (plain : command.moderates = false)
    (enters : Enters lib journal command entry state page) :
    Legacy lib commandIds (journal ++ [entry]) where
  recorded := .accept legacy.recorded derived known enters
  pages pageId other replayed := by
    by_cases here : pageId = command.pageId
    · subst here
      rw [enters.page_self] at replayed
      cases replayed
      refine enters.unmoderated legacy.recorded ?_ ?_
      · exact (enters.accepted.moderates _ List.mem_cons_self).trans plain
      · rintro old rfl
        exact legacy.pages _ old enters.replayed
    · rw [enters.page_other here] at replayed
      have stream : Wiki.headActorId ((journal ++ [entry]).map Entry.stored) pageId =
          Wiki.headActorId (journal.map Entry.stored) pageId := by
        rw [headActorId_stream, headActorId_stream, enters.stream, if_neg here]
      rw [Unmoderated, stream]
      exact legacy.pages pageId other replayed

theorem PageState.altered_legacy (page : PageState) (visible : page.moderationStatus = .visible) :
    page.legacy.altered page.headActorId = page := by
  rw [LegacyPage.altered, PageState.legacy, ← visible]

/-- The migration gives every page back. -/
theorem Legacy.reactiveModeration (legacy : Legacy lib commandIds journal) {tables : Tables}
    (holds : Holds journal tables) : Wiki.reactiveModeration tables.legacy = some tables := by
  have columns : ∀ row ∈ tables.pages.entries, Wiki.headActorId tables.events row.2.pageId =
      some row.2.headActorId ∧
      row.2.moderationStatus = .visible := by
    intro row member
    have found := (Table.mem_entries tables.pages row.1 row.2).mp member
    have replayed : journal.page row.1 = .ok (some row.2) := found ▸ holds.pages row.1
    rw [holds.events, legacy.recorded.page_home replayed]
    exact legacy.pages row.1 row.2 replayed
  have filled : ∀ page ∈ tables.legacy.pages.values,
      (Wiki.headActorId tables.legacy.events page.pageId).isSome := by
    simp only [Tables.legacy, Table.values, List.map_map, List.forall_mem_map]
    intro row member
    exact Option.isSome_of_eq_some (columns row member).1
  have rows : tables.legacy.pages.entries.map (fun row =>
      (row.1, row.2.altered
        ((Wiki.headActorId tables.legacy.events row.2.pageId).getD ""))) =
          tables.pages.entries := by
    simp only [Tables.legacy, List.map_map]
    refine (List.map_congr_left fun row member => ?_).trans (List.map_id _)
    obtain ⟨actor, visible⟩ := columns row member
    have same : Wiki.headActorId tables.events row.2.legacy.pageId = some row.2.headActorId := actor
    rw [Function.comp_apply, same, Option.getD_some, row.2.altered_legacy visible]
    rfl
  rw [Wiki.reactiveModeration, if_pos filled]
  simp only [rows]
  rfl

end Heads

/-- Whatever the release before the migration has recorded, the migration makes of it what the
release after it would have recorded itself. -/
theorem moderation_upgrade (lib : Stdlib) (documented : lib.Documented)
    (commands : List WikiCommand)
    (derived : ∀ command ∈ commands, RouterDerived lib command)
    (distinct : StableIdsDistinct lib {id | ∃ command ∈ commands, command.commandId = id})
    (pages : ∀ command ∈ commands, ∃ commandId, command.pageId = stableId lib commandId .page)
    (plain : ∀ command ∈ commands, command.moderates = false) :
    reactiveModeration (serve (Tables.execute lib) {} commands).2.legacy =
      some (serve (Tables.execute lib) {} commands).2 := by
  let commandIds : Set String := {id | ∃ command ∈ commands, command.commandId = id}
  have reached : ∃ journal, Legacy lib commandIds journal ∧
      Holds journal (serve (Tables.execute lib) {} commands).2 := by
    refine serve_invariant (Tables.execute lib) (· ∈ commands)
      (fun tables => ∃ journal, Legacy lib commandIds journal ∧ Holds journal tables) ?_ commands
      (fun _ member => member) _
      ⟨[], ⟨.empty, fun pageId page none_ => nomatch none_⟩, empty_holds⟩
    rintro tables command member ⟨journal, legacy, holds⟩
    have pageUuid : uuid command.pageId = .ok command.pageId := by
      obtain ⟨creator, same⟩ := pages command member
      exact same ▸ documented.uuid5 _
    obtain ⟨next, response, _, after⟩ := postgres_response legacy.recorded distinct documented
      (derived command member)
      ⟨command, member, rfl⟩ pageUuid holds
    refine ⟨next, ?_, after⟩
    generalize (tables.execute lib command).1 = answer at response
    cases response with
    | refused _ => exact legacy
    | replayed _ _ _ => exact legacy
    | recorded entry state page enters =>
      exact legacy.accept (derived command member) ⟨command, member, rfl⟩
        (plain command member) enters
  obtain ⟨journal, legacy, holds⟩ := reached
  exact legacy.reactiveModeration holds

theorem moderation_upgrade_sample :
    reactiveModeration (serve (Tables.execute sampleLib) {} sampleCommands).2.legacy =
      some (serve (Tables.execute sampleLib) {} sampleCommands).2 :=
  moderation_upgrade sampleLib sample_documented sampleCommands sample_derived sample_distinct
    (fun command member => (sample_storable command member).page) (by decide)

end Metahumotonic.Wiki
