import Metahumotonic.Wiki.Consistency
import Metahumotonic.Wiki.PostgresRefinement

/-! The two stores agree: both are the journal, and a command whose texts the
columns take is never stopped by a constraint. -/
namespace Metahumotonic.Wiki

open Library

def WikiCommand.document : WikiCommand → Option (String × String)
  | .createPage c => some (c.title, c.content)
  | .editPage c => some (c.title, c.content)
  | _ => none

/-- Texts without NUL characters, in the sizes of the columns, on a derived page. -/
structure Storable (lib : Stdlib) (command : WikiCommand) : Prop where
  page : ∃ commandId, command.pageId = stableId lib commandId .page
  commandId : NulFree command.commandId
  texts : ∀ field ∈ commandIntent command, NulFree field.2
  sized : ∀ title content, command.document = some (title, content) →
    (1 ≤ content.length ∧ content.length ≤ 100000) ∧ (1 ≤ title.length ∧ title.length ≤ 200)

theorem Storable.field {lib : Stdlib} {command : WikiCommand} (storable : Storable lib command)
    (name : String) {value : String} (member : (name, value) ∈ commandIntent command) :
    NulFree value :=
  storable.texts _ member

theorem Stdlib.Documented.id_nulFree {lib : Stdlib} (documented : lib.Documented)
    (commandId : String)
    (purpose : Purpose) : NulFree (stableId lib commandId purpose) :=
  uuid_nulFree (documented.uuid5 _)

theorem Stdlib.Documented.digest_nulFree {lib : Stdlib} (documented : lib.Documented)
    (text : String) :
    NulFree (lib.sha256 text) :=
  hexDigits_nulFree (documented.sha256 text).2

theorem nulFree_append {a b : String} (left : NulFree a) (right : NulFree b) :
    NulFree (a ++ b) := by
  simp only [NulFree, String.toList_append, List.mem_append, not_or]
  exact ⟨left, right⟩

/-- A row that the columns take. -/
def Stored (page : PageState) : Prop :=
  (∀ value ∈ page.slug :: page.columns, NulFree value) ∧ page.Sized

section Fits

variable {lib : Stdlib} {commandIds : Set String} {journal : Journal} {command : WikiCommand}
  {entry : Entry} {state : Option PageState} {page : PageState}

/-- What a stored page lends to the events on it. -/
theorem Stored.lends {old : PageState} (stored : Stored old) (documented : lib.Documented)
    (recorded : Recorded lib commandIds journal) {pageId : String}
    (replayed : journal.page pageId = .ok (some old)) :
    NulFree old.slug ∧ NulFree old.headRevisionId ∧ NulFree old.contentHash := by
  obtain ⟨hash, commandId, head⟩ := recorded.page_digest replayed
  refine ⟨stored.1 _ List.mem_cons_self, ?_, ?_⟩
  · rw [head]
    exact documented.id_nulFree _ _
  · rw [hash]
    exact documented.digest_nulFree _

/-- What an accepted command writes fits, whatever was written before. -/
theorem Storable.fits (storable : Storable lib command) (documented : lib.Documented)
    (recorded : Recorded lib commandIds journal) (derived : RouterDerived lib command)
    (pages : ∀ pageId page, journal.page pageId = .ok (some page) → Stored page)
    (enters : Enters lib journal command entry state page) : Fits entry page ∧ Stored page := by
  have id : NulFree command.eventId := derived.event ▸ documented.id_nulFree _ _
  have commandId := storable.commandId
  have actor : NulFree command.actorId :=
    storable.field "actor_id" (by cases command <;> simp [commandIntent])
  have evolved := enters.step.evolved
  have accepted := enters.accepted
  have replayed := enters.replayed
  have pageId : NulFree command.pageId := by
    obtain ⟨creator, same⟩ := storable.page
    exact same ▸ documented.id_nulFree _ _
  have review : NulFree "review:" := by unfold NulFree; decide
  have report : NulFree "report:" := by unfold NulFree; decide
  obtain ⟨fingerprint, ⟨index, event⟩, effects⟩ := entry
  simp only [Entry.event] at accepted evolved
  cases accepted with
  | create c =>
    have slug : NulFree c.slug := storable.field "slug" (by simp [commandIntent])
    have title : NulFree c.title := storable.field "title" (by simp [commandIntent])
    have content : NulFree c.content := storable.field "content" (by simp [commandIntent])
    have summary : NulFree c.summary := storable.field "summary" (by simp [commandIntent])
    have hash : NulFree (contentDigest lib c.content) := documented.digest_nulFree _
    have sized := storable.sized _ _ rfl
    cases evolved
    have columns : ∀ value ∈ [c.slug, c.title, c.content, contentDigest lib c.content, c.actorId],
        NulFree value := by
      simp only [List.forall_mem_cons]
      exact ⟨slug, title, content, hash, actor, List.forall_mem_nil _⟩
    refine ⟨⟨?_, columns, sized, List.forall_mem_nil _⟩, columns, sized⟩
    simp only [WikiEvent.texts, EventData.texts, CreatePage.event, CommandBase.envelope,
      Entry.event,
      List.forall_mem_cons]
    exact ⟨id, commandId, actor, slug, title, content, hash, id, summary, summary,
      List.forall_mem_nil _⟩
  | edit old c =>
    have title : NulFree c.title := storable.field "title" (by simp [commandIntent])
    have content : NulFree c.content := storable.field "content" (by simp [commandIntent])
    have summary : NulFree c.summary := storable.field "summary" (by simp [commandIntent])
    have hash : NulFree (contentDigest lib c.content) := documented.digest_nulFree _
    have sized := storable.sized _ _ rfl
    obtain ⟨slug, head, _⟩ := (pages _ _ replayed).lends documented recorded replayed
    cases evolved
    have columns : ∀ value ∈ [old.slug, c.title, c.content, contentDigest lib c.content, c.actorId],
        NulFree value := by
      simp only [List.forall_mem_cons]
      exact ⟨slug, title, content, hash, actor, List.forall_mem_nil _⟩
    refine ⟨⟨?_, columns, sized, List.forall_mem_nil _⟩, columns, sized⟩
    simp only [WikiEvent.texts, EventData.texts, EditPage.event, CommandBase.envelope, Entry.event,
      List.forall_mem_cons]
    exact ⟨id, commandId, actor, id, head, slug, title, content, hash, summary, summary,
      List.forall_mem_nil _⟩
  | submit old c =>
    have note : NulFree c.note := storable.field "note" (by simp [commandIntent])
    have stored := pages _ _ replayed
    obtain ⟨slug, head, _⟩ := stored.lends documented recorded replayed
    have home : NulFree old.pageId := recorded.page_home replayed ▸ pageId
    cases evolved
    refine ⟨⟨?_, stored.1, stored.2, ?_⟩, stored⟩
    · simp only [WikiEvent.texts, EventData.texts, SubmitReview.event, CommandBase.envelope,
        Entry.event,
        List.forall_mem_cons]
      exact ⟨id, commandId, actor, id, head, note, List.forall_mem_nil _⟩
    · simp only [OutboxEffect.texts, EffectPayload.texts, SubmitReview.effect, SubmitReview.event,
        CommandBase.envelope, List.forall_mem_cons]
      exact ⟨⟨nulFree_append review id, id, id, home, slug, head, actor, note,
        List.forall_mem_nil _⟩,
        List.forall_mem_nil _⟩
  | report old c =>
    have reason : NulFree c.reason := storable.field "reason" (by simp [commandIntent])
    have stored := pages _ _ replayed
    obtain ⟨slug, head, hash⟩ := stored.lends documented recorded replayed
    have home : NulFree old.pageId := recorded.page_home replayed ▸ pageId
    cases evolved
    refine ⟨⟨?_, stored.1, stored.2, ?_⟩, stored⟩
    · simp only [WikiEvent.texts, EventData.texts, ReportPage.event, CommandBase.envelope,
        Entry.event,
        List.forall_mem_cons]
      exact ⟨id, commandId, actor, id, head, hash, reason, List.forall_mem_nil _⟩
    · simp only [OutboxEffect.texts, EffectPayload.texts, ReportPage.effect, ReportPage.event,
        CommandBase.envelope, List.forall_mem_cons]
      exact ⟨⟨nulFree_append report id, id, id, home, slug, head, hash, actor, reason,
        List.forall_mem_nil _⟩, List.forall_mem_nil _⟩
  | quarantine old c =>
    have reason : NulFree c.reason := storable.field "reason" (by simp [commandIntent])
    have stored := pages _ _ replayed
    obtain ⟨_, head, hash⟩ := stored.lends documented recorded replayed
    cases evolved
    refine ⟨⟨?_, stored.1, stored.2, List.forall_mem_nil _⟩, stored⟩
    simp only [WikiEvent.texts, EventData.texts, QuarantinePage.event, CommandBase.envelope,
      Entry.event, List.forall_mem_cons]
    exact ⟨id, commandId, actor, id, head, hash, reason, List.forall_mem_nil _⟩
  | release old c =>
    have note : NulFree c.note := storable.field "note" (by simp [commandIntent])
    have stored := pages _ _ replayed
    obtain ⟨_, head, hash⟩ := stored.lends documented recorded replayed
    cases evolved
    refine ⟨⟨?_, stored.1, stored.2, List.forall_mem_nil _⟩, stored⟩
    simp only [WikiEvent.texts, EventData.texts, ReleasePage.event, CommandBase.envelope,
      Entry.event,
      List.forall_mem_cons]
    exact ⟨id, commandId, actor, id, head, hash, note, List.forall_mem_nil _⟩

end Fits

/-- The journal refuses with a domain error only; no stream conflict is among them. -/
theorem Recorded.refusal {lib : Stdlib} {commandIds : Set String} {journal : Journal}
    (recorded : Recorded lib commandIds journal) (command : WikiCommand) {raised : Raised}
    (refused : (journal.execute lib command).1 = .error raised) :
    ∃ error, raised = .wikiError error ∧
      error.code ∈ "idempotency_conflict" :: "slug_taken" :: refusalCodes := by
  unfold Journal.execute at refused
  dsimp only at refused
  split at refused
  · split at refused <;> cases refused
    exact ⟨_, rfl, by decide⟩
  · split at refused
    · rename_i error failed
      cases refused
      refine ⟨error, rfl, ?_⟩
      have page : ∀ pageId, journal.page pageId ≠ .error error := by
        intro pageId failed
        obtain ⟨state, record⟩ := recorded.pageRecord pageId
        rw [record.replayed] at failed
        cases failed
      cases command with
      | createPage c =>
        simp only [Journal.current] at failed
        split at failed
        · cases failed
          decide
        · exact absurd failed (page _)
      | _ => exact absurd failed (page _)
    · split at refused
      · rename_i error failed
        cases refused
        exact ⟨error, rfl, List.mem_cons_of_mem _ (List.mem_cons_of_mem _
          (decide_code lib _ command error failed))⟩
      · rename_i decision decided
        obtain ⟨event, _, events, _⟩ := (decide_ok decided).step
        rw [events] at refused
        cases refused

/-- The same pages, slugs, events, receipts and outbox records. -/
structure Related (store : InMemoryWikiStore) (tables : Tables) : Prop where
  pages : ∀ pageId, tables.pages.get? pageId = store.pages.get? pageId
  slugs : ∀ slug pageId, store.slugToId.get? slug = some pageId ↔
    ∃ page, tables.pages.get? pageId = some page ∧ page.slug = slug
  events : ∀ pageId, tables.stream pageId = store.stream pageId
  indices : ∀ pageId,
    (tables.stream pageId).map (·.index) = List.range' 1 (tables.stream pageId).length
  receipts : ∀ commandId,
    (tables.receipts.get? commandId).map ReceiptRow.receipt = store.receipts.get? commandId
  outbox : ∀ effectId, tables.outbox.get? effectId = store.outbox.get? effectId

theorem Represents.related {lib : Stdlib} {commandIds : Set String} {journal : Journal}
    {store : InMemoryWikiStore} {tables : Tables} (represents : Represents journal store)
    (holds : Holds journal tables) (recorded : Recorded lib commandIds journal)
    (distinct : StableIdsDistinct lib commandIds) : Related store tables := by
  have pages : ∀ pageId, tables.pages.get? pageId = store.pages.get? pageId := fun pageId =>
    Except.ok.inj ((holds.pages pageId).symm.trans (represents.pages pageId))
  have stream : ∀ pageId, tables.stream pageId = journal.stream pageId := fun pageId => by
    rw [Tables.stream, holds.events, Journal.stream]
  refine ⟨pages, ?_, ?_, ?_, ?_, ?_⟩
  · intro slug pageId
    rw [pages]
    constructor
    · exact represents.page_of_slug recorded distinct
    · rintro ⟨page, found, rfl⟩
      exact represents.slug_of_page recorded found
  · exact fun pageId => (stream pageId).trans (represents.events pageId).symm
  · intro pageId
    rw [stream]
    exact recorded.stream_index pageId
  · intro commandId
    rw [holds.receipts, represents.receipts, Option.map_map]
    rfl
  · intro effectId
    apply Option.ext
    intro record
    exact (holds.outbox effectId record).trans (represents.outbox effectId record).symm

theorem Enters.stored {lib : Stdlib} {journal : Journal} {command : WikiCommand} {entry : Entry}
    {state : Option PageState} {page : PageState}
    (enters : Enters lib journal command entry state page) (stored : Stored page)
    (pages : ∀ pageId page, journal.page pageId = .ok (some page) → Stored page)
    (pageId : String) (other : PageState)
    (replayed : Journal.page (journal ++ [entry]) pageId = .ok (some other)) : Stored other := by
  by_cases here : pageId = command.pageId
  · subst here
    rw [enters.page_self] at replayed
    cases replayed
    exact stored
  · rw [enters.page_other here] at replayed
    exact pages pageId other replayed

/-- One storable command, from a journal whose pages the columns took. -/
theorem storable_step {lib : Stdlib} {commandIds : Set String} {journal : Journal}
    {command : WikiCommand} {tables : Tables} (recorded : Recorded lib commandIds journal)
    (distinct : StableIdsDistinct lib commandIds) (documented : lib.Documented)
    (derived : RouterDerived lib command) (known : command.commandId ∈ commandIds)
    (storable : Storable lib command) (holds : Holds journal tables)
    (pages : ∀ pageId page, journal.page pageId = .ok (some page) → Stored page) :
    (tables.execute lib command).1 = (journal.execute lib command).1 ∧
      Holds (journal.execute lib command).2 (tables.execute lib command).2 ∧
      ∀ pageId page, (journal.execute lib command).2.page pageId = .ok (some page) →
        Stored page := by
  have pageUuid : uuid command.pageId = .ok command.pageId := by
    obtain ⟨creator, same⟩ := storable.page
    rw [same]
    exact documented.uuid5 _
  have slug : ∀ c, command = .createPage c → NulFree c.slug := by
    rintro c rfl
    exact storable.field "slug" (by simp [commandIntent])
  have step := postgres_step recorded distinct documented derived known pageUuid
    storable.commandId slug
    (fun entry state page enters => (storable.fits documented recorded derived pages enters).1)
      holds
  refine ⟨step.1, step.2, ?_⟩
  obtain ⟨answer, next, same, response⟩ := journal.execute_response lib command
  rw [same]
  cases response with
  | refused _ => exact pages
  | replayed _ _ _ => exact pages
  | recorded entry state page enters =>
    exact enters.stored (storable.fits documented recorded derived pages enters).2 pages

/-- On any commands the PostgreSQL store answers as the in-memory store does and ends
with the same contents. Nothing but a domain error is raised, and no stream conflict. -/
theorem stores_agree (lib : Stdlib) (documented : lib.Documented) (commands : List WikiCommand)
    (derived : ∀ command ∈ commands, RouterDerived lib command)
    (distinct : StableIdsDistinct lib {id | ∃ command ∈ commands, command.commandId = id})
    (storable : ∀ command ∈ commands, Storable lib command) :
    (serve (Tables.execute lib) {} commands).1 =
      (serve (InMemoryWikiStore.execute lib) {} commands).1 ∧
    Related (serve (InMemoryWikiStore.execute lib) {} commands).2
      (serve (Tables.execute lib) {} commands).2 ∧
    ∀ raised, .error raised ∈ (serve (Tables.execute lib) {} commands).1 →
      ∃ error, raised = .wikiError error ∧ error.code ≠ "stream_conflict" := by
  let commandIds : Set String := {id | ∃ command ∈ commands, command.commandId = id}
  let admitted := fun command => RouterDerived lib command ∧ command.commandId ∈ commandIds ∧
    Storable lib command
  have all : ∀ command ∈ commands, admitted command := fun command member =>
    ⟨derived command member, ⟨command, member, rfl⟩, storable command member⟩
  obtain ⟨memory, recorded, represents⟩ := memory_refines distinct commands derived
    (fun command member => ⟨command, member, rfl⟩)
  obtain ⟨postgres, _, holds, _⟩ :=
    serve_simulation (Tables.execute lib) (Journal.execute lib) admitted
    (fun tables journal => Recorded lib commandIds journal ∧ Holds journal tables ∧
      ∀ pageId page, journal.page pageId = .ok (some page) → Stored page)
    (fun tables journal command ok related =>
      have step := storable_step related.1 distinct documented ok.1 ok.2.1 ok.2.2
        related.2.1 related.2.2
      ⟨step.1, related.1.execute ok.1 ok.2.1, step.2⟩)
    commands all {} [] ⟨.empty, empty_holds, fun _ _ replayed => by cases replayed⟩
  refine ⟨postgres.trans memory.symm, represents.related holds recorded distinct, ?_⟩
  intro raised answered
  rw [postgres] at answered
  have refusals := serve_answers (Journal.execute lib) admitted (Recorded lib commandIds)
    (fun answer => ∀ raised, answer = .error raised →
      ∃ error, raised = .wikiError error ∧ error.code ≠ "stream_conflict")
    (fun journal command ok past => ⟨fun raised failed => by
      obtain ⟨error, same, listed⟩ := past.refusal command failed
      exact ⟨error, same, fun conflict => absurd (conflict ▸ listed) (by decide)⟩,
      past.execute ok.1 ok.2.1⟩)
    commands all [] .empty
  exact refusals _ answered raised rfl

theorem sample_storable : ∀ command ∈ sampleCommands, Storable sampleLib command := by
  intro command member
  have page : command.pageId = stableId sampleLib sampleCreate.commandId .page := by
    revert command
    decide
  refine ⟨⟨_, page⟩, ?_, ?_, ?_⟩
  · revert command
    decide
  · revert command
    decide
  · intro title content document
    simp only [sampleCommands, List.mem_cons, List.not_mem_nil, or_false] at member
    rcases member with rfl | rfl | rfl <;> cases document <;> decide

theorem stores_agree_sample :
    (serve (Tables.execute sampleLib) {} sampleCommands).1 =
      (serve (InMemoryWikiStore.execute sampleLib) {} sampleCommands).1 ∧
    Related (serve (InMemoryWikiStore.execute sampleLib) {} sampleCommands).2
      (serve (Tables.execute sampleLib) {} sampleCommands).2 ∧
    ∀ raised, .error raised ∈ (serve (Tables.execute sampleLib) {} sampleCommands).1 →
      ∃ error, raised = .wikiError error ∧ error.code ≠ "stream_conflict" :=
  stores_agree sampleLib sample_documented sampleCommands sample_derived sample_distinct
    sample_storable

end Metahumotonic.Wiki
