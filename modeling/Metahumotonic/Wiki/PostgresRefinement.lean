import Metahumotonic.Wiki.MemoryRefinement
import Metahumotonic.Wiki.Postgres

/-! The PostgreSQL store is the journal too. The constraints of the tables hold of
what the journal writes, so only the texts and the sizes of a command can make
its transaction fail. -/
namespace Metahumotonic.Wiki

open Library

def NulFree (text : String) : Prop := '\x00' ∉ text.toList

instance (text : String) : Decidable (NulFree text) :=
  inferInstanceAs (Decidable ('\x00' ∉ text.toList))

/-- What `hashlib` and `uuid` document about their texts. -/
structure Stdlib.Documented (lib : Stdlib) : Prop where
  sha256 : ∀ text, (lib.sha256 text).length = 64 ∧ ∀ c ∈ (lib.sha256 text).toList, c ∈ hexDigits
  uuid5 : ∀ name, uuid (lib.uuid5 name) = .ok (lib.uuid5 name)

theorem hexDigits_nulFree {text : String} (hex : ∀ c ∈ text.toList, c ∈ hexDigits) : NulFree text :=
  fun nul => absurd (hex _ nul) (by decide)

theorem mem_hyphenate {c : Char} {digits : List Char} (member : c ∈ hyphenate digits) :
    c = '-' ∨ c ∈ digits := by
  simp only [hyphenate, List.mem_append, List.mem_cons] at member
  rcases member with h | h | h | h | h | h | h | h | h
  · exact .inr (List.mem_of_mem_take h)
  · exact .inl h
  · exact .inr (List.mem_of_mem_drop (List.mem_of_mem_take h))
  · exact .inl h
  · exact .inr (List.mem_of_mem_drop (List.mem_of_mem_take h))
  · exact .inl h
  · exact .inr (List.mem_of_mem_drop (List.mem_of_mem_take h))
  · exact .inl h
  · exact .inr (List.mem_of_mem_drop h)

theorem uuid_nulFree {text canonical : String} (ok : uuid text = .ok canonical) :
    NulFree canonical := by
  have lower : hexDigits.all (·.toLower ≠ '\x00') = true := by decide
  unfold uuid at ok
  dsimp only at ok
  split at ok
  · rename_i form
    rw [← Except.ok.inj ok]
    intro nul
    rw [String.toList_ofList] at nul
    rcases mem_hyphenate nul with dash | digit
    · exact absurd dash (by decide)
    · obtain ⟨c, member, zero⟩ := List.mem_map.mp digit
      have hex := of_decide_eq_true (List.all_eq_true.mp form.2 c member)
      exact of_decide_eq_true (List.all_eq_true.mp lower c hex) zero
  · cases ok

theorem forall_lookup {P : String → Prop} {rows : List (String × String)} {default : String}
    (listed : ∀ row ∈ rows, P row.2) (otherwise : P default) (text : String) :
    P ((rows.lookup text).getD default) := by
  cases found : rows.lookup text with
  | none => exact otherwise
  | some value => exact listed _ (Table.mem_of_lookup found)

/-! The characters of a literal are read off once, and the checks run on them. -/

theorem digest_literal {text : String} {chars : List Char} (spelled : text = String.ofList chars)
    (length : chars.length = 64) (hex : chars.all (· ∈ hexDigits)) :
    text.length = 64 ∧ text.toList.all (· ∈ hexDigits) := by
  subst spelled
  rw [← String.length_toList, String.toList_ofList]
  exact ⟨length, hex⟩

theorem uuid_literal {text : String} {chars : List Char} (spelled : text = String.ofList chars)
    (bare : stripBraces (without "uuid:".toList 0 (without "urn:".toList 0 chars)) = chars)
    (length : (chars.filter (· ≠ '-')).length = 32)
    (hex : (chars.filter (· ≠ '-')).all (· ∈ hexDigits))
    (canonical : hyphenate ((chars.filter (· ≠ '-')).map Char.toLower) = chars) :
    uuid text = .ok text := by
  subst spelled
  have read : (String.ofList chars).toList = chars := String.toList_ofList
  unfold uuid
  dsimp only
  rw [read, bare, if_pos ⟨length, hex⟩, canonical]

theorem sampleDigests_documented :
    ∀ row ∈ sampleDigests, row.2.length = 64 ∧ row.2.toList.all (· ∈ hexDigits) := by
  intro row member
  simp only [sampleDigests, List.mem_cons, List.not_mem_nil, or_false] at member
  rcases member with rfl | rfl | rfl | rfl | rfl <;>
    exact digest_literal rfl (by decide) (by decide)

theorem sampleUuids_documented : ∀ row ∈ sampleUuids, uuid row.2 = .ok row.2 := by
  intro row member
  simp only [sampleUuids, List.mem_cons, List.not_mem_nil, or_false] at member
  rcases member with
    rfl | rfl | rfl | rfl | rfl | rfl | rfl | rfl | rfl | rfl | rfl | rfl | rfl | rfl | rfl <;>
    exact uuid_literal rfl (by decide) (by decide) (by decide) (by decide)

theorem sample_documented : sampleLib.Documented where
  sha256 := by
    intro text
    have hit : (sampleLib.sha256 text).length = 64 ∧
        (sampleLib.sha256 text).toList.all (· ∈ hexDigits) :=
      forall_lookup (P := fun digest => digest.length = 64 ∧ digest.toList.all (· ∈ hexDigits))
        sampleDigests_documented (digest_literal rfl (by decide) (by decide)) text
    exact ⟨hit.1, fun c member => of_decide_eq_true (List.all_eq_true.mp hit.2 c member)⟩
  uuid5 := forall_lookup (P := fun id => uuid id = .ok id) sampleUuids_documented
    (uuid_literal rfl (by decide) (by decide) (by decide) (by decide))

theorem bindTexts_ok {values : List String} {u : Unit} :
    bindTexts values = .ok u ↔ ∀ value ∈ values, NulFree value := by
  by_cases broken : ∃ value ∈ values, '\x00' ∈ value.toList
  · simp only [bindTexts, if_pos broken, reduceCtorEq, false_iff, NulFree]
    exact fun all => broken.elim fun value nul => all value nul.1 nul.2
  · simp only [bindTexts, if_neg broken, true_iff, NulFree]
    exact fun value member nul => broken ⟨value, member, nul⟩

theorem violates_ok {name : String} {broken : Prop} [Decidable broken] {u : Unit} :
    violates name broken = .ok u ↔ ¬ broken := by
  by_cases h : broken <;> simp [violates, h]

theorem char64_digest {value : String} (length : value.length = 64) : char64 value = .ok value := by
  simp [char64, length]

theorem mapError_ok {x : Except ε α} {f : ε → ε'} {a : α} : x.mapError f = .ok a ↔ x = .ok a := by
  cases x <;> simp [Except.mapError]

def Entry.row (entry : Entry) : ReceiptRow where
  commandId := entry.event.commandId
  fingerprint := entry.fingerprint
  pageId := entry.event.pageId
  streamVersion := entry.stored.index
  eventIds := [entry.event.eventId]
  createdAt := entry.event.occurredAt

/-- The rows are exactly what the journal says. -/
structure Holds (journal : Journal) (tables : Tables) : Prop where
  pages : ∀ pageId, journal.page pageId = .ok (tables.pages.get? pageId)
  events : tables.events = journal.map Entry.stored
  receipts : ∀ commandId, tables.receipts.get? commandId = (journal.find commandId).map Entry.row
  outbox : ∀ effectId record, tables.outbox.get? effectId = some record ↔
    record ∈ journal.records ∧ record.effect.effectId = effectId

theorem empty_holds : Holds [] {} where
  pages _ := rfl
  events := rfl
  receipts _ := rfl
  outbox _ _ := by simp [Journal.records]

/-- The rows after an accepted command whose one event gives `page`. -/
def Tables.recorded (tables : Tables) (command : WikiCommand) (entry : Entry) (page : PageState) :
    Tables where
  pages := tables.pages.set command.pageId page
  events := tables.events ++ [entry.stored]
  receipts := tables.receipts.set command.commandId entry.row
  outbox := InMemoryWikiStore.queue command.occurredAt tables.outbox entry.effects

/-- The sizes that `wiki_pages` checks. -/
def PageState.Sized (page : PageState) : Prop :=
  (1 ≤ page.content.length ∧ page.content.length ≤ 100000) ∧
    (1 ≤ page.title.length ∧ page.title.length ≤ 200)

def PageState.columns (page : PageState) : List String :=
  [page.title, page.content, page.contentHash, page.headActorId]

/-- The texts and sizes that the columns take. -/
structure Fits (entry : Entry) (page : PageState) : Prop where
  event : ∀ value ∈ entry.event.texts, NulFree value
  columns : ∀ value ∈ page.slug :: page.columns, NulFree value
  sized : page.Sized
  effects : ∀ effect ∈ entry.effects, ∀ value ∈ effect.texts, NulFree value

section Record

variable {lib : Stdlib} {commandIds : Set String} {journal : Journal} {command : WikiCommand}
  {entry : Entry} {state : Option PageState} {page : PageState} {tables : Tables}

theorem Holds.recorded (holds : Holds journal tables)
    (recorded : Recorded lib commandIds (journal ++ [entry]))
    (distinct : StableIdsDistinct lib commandIds)
    (enters : Enters lib journal command entry state page) :
    Holds (journal ++ [entry]) (tables.recorded command entry page) where
  pages := pages_recorded holds.pages enters
  events := by simp only [Tables.recorded, holds.events, List.map_append, List.map_cons,
    List.map_nil]
  receipts commandId := by
    have unused : journal.find entry.event.commandId = none := enters.step.commandId ▸ enters.unused
    rw [Journal.find_snoc unused, enters.step.commandId]
    simp only [Tables.recorded, Table.get?_set]
    split
    · rfl
    · exact holds.receipts commandId
  outbox := outbox_recorded holds.outbox recorded distinct enters

/-- A recorded page has the digest of its content and a derived head. -/
theorem Recorded.page_digest (recorded : Recorded lib commandIds journal) {pageId : String}
    (replayed : journal.page pageId = .ok (some page)) :
    page.contentHash = contentDigest lib page.content ∧
      ∃ commandId, page.headRevisionId = stableId lib commandId .revision := by
  refine recorded.page_invariant (fun page => page.contentHash = contentDigest lib page.content ∧
    ∃ commandId, page.headRevisionId = stableId lib commandId .revision) ?_ replayed
  intro journal command entry state page derived enters before
  have evolved := enters.step.evolved
  have accepted := enters.accepted
  obtain ⟨fingerprint, ⟨index, event⟩, effects⟩ := entry
  simp only [Entry.event] at accepted evolved
  cases accepted with
  | create c => cases evolved; exact ⟨rfl, _, derived.event⟩
  | edit old c => cases evolved; exact ⟨rfl, _, derived.event⟩
  | submit old c => cases evolved; exact before old rfl
  | report old c => cases evolved; exact before old rfl
  | quarantine old c => cases evolved; exact before old rfl
  | release old c => cases evolved; exact before old rfl

/-- The constraints of `wiki_events` hold of the next event. -/
theorem Holds.insertEvent (holds : Holds journal tables)
    (recorded : Recorded lib commandIds journal)
    (distinct : StableIdsDistinct lib commandIds) (derived : RouterDerived lib command)
    (known : command.commandId ∈ commandIds) (enters : Enters lib journal command entry state page)
    {next : Tables} : tables.insertEvent entry.stored = .ok next ↔
      (∀ value ∈ entry.event.texts, NulFree value) ∧
        next = { tables with events := tables.events ++ [entry.stored] } := by
  have first : entry.stored.index ≠ 0 := by rw [enters.index]; omega
  have schema : entry.stored.event.schemaVersion = 1 := enters.step.schema
  have primary : ¬ ∃ other ∈ tables.events, other.event.pageId = entry.stored.event.pageId ∧
      other.index = entry.stored.index := by
    rintro ⟨other, member, home, same⟩
    rw [holds.events] at member
    obtain ⟨older, inJournal, rfl⟩ := List.mem_map.mp member
    have inStream : older.stored ∈ journal.stream command.pageId :=
      Journal.mem_stream.mpr ⟨older, inJournal, rfl, home.trans enters.step.eventPage⟩
    have bound := recorded.stream_index_le inStream
    rw [same, enters.index] at bound
    omega
  have unique : ¬ ∃ other ∈ tables.events, other.event.eventId = entry.stored.event.eventId := by
    rintro ⟨other, member, same⟩
    rw [holds.events] at member
    obtain ⟨older, inJournal, rfl⟩ := List.mem_map.mp member
    exact recorded.eventId_fresh distinct derived known enters.unused inJournal
      (same.trans enters.step.eventId)
  simp only [Tables.insertEvent, bind_ok, bindTexts_ok, violates_ok, pure_ok, exists_and_left,
    exists_const, first, schema, primary, unique, ne_eq, not_true_eq_false,
      not_false_eq_true, true_and]
  exact Iff.and Iff.rfl eq_comm

theorem checkPage_ok {u : Unit} (positive : page.streamVersion ≠ 0) :
    Tables.checkPage page = .ok u ↔ page.Sized := by
  simp only [Tables.checkPage, bind_ok, violates_ok, positive, not_false_eq_true, true_and,
    exists_const, Decidable.not_not, PageState.Sized]

theorem createRow_ok (tables next : Tables) (absent : page.pageId ∉ tables.pages.keys)
    (unclaimed : ¬ ∃ other ∈ tables.pages.values, other.slug = page.slug)
    (digest : page.contentHash.length = 64) (positive : page.streamVersion ≠ 0) :
    tables.createRow page = .ok next ↔
      (∀ value ∈ page.slug :: page.columns, NulFree value) ∧ page.Sized ∧
        next = { tables with pages := tables.pages.set page.pageId page } := by
  have caught : tables.createRow page = .ok next ↔ tables.insertPage page = .ok next := by
    unfold Tables.createRow
    split
    · rename_i taken
      rw [taken]
      simp
    · rfl
  rw [caught]
  simp only [Tables.insertPage, bind_ok, bindTexts_ok, char64_digest digest, checkPage_ok positive,
    violates_ok, pure_ok, absent, unclaimed, not_false_eq_true, true_and, exists_const,
    Except.ok.injEq, exists_eq_left', eq_comm (b := next), PageState.columns]

/-- The conditional update changes the row that the command was decided on. -/
theorem updateRow_ok (tables next : Tables) {before : PageState}
    (found : tables.pages.get? page.pageId = some before)
    (kept : page.slug = before.slug ∧ page.pageId = before.pageId ∧
      page.createdAt = before.createdAt)
    (digest : page.contentHash.length = 64) (positive : page.streamVersion ≠ 0) :
    tables.updateRow page before.streamVersion = .ok next ↔
      (∀ value ∈ page.columns, NulFree value) ∧ page.Sized ∧
        next = { tables with pages := tables.pages.set page.pageId page } := by
  obtain ⟨slug, id, createdAt⟩ := kept
  have whole : { before with
      title := page.title
      content := page.content
      headRevisionId := page.headRevisionId
      contentHash := page.contentHash
      headActorId := page.headActorId
      streamVersion := page.streamVersion
      reviewStatus := page.reviewStatus
      moderationStatus := page.moderationStatus
      updatedAt := page.updatedAt } = page := by
    rw [← slug, ← id, ← createdAt]
  simp only [Tables.updateRow, Tables.updatePage, bind_ok, bindTexts_ok,
    char64_digest digest, found,
    if_pos, whole, checkPage_ok positive, pure_ok, Except.ok.injEq, exists_eq_left',
    exists_const, Prod.exists, Prod.mk.injEq, PageState.columns]
  constructor
  · rintro ⟨_, _, ⟨texts, sized, rfl, rfl⟩, done⟩
    rw [if_pos rfl, pure_ok] at done
    exact ⟨texts, sized, done.symm⟩
  · rintro ⟨texts, sized, rfl⟩
    exact ⟨1, _, ⟨texts, sized, rfl, rfl⟩, by rw [if_pos rfl]; rfl⟩

/-- A slug is in use by a row exactly when some entry claimed it. -/
theorem Holds.slug_taken (holds : Holds journal tables) (recorded : Recorded lib commandIds journal)
    (distinct : StableIdsDistinct lib commandIds) (slug : String) :
    (∃ page ∈ tables.pages.values, page.slug = slug) ↔ (journal.creation slug).isSome = true := by
  constructor
  · rintro ⟨page, member, rfl⟩
    obtain ⟨pageId, found⟩ := (Table.mem_values _ _).mp member
    obtain ⟨entry, inJournal, _, claims⟩ := recorded.page_slug
      ((holds.pages pageId).trans (congrArg Except.ok found))
    rw [(recorded.creation_iff _ _).mpr ⟨inJournal, claims⟩]
    rfl
  · intro claimed
    obtain ⟨entry, found⟩ := Option.isSome_iff_exists.mp claimed
    obtain ⟨inJournal, claims⟩ := (recorded.creation_iff _ _).mp found
    obtain ⟨page, replayed, named⟩ := recorded.slug_page distinct inJournal claims
    rw [holds.pages] at replayed
    exact ⟨page, (Table.mem_values _ _).mpr ⟨_, Except.ok.inj replayed⟩, named⟩

/-- The row of the page is written exactly when its columns take it. -/
theorem Holds.writePage (holds : Holds journal tables) (recorded : Recorded lib commandIds journal)
    (distinct : StableIdsDistinct lib commandIds) (documented : lib.Documented)
    (after : Recorded lib commandIds (journal ++ [entry]))
    (enters : Enters lib journal command entry state page)
    (pageUuid : uuid command.pageId = .ok command.pageId) {next : Tables} :
    ({ tables with events := tables.events ++ [entry.stored] } : Tables).writePage command page
        (version state) = .ok next ↔
      (∀ value ∈ (if state.isSome then page.columns else page.slug :: page.columns),
        NulFree value) ∧
        page.Sized ∧ next = { tables with
          events := tables.events ++ [entry.stored]
          pages := tables.pages.set command.pageId page } := by
  obtain ⟨old, record⟩ := recorded.pageRecord command.pageId
  have same : old = state := Except.ok.inj (record.replayed.symm.trans enters.replayed)
  subst same
  have home := (enters.pageRecord record).pageId page rfl
  obtain ⟨hash, commandId, head⟩ := after.page_digest enters.page_self
  have headUuid : uuid page.headRevisionId = .ok page.headRevisionId := by
    rw [head]
    exact documented.uuid5 _
  have digest : page.contentHash.length = 64 := by
    rw [hash]
    exact (documented.sha256 _).1
  have positive : page.streamVersion ≠ 0 := by rw [enters.step.version]; omega
  have row : old = tables.pages.get? command.pageId :=
    Except.ok.inj (enters.replayed.symm.trans (holds.pages command.pageId))
  have bound : ({ page with pageId := command.pageId, headRevisionId := page.headRevisionId } :
    PageState) = page := by rw [← home]
  simp only [Tables.writePage, home, pageUuid, headUuid, bind_ok, Except.ok.injEq,
    exists_eq_left', bound]
  cases old with
  | none =>
    obtain ⟨c, rfl⟩ := enters.accepted.creates
    have absent : page.pageId ∉ tables.pages.keys := by
      rw [home, Table.not_mem_keys, ← row]
    have unclaimed : ¬ ∃ other ∈ tables.pages.values, other.slug = page.slug := by
      intro taken
      have claimed := (holds.slug_taken recorded distinct page.slug).mp taken
      obtain ⟨_, d, create, slug⟩ := enters.accepted.createdSlug rfl (enters.step.created rfl).2
      rw [← slug, enters.unclaimed d create] at claimed
      cases claimed
    have created := createRow_ok { tables with events := tables.events ++ [entry.stored] } next
      absent unclaimed digest positive
    rw [home] at created
    exact created
  | some before =>
    have found : tables.pages.get? page.pageId = some before := by rw [home, ← row]
    have updated := updateRow_ok { tables with events := tables.events ++ [entry.stored] } next
      found (evolve_keeps enters.step.evolved) digest positive
    rw [home] at updated
    have other := enters.accepted.not_creates
    cases command with
    | createPage c => exact absurd rfl (other c)
    | _ => exact updated

theorem effectType_listed (effect : OutboxEffect) :
    effect.effectType ∈ ["review_requested", "moderation_report_requested"] := by
  obtain ⟨_, _, payload⟩ := effect
  cases payload <;> simp [OutboxEffect.effectType, EffectPayload.effectType]

/-- New effects are inserted one by one; no conflict is tolerated for them. -/
theorem queue_ok (tables next : Tables) (occurredAt : Instant) (effects : List OutboxEffect)
    (fresh : ∀ effect ∈ effects, effect.effectId ∉ tables.outbox.keys)
    (distinct : (effects.map (·.effectId)).Nodup) :
    tables.queue occurredAt effects = .ok next ↔
      (∀ effect ∈ effects, ∀ value ∈ effect.texts, NulFree value) ∧
        next = { tables with
          outbox := InMemoryWikiStore.queue occurredAt tables.outbox effects } := by
  induction effects generalizing tables with
  | nil => simp [Tables.queue, InMemoryWikiStore.queue, eq_comm]
  | cons effect rest ih =>
    simp only [List.map_cons, List.nodup_cons] at distinct
    have absent := fresh effect List.mem_cons_self
    let pending : OutboxRecord := { effect := effect, status := .pending, createdAt := occurredAt }
    have later : ∀ other ∈ rest,
        other.effectId ∉ (tables.outbox.set effect.effectId pending).keys := by
      intro other member
      rw [Table.mem_keys_set]
      rintro (same | old)
      · exact distinct.1 (same ▸ List.mem_map_of_mem member)
      · exact fresh other (List.mem_cons_of_mem _ member) old
    have tail := ih { tables with outbox := tables.outbox.set effect.effectId pending }
      later distinct.2
    simp only [Tables.queue, Tables.insertOutbox, bind_ok, bindTexts_ok, violates_ok, absent,
      effectType_listed, not_true_eq_false, not_false_eq_true, true_and, exists_const, if_false,
      pure_ok]
    rw [List.forall_mem_cons, and_assoc]
    constructor
    · rintro ⟨_, ⟨texts, rfl⟩, done⟩
      exact ⟨texts, tail.mp done⟩
    · rintro ⟨texts, done⟩
      exact ⟨_, ⟨texts, rfl⟩, tail.mpr done⟩

theorem insertEvents_one (tables next : Tables) {event : WikiEvent} {after : Option PageState}
    (eventUuid : uuid event.pageId = .ok event.pageId) (evolved : evolve state event = .ok page)
    (expectedVersion : Nat) :
    tables.insertEvents state expectedVersion [event] = .ok (after, next) ↔
      after = some page ∧ tables.insertEvent ⟨expectedVersion + 1, event⟩ = .ok next := by
  simp only [Tables.insertEvents, bind_ok, eventUuid, mapError_ok, evolved, Except.ok.injEq,
    exists_eq_left', Prod.mk.injEq]
  constructor
  · rintro ⟨_, inserted, rfl, rfl⟩
    exact ⟨rfl, inserted⟩
  · rintro ⟨rfl, inserted⟩
    exact ⟨_, inserted, rfl, rfl⟩

theorem Holds.effects_fresh (holds : Holds journal tables)
    (after : Recorded lib commandIds (journal ++ [entry]))
    (distinct : StableIdsDistinct lib commandIds)
    (enters : Enters lib journal command entry state page) :
    (∀ effect ∈ entry.effects, effect.effectId ∉ tables.outbox.keys) ∧
      (entry.effects.map (·.effectId)).Nodup := by
  constructor
  · intro effect member present
    obtain ⟨old, found⟩ := (Table.mem_keys _ _).mp present
    obtain ⟨hers, id⟩ := (holds.outbox _ _).mp found
    exact effect_fresh after distinct enters hers (List.mem_map_of_mem member) id
  · rcases enters.accepted.effects rfl with ⟨_, effect, one, _⟩ | ⟨_, none⟩
    · have effects : entry.effects = [effect] := one
      rw [effects]
      exact List.nodup_singleton _
    · have effects : entry.effects = [] := none
      rw [effects]
      exact List.nodup_nil

theorem insertReceipt_ok (tables next : Tables) {row : ReceiptRow}
    (digest : row.fingerprint.length = 64)
    (unused : row.commandId ∉ tables.receipts.keys) :
    tables.insertReceipt row = .ok next ↔
      (∀ value ∈ row.commandId :: row.fingerprint :: row.eventIds, NulFree value) ∧
        next = { tables with receipts := tables.receipts.set row.commandId row } := by
  simp only [Tables.insertReceipt, bind_ok, bindTexts_ok, char64_digest digest, violates_ok, unused,
    pure_ok, not_false_eq_true, true_and, exists_const, Except.ok.injEq, exists_eq_left',
    eq_comm (b := next)]

/-- An accepted command is recorded exactly when the columns take what it writes. -/
theorem Holds.record (holds : Holds journal tables) (recorded : Recorded lib commandIds journal)
    (distinct : StableIdsDistinct lib commandIds) (documented : lib.Documented)
    (derived : RouterDerived lib command) (known : command.commandId ∈ commandIds)
    (pageUuid : uuid command.pageId = .ok command.pageId)
    (enters : Enters lib journal command entry state page) {receipt : CommandReceipt}
    {next : Tables} :
    tables.record (intentFingerprint lib command) command state ⟨[entry.event], entry.effects⟩ =
        .ok (receipt, next) ↔
      ((∀ value ∈ entry.event.texts, NulFree value) ∧
        (∀ value ∈ (if state.isSome then page.columns else page.slug :: page.columns),
          NulFree value) ∧
        page.Sized ∧ ∀ effect ∈ entry.effects, ∀ value ∈ effect.texts, NulFree value) ∧
      receipt = entry.receipt ∧ next = tables.recorded command entry page := by
  have after : Recorded lib commandIds (journal ++ [entry]) := .accept recorded derived known enters
  obtain ⟨old, pageRecord⟩ := recorded.pageRecord command.pageId
  have same : old = state := Except.ok.inj (pageRecord.replayed.symm.trans enters.replayed)
  subst same
  have eventUuid : uuid entry.event.pageId = .ok entry.event.pageId := by
    rw [enters.step.eventPage]; exact pageUuid
  have stored : (⟨version old + 1, entry.event⟩ : StoredEvent) = entry.stored := by
    rw [pageRecord.version, ← enters.index]; rfl
  obtain ⟨fresh, single⟩ := holds.effects_fresh after distinct enters
  have receiptIs := enters.receipt pageRecord
  have rowIs : entry.row = {
      commandId := command.commandId
      fingerprint := intentFingerprint lib command
      pageId := command.pageId
      streamVersion := page.streamVersion
      eventIds := [entry.event.eventId]
      createdAt := command.occurredAt } := by
    rw [enters.step.version, pageRecord.version, ← enters.index, ← enters.step.occurredAt]
    simp only [Entry.row, enters.step.commandId, enters.step.eventPage, enters.fingerprint]
  have unused : entry.row.commandId ∉ tables.receipts.keys := by
    rw [rowIs, Table.not_mem_keys, holds.receipts, enters.unused]; rfl
  have fingerprint : entry.row.fingerprint.length = 64 := by
    rw [rowIs]; exact (documented.sha256 _).1
  have ids : (∀ value ∈ entry.event.texts, NulFree value) →
      ∀ value ∈ entry.row.commandId :: entry.row.fingerprint :: entry.row.eventIds,
        NulFree value := by
    intro texts value member
    have digest : NulFree entry.fingerprint := by
      rw [enters.fingerprint]; exact hexDigits_nulFree (documented.sha256 _).2
    simp only [Entry.row, List.mem_cons, List.not_mem_nil, or_false] at member
    rcases member with rfl | rfl | rfl
    · exact texts _ (by simp [WikiEvent.texts])
    · exact digest
    · exact texts _ (by simp [WikiEvent.texts])
  let paged : Tables := { tables with
    events := tables.events ++ [entry.stored]
    pages := tables.pages.set command.pageId page }
  let queued : Tables := { paged with
    outbox := InMemoryWikiStore.queue command.occurredAt tables.outbox entry.effects }
  have queue : ∀ t, paged.queue command.occurredAt entry.effects = .ok t ↔ _ :=
    fun t => queue_ok paged t command.occurredAt entry.effects fresh single
  have insert : ∀ t, queued.insertReceipt entry.row = .ok t ↔ _ :=
    fun t => insertReceipt_ok queued t fingerprint unused
  have whole : { queued with receipts := queued.receipts.set entry.row.commandId entry.row } =
      tables.recorded command entry page := by
    simp only [Tables.recorded, queued, paged, rowIs]
  simp only [Tables.record, bind_ok, Prod.exists,
    insertEvents_one _ _ eventUuid enters.step.evolved,
    stored, holds.insertEvent recorded distinct derived known enters]
  constructor
  · rintro ⟨_, _, ⟨rfl, texts, rfl⟩, rest⟩
    simp only [bind_ok, holds.writePage recorded distinct documented after enters
      pageUuid, pageUuid,
      Except.ok.injEq, exists_eq_left', List.map_cons, List.map_nil, ← rowIs, ← receiptIs, pure_ok,
      Prod.mk.injEq] at rest
    obtain ⟨_, ⟨columns, sized, rfl⟩, t, sent, last, inserted, rfl, rfl⟩ := rest
    obtain ⟨effects, rfl⟩ := (queue t).mp sent
    exact ⟨⟨texts, columns, sized, effects⟩, rfl, ((insert last).mp inserted).2.trans whole⟩
  · rintro ⟨⟨texts, columns, sized, effects⟩, rfl, rfl⟩
    refine ⟨_, _, ⟨rfl, texts, rfl⟩, ?_⟩
    simp only [bind_ok, holds.writePage recorded distinct documented after enters
      pageUuid, pageUuid,
      Except.ok.injEq, exists_eq_left', List.map_cons, List.map_nil, ← rowIs, ← receiptIs, pure_ok,
      Prod.mk.injEq, true_and]
    exact ⟨paged, ⟨columns, sized, rfl⟩, queued, (queue queued).mpr ⟨effects, rfl⟩, _,
      (insert _).mpr ⟨ids texts, whole.symm⟩, rfl⟩

theorem Holds.not_orphaned (holds : Holds journal tables)
    (recorded : Recorded lib commandIds journal) :
    ¬ tables.orphaned := by
  rintro ⟨row, member, orphan⟩
  rw [holds.events] at member
  obtain ⟨entry, inJournal, rfl⟩ := List.mem_map.mp member
  obtain ⟨page, replayed⟩ := recorded.page_exists inJournal
  rw [holds.pages] at replayed
  exact orphan ((Table.mem_keys _ _).mpr ⟨page, Except.ok.inj replayed⟩)

/-- The transaction decides on the same page as the journal. -/
theorem Holds.current (holds : Holds journal tables) (recorded : Recorded lib commandIds journal)
    (distinct : StableIdsDistinct lib commandIds) (derived : RouterDerived lib command)
    (known : command.commandId ∈ commandIds) (unused : journal.find command.commandId = none)
    (pageUuid : uuid command.pageId = .ok command.pageId)
    (clean : ∀ c, command = .createPage c → NulFree c.slug) :
    tables.current command = (journal.current command).mapError .wikiError := by
  cases command with
  | createPage c =>
    have texts : bindTexts [c.slug] = .ok () := bindTexts_ok.mpr (by simpa using clean c rfl)
    have absent : journal.page c.pageId = .ok none := by
      have empty := recorded.stream_unused distinct known unused
      rw [Journal.page, derived.page c rfl]
      exact congrArg (fun stream => replay (stream.map (·.event))) empty
    simp only [Tables.current, Journal.current, texts, holds.slug_taken recorded distinct, absent]
    split <;> rfl
  | _ =>
    simp only [Tables.current, Journal.current, pageUuid, holds.pages]
    rfl

/-- Whatever the texts are, the transaction either raises and leaves the rows as they
are, or answers as the journal may. -/
theorem postgres_response (recorded : Recorded lib commandIds journal)
    (distinct : StableIdsDistinct lib commandIds) (documented : lib.Documented)
    (derived : RouterDerived lib command) (known : command.commandId ∈ commandIds)
    (pageUuid : uuid command.pageId = .ok command.pageId) (holds : Holds journal tables) :
    ∃ next, Response lib journal command (tables.execute lib command).1 next ∧
      Recorded lib commandIds next ∧ Holds next (tables.execute lib command).2 := by
  unfold Tables.execute
  cases committed : tables.transaction lib command with
  | error raised => exact ⟨journal, .refused raised, recorded, holds⟩
  | ok result =>
    obtain ⟨receipt, written⟩ := result
    dsimp only
    unfold Tables.transaction at committed
    dsimp only at committed
    obtain ⟨_, _, committed⟩ := bind_ok.mp committed
    cases prior : journal.find command.commandId with
    | some entry =>
      have row : tables.receipts.get? command.commandId = some entry.row := by
        rw [holds.receipts, prior]; rfl
      rw [row] at committed
      dsimp only at committed
      split at committed
      · cases committed
      · rename_i same
        cases committed
        rw [if_neg (holds.not_orphaned recorded)]
        exact ⟨journal, .replayed entry prior (Decidable.not_not.mp same), recorded, holds⟩
    | none =>
      have row : tables.receipts.get? command.commandId = none := by
        rw [holds.receipts, prior]; rfl
      rw [row] at committed
      obtain ⟨state, read, committed⟩ := bind_ok.mp committed
      obtain ⟨decision, decided, committed⟩ := bind_ok.mp committed
      have clean : ∀ c, command = .createPage c → NulFree c.slug := by
        rintro c rfl
        obtain ⟨_, texts, _⟩ := bind_ok.mp read
        simpa using bindTexts_ok.mp texts
      rw [holds.current recorded distinct derived known prior pageUuid clean] at read
      obtain ⟨unclaimed, replayed⟩ := Journal.current_ok (mapError_ok.mp read)
      have accepted := decide_ok (mapError_ok.mp decided)
      obtain ⟨event, page, events, step⟩ := accepted.step
      obtain ⟨_, effects⟩ := decision
      dsimp only at events
      subst events
      let entry : Entry := ⟨intentFingerprint lib command,
        ⟨(journal.stream command.pageId).length + 1, event⟩, effects⟩
      have enters : Enters lib journal command entry state page :=
        ⟨prior, unclaimed, replayed, accepted, step, rfl, rfl⟩
      have wrote := (holds.record recorded distinct documented derived known pageUuid enters).mp
        committed
      obtain ⟨_, rfl, rfl⟩ := wrote
      have after : Recorded lib commandIds (journal ++ [entry]) :=
        .accept recorded derived known enters
      have kept := holds.recorded after distinct enters
      rw [if_neg (kept.not_orphaned after)]
      exact ⟨journal ++ [entry], .recorded entry state page enters, after, kept⟩

/-- Where the columns take what it writes, the transaction answers as the journal does. -/
theorem postgres_step (recorded : Recorded lib commandIds journal)
    (distinct : StableIdsDistinct lib commandIds) (documented : lib.Documented)
    (derived : RouterDerived lib command) (known : command.commandId ∈ commandIds)
    (pageUuid : uuid command.pageId = .ok command.pageId) (commandId : NulFree command.commandId)
    (slug : ∀ c, command = .createPage c → NulFree c.slug)
    (fits : ∀ entry state page, Enters lib journal command entry state page → Fits entry page)
    (holds : Holds journal tables) :
    (tables.execute lib command).1 = (journal.execute lib command).1 ∧
      Holds (journal.execute lib command).2 (tables.execute lib command).2 := by
  have texts : bindTexts [command.commandId] = .ok () := bindTexts_ok.mpr (by simpa using commandId)
  have committed := holds.not_orphaned recorded
  unfold Tables.execute Tables.transaction Journal.execute
  simp only [texts, bind, Except.bind]
  cases prior : journal.find command.commandId with
  | some entry =>
    have row : tables.receipts.get? command.commandId = some entry.row := by
      rw [holds.receipts, prior]; rfl
    have print : entry.row.fingerprint = entry.fingerprint := rfl
    simp only [row, print]
    by_cases differs : entry.fingerprint = intentFingerprint lib command
    · simp only [differs, ne_eq, not_true_eq_false, if_false, pure, Except.pure, committed]
      exact ⟨rfl, holds⟩
    · simp only [differs, ne_eq, not_false_eq_true, if_true, true_and]
      exact holds
  | none =>
    have row : tables.receipts.get? command.commandId = none := by
      rw [holds.receipts, prior]; rfl
    simp only [row, holds.current recorded distinct derived known prior pageUuid slug]
    cases now : journal.current command with
    | error error => exact ⟨rfl, holds⟩
    | ok state =>
      simp only [Except.mapError]
      cases decided : command.decide lib state with
      | error error => exact ⟨rfl, holds⟩
      | ok decision =>
        have accepted := decide_ok decided
        obtain ⟨event, page, events, step⟩ := accepted.step
        obtain ⟨unclaimed, replayed⟩ := Journal.current_ok now
        obtain ⟨_, effects⟩ := decision
        dsimp only at events
        subst events
        let entry : Entry := ⟨intentFingerprint lib command,
          ⟨(journal.stream command.pageId).length + 1, event⟩, effects⟩
        have enters : Enters lib journal command entry state page :=
          ⟨prior, unclaimed, replayed, accepted, step, rfl, rfl⟩
        have fit := fits entry state page enters
        have columns : ∀ value ∈ (if state.isSome then page.columns else page.slug :: page.columns),
            NulFree value := by
          intro value member
          split at member
          · exact fit.columns value (List.mem_cons_of_mem _ member)
          · exact fit.columns value member
        have wrote : tables.record (intentFingerprint lib command) command state
            ⟨[event], effects⟩ =
            .ok (entry.receipt, tables.recorded command entry page) :=
          (holds.record recorded distinct documented derived known pageUuid enters).mpr
            ⟨⟨fit.event, columns, fit.sized, fit.effects⟩, rfl, rfl⟩
        have after : Recorded lib commandIds (journal ++ [entry]) :=
          .accept recorded derived known enters
        have kept := holds.recorded after distinct enters
        simp only [wrote]
        rw [if_neg (kept.not_orphaned after)]
        exact ⟨rfl, kept⟩

end Record

/-- Every run of the tables is a run of some journal. -/
theorem postgres_runs {lib : Stdlib} {commandIds : Set String}
    (distinct : StableIdsDistinct lib commandIds)
    (documented : lib.Documented) (commands : List WikiCommand)
    (derived : ∀ command ∈ commands, RouterDerived lib command)
    (known : ∀ command ∈ commands, command.commandId ∈ commandIds)
    (pages : ∀ command ∈ commands, ∃ commandId, command.pageId = stableId lib commandId .page) :
    ∃ journal, Recorded lib commandIds journal ∧
      Holds journal (serve (Tables.execute lib) {} commands).2 := by
  apply serve_invariant (Tables.execute lib)
    (fun command => RouterDerived lib command ∧ command.commandId ∈ commandIds ∧
      uuid command.pageId = .ok command.pageId)
    (fun tables => ∃ journal, Recorded lib commandIds journal ∧ Holds journal tables)
  · rintro tables command ⟨from_, id, page⟩ ⟨journal, recorded, holds⟩
    obtain ⟨next, _, later, after⟩ :=
      postgres_response recorded distinct documented from_ id page holds
    exact ⟨next, later, after⟩
  · intro command member
    obtain ⟨creator, same⟩ := pages command member
    exact ⟨derived command member, known command member, same ▸ documented.uuid5 _⟩
  · exact ⟨[], .empty, empty_holds⟩

end Metahumotonic.Wiki
