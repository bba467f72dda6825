import Metahumotonic.Wiki.MemoryRefinement

/-! The five maps of the in-memory store in every reachable state. -/
namespace Metahumotonic.Wiki

open Library

/-- What holds between the pages, the slugs, the events, the receipts and the outbox. -/
structure Consistent (store : InMemoryWikiStore) : Prop where
  replayed : ∀ pageId,
    replay ((store.stream pageId).map (·.event)) = .ok (store.pages.get? pageId)
  indices : ∀ pageId,
    (store.stream pageId).map (·.index) = List.range' 1 (store.stream pageId).length
  version : ∀ pageId page, store.pages.get? pageId = some page →
    page.streamVersion = (store.stream pageId).length ∧ page.pageId = pageId
  slugInjective : ∀ slug other pageId, store.slugToId.get? slug = some pageId →
    store.slugToId.get? other = some pageId → slug = other
  slugPage : ∀ pageId page, store.pages.get? pageId = some page →
    store.slugToId.get? page.slug = some pageId
  slugMapped : ∀ slug pageId, store.slugToId.get? slug = some pageId →
    ∃ page, store.pages.get? pageId = some page ∧ page.slug = slug
  slugConstant : ∀ pageId page before after, store.pages.get? pageId = some page →
    (store.stream pageId).map (·.event) = before ++ after → before ≠ [] →
    ∃ earlier, replay before = .ok (some earlier) ∧ earlier.slug = page.slug
  homed : ∀ pageId, ∀ stored ∈ store.stream pageId, stored.event.pageId = pageId
  eventIds : ∀ p q, ∀ a ∈ store.stream p, ∀ b ∈ store.stream q,
    a.event.eventId = b.event.eventId → p = q ∧ a = b
  receipted : ∀ pageId, ∀ stored ∈ store.stream pageId,
    ∃ receipt, store.receipts.get? stored.event.commandId = some receipt
  receiptEvents : ∀ commandId receipt, store.receipts.get? commandId = some receipt →
    receipt.commandId = commandId ∧ receipt.eventIds.Nodup ∧
    ∀ eventId, eventId ∈ receipt.eventIds ↔
      ∃ pageId, ∃ stored ∈ store.stream pageId,
        stored.event.commandId = commandId ∧ stored.event.eventId = eventId
  receiptVersion : ∀ commandId receipt, store.receipts.get? commandId = some receipt →
    ∃ last ∈ store.stream receipt.pageId, last.event.commandId = commandId ∧
      last.index = receipt.streamVersion ∧
      ∀ pageId, ∀ stored ∈ store.stream pageId, stored.event.commandId = commandId →
        pageId = receipt.pageId ∧ stored.index ≤ receipt.streamVersion
  outboxed : ∀ pageId, ∀ stored ∈ store.stream pageId, stored.event.data.notifies = true →
    ∃ effectId, ∀ other, other = effectId ↔ ∃ record, store.outbox.get? other = some record ∧
      record.effect.eventId = stored.event.eventId
  outboxOnly : ∀ effectId record, store.outbox.get? effectId = some record →
    record.effect.effectId = effectId ∧ ∃ pageId, ∃ stored ∈ store.stream pageId,
      stored.event.data.notifies = true ∧ record.effect.eventId = stored.event.eventId

namespace Represents

variable {lib : Stdlib} {commandIds : Set String} {journal : Journal} {store : InMemoryWikiStore}

theorem page (represents : Represents journal store) {pageId : String} {page : PageState}
    (found : store.pages.get? pageId = some page) : journal.page pageId = .ok (some page) := by
  rw [represents.pages, found]

theorem stored (represents : Represents journal store) {pageId : String} {stored : StoredEvent} :
    stored ∈ store.stream pageId ↔
      ∃ entry ∈ journal, entry.stored = stored ∧ entry.event.pageId = pageId := by
  rw [represents.events]
  exact Journal.mem_stream

theorem receipt (represents : Represents journal store) {commandId : String}
    {receipt : CommandReceipt} (found : store.receipts.get? commandId = some receipt) :
    ∃ entry ∈ journal, entry.event.commandId = commandId ∧ receipt = entry.receipt := by
  rw [represents.receipts] at found
  cases prior : journal.find commandId with
  | none => rw [prior] at found; cases found
  | some entry =>
    rw [prior] at found
    cases found
    exact ⟨entry, List.mem_of_find?_eq_some prior,
      by simpa [Journal.find] using List.find?_some prior, rfl⟩

theorem slug (represents : Represents journal store) (recorded : Recorded lib commandIds journal)
    {slug pageId : String} (found : store.slugToId.get? slug = some pageId) :
    ∃ entry ∈ journal, entry.event.data.createdSlug = some slug ∧ entry.event.pageId = pageId := by
  rw [represents.slugs] at found
  cases creation : journal.creation slug with
  | none => rw [creation] at found; cases found
  | some entry =>
    rw [creation] at found
    obtain ⟨member, claims⟩ := (recorded.creation_iff slug entry).mp creation
    exact ⟨entry, member, claims, by simpa using found⟩

theorem slug_of_page (represents : Represents journal store)
    (recorded : Recorded lib commandIds journal) {pageId : String} {page : PageState}
    (found : store.pages.get? pageId = some page) :
    store.slugToId.get? page.slug = some pageId := by
  obtain ⟨entry, member, same, claims⟩ := recorded.page_slug (represents.page found)
  rw [represents.slugs, (recorded.creation_iff page.slug entry).mpr ⟨member, claims⟩]
  exact congrArg some same

theorem page_of_slug (represents : Represents journal store)
    (recorded : Recorded lib commandIds journal) (distinct : StableIdsDistinct lib commandIds)
    {slug pageId : String} (found : store.slugToId.get? slug = some pageId) :
    ∃ page, store.pages.get? pageId = some page ∧ page.slug = slug := by
  obtain ⟨entry, member, claims, same⟩ := represents.slug recorded found
  obtain ⟨page, replayed, named⟩ := recorded.slug_page distinct member claims
  rw [same, represents.pages] at replayed
  exact ⟨page, Except.ok.inj replayed, named⟩

theorem outboxed (represents : Represents journal store)
    (recorded : Recorded lib commandIds journal)
    (distinct : StableIdsDistinct lib commandIds) {entry : Entry} (member : entry ∈ journal)
    (notifies : entry.event.data.notifies = true) :
    ∃ effectId, ∀ other, other = effectId ↔ ∃ record, store.outbox.get? other = some record ∧
      record.effect.eventId = entry.event.eventId := by
  rcases recorded.entry_records member with ⟨_, record, one, event, _⟩ | ⟨silent, _⟩
  · have mine : record ∈ entry.records := by rw [one]; exact List.mem_singleton_self record
    refine ⟨record.effect.effectId, fun other => ⟨?_, ?_⟩⟩
    · rintro rfl
      exact ⟨record, (represents.outbox _ _).mpr
        ⟨Journal.mem_records.mpr ⟨entry, member, mine⟩, rfl⟩, event⟩
    · rintro ⟨found, present, same⟩
      obtain ⟨listed, id⟩ := (represents.outbox _ _).mp present
      obtain ⟨owner, hers, owned⟩ := Journal.mem_records.mp listed
      have eventOf := (recorded.record_event hers owned).2.2.1
      have unique := recorded.event_unique distinct hers member (by rw [← eventOf, same])
      rw [unique, one, List.mem_singleton] at owned
      rw [← id, owned]
  · rw [silent] at notifies
    cases notifies

theorem consistent (represents : Represents journal store)
    (recorded : Recorded lib commandIds journal) (distinct : StableIdsDistinct lib commandIds) :
    Consistent store where
  replayed pageId := by
    rw [represents.events]
    exact represents.pages pageId
  indices pageId := by
    rw [represents.events]
    exact recorded.stream_index pageId
  version pageId page found := by
    obtain ⟨state, record⟩ := recorded.pageRecord pageId
    have same : state = some page :=
      Except.ok.inj (record.replayed.symm.trans (represents.page found))
    subst same
    rw [represents.events]
    exact ⟨record.version, record.pageId page rfl⟩
  slugInjective slug other pageId left right := by
    obtain ⟨page, found, named⟩ := represents.page_of_slug recorded distinct left
    obtain ⟨page', found', named'⟩ := represents.page_of_slug recorded distinct right
    rw [found] at found'
    rw [← named, ← named', Option.some.inj found']
  slugPage pageId page found := represents.slug_of_page recorded found
  slugMapped slug pageId found := represents.page_of_slug recorded distinct found
  slugConstant pageId page before after found split nonempty := by
    have replayed := represents.page found
    rw [Journal.page, ← represents.events, split] at replayed
    exact replay_prefix_slug nonempty replayed
  homed pageId stored member := by
    obtain ⟨entry, _, rfl, home⟩ := represents.stored.mp member
    exact home
  eventIds p q a ha b hb same := by
    obtain ⟨left, inLeft, rfl, hp⟩ := represents.stored.mp ha
    obtain ⟨right, inRight, rfl, hq⟩ := represents.stored.mp hb
    have one := recorded.event_unique distinct inLeft inRight same
    exact ⟨by rw [← hp, ← hq, one], by rw [one]⟩
  receipted pageId stored member := by
    obtain ⟨entry, inJournal, rfl, _⟩ := represents.stored.mp member
    cases prior : journal.find entry.event.commandId with
    | none => exact absurd rfl (Journal.find_none.mp prior entry inJournal)
    | some other => exact ⟨other.receipt, by rw [represents.receipts]; exact congrArg _ prior⟩
  receiptEvents commandId receipt found := by
    obtain ⟨entry, member, id, rfl⟩ := represents.receipt found
    refine ⟨id, List.nodup_singleton _, fun eventId => ⟨?_, ?_⟩⟩
    · intro listed
      have same : eventId = entry.event.eventId := List.mem_singleton.mp listed
      exact ⟨entry.event.pageId, entry.stored, represents.stored.mpr ⟨entry, member, rfl, rfl⟩, id,
        same.symm⟩
    · rintro ⟨pageId, stored, inStream, hers, rfl⟩
      obtain ⟨other, inJournal, rfl, _⟩ := represents.stored.mp inStream
      have one := recorded.entry_unique inJournal member (hers.trans id.symm)
      exact List.mem_singleton.mpr (by rw [one]; rfl)
  receiptVersion commandId receipt found := by
    obtain ⟨entry, member, id, rfl⟩ := represents.receipt found
    refine ⟨entry.stored, represents.stored.mpr ⟨entry, member, rfl, rfl⟩, id, rfl, ?_⟩
    intro pageId stored inStream hers
    obtain ⟨other, inJournal, rfl, home⟩ := represents.stored.mp inStream
    have one := recorded.entry_unique inJournal member (hers.trans id.symm)
    subst one
    exact ⟨home.symm, Nat.le_refl _⟩
  outboxed pageId stored member notifies := by
    obtain ⟨entry, inJournal, rfl, _⟩ := represents.stored.mp member
    exact represents.outboxed recorded distinct inJournal notifies
  outboxOnly effectId record found := by
    obtain ⟨listed, id⟩ := (represents.outbox effectId record).mp found
    obtain ⟨entry, member, mine⟩ := Journal.mem_records.mp listed
    have facts := recorded.record_event member mine
    exact ⟨id, entry.event.pageId, entry.stored, represents.stored.mpr ⟨entry, member, rfl, rfl⟩,
      facts.1, facts.2.2.1⟩

end Represents

/-- A raise writes nothing. -/
theorem raise_unchanged (lib : Stdlib) (store : InMemoryWikiStore) (command : WikiCommand)
    (raised : Raised) (failed : (store.execute lib command).1 = .error raised) :
    (store.execute lib command).2 = store := by
  unfold InMemoryWikiStore.execute at failed ⊢
  dsimp only at failed ⊢
  split at failed
  · split at failed
    · rename_i differs; simp [*]
    · cases failed
  · split at failed
    · simp [*]
    · split at failed
      · simp [*]
      · split at failed
        · simp [*]
        · simp [*]
        · cases failed

/-- After any commands from the empty store the five maps agree, and a command that
is then raised on changes none of them. -/
theorem reachable_consistent (lib : Stdlib) (commands : List WikiCommand)
    (derived : ∀ command ∈ commands, RouterDerived lib command)
    (distinct : StableIdsDistinct lib {id | ∃ command ∈ commands, command.commandId = id}) :
    Consistent (serve (InMemoryWikiStore.execute lib) {} commands).2 ∧
    ∀ before command after error, commands = before ++ command :: after →
      ((serve (InMemoryWikiStore.execute lib) {} before).2.execute lib command).1 =
        .error (.wikiError error) →
      (serve (InMemoryWikiStore.execute lib) {} (before ++ [command])).2 =
        (serve (InMemoryWikiStore.execute lib) {} before).2 := by
  constructor
  · obtain ⟨_, recorded, represents⟩ := memory_refines distinct commands derived
      (fun command member => ⟨command, member, rfl⟩)
    exact represents.consistent recorded distinct
  · intro before command after error _ failed
    rw [serve_append]
    exact raise_unchanged lib _ command _ failed

theorem reachable_consistent_sample :
    Consistent (serve (InMemoryWikiStore.execute sampleLib) {} sampleCommands).2 ∧
    ∀ before command after error, sampleCommands = before ++ command :: after →
      ((serve (InMemoryWikiStore.execute sampleLib) {} before).2.execute sampleLib command).1 =
        .error (.wikiError error) →
      (serve (InMemoryWikiStore.execute sampleLib) {} (before ++ [command])).2 =
        (serve (InMemoryWikiStore.execute sampleLib) {} before).2 :=
  reachable_consistent sampleLib sampleCommands sample_derived sample_distinct

end Metahumotonic.Wiki
