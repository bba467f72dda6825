import Metahumotonic.Library.Run
import Metahumotonic.Wiki.Recorded

/-! The in-memory store is the journal: from related states it gives the journal's
answers and stays related. -/
namespace Metahumotonic.Wiki

open Library InMemoryWikiStore

theorem effectPrefix_cases (data : EventData) :
    data.effectPrefix = "review:" ∨ data.effectPrefix = "report:" := by
  cases data <;> simp [EventData.effectPrefix]

theorem effectPrefix_append_injective (c d : EventData) {a b : String}
    (same : c.effectPrefix ++ a = d.effectPrefix ++ b) : a = b := by
  have chars := congrArg String.toList same
  rcases effectPrefix_cases c with hc | hc <;> rcases effectPrefix_cases d with hd | hd <;>
    simp only [hc, hd, String.toList_append] at chars
  · exact String.toList_inj.mp (List.append_cancel_left chars)
  · simp at chars
  · simp at chars
  · exact String.toList_inj.mp (List.append_cancel_left chars)

theorem Journal.mem_records {journal : Journal} {record : OutboxRecord} :
    record ∈ journal.records ↔ ∃ entry ∈ journal, record ∈ entry.records := List.mem_flatMap

namespace Recorded

variable {lib : Stdlib} {commandIds : Set String} {journal : Journal}

/-- The outbox records of an entry: one for a review or a report, none otherwise. -/
theorem entry_records (recorded : Recorded lib commandIds journal) {entry : Entry}
    (member : entry ∈ journal) :
    (entry.event.data.notifies = true ∧ ∃ record, entry.records = [record] ∧
      record.effect.eventId = entry.event.eventId ∧
      record.effect.effectId = entry.event.data.effectPrefix ++ entry.event.eventId) ∨
    (entry.event.data.notifies = false ∧ entry.records = []) := by
  obtain ⟨_, _, command, _, _, _, _, _, _, enters⟩ := recorded.provenance member
  rcases enters.accepted.effects rfl with ⟨notifies, effect, one, event, id⟩ | ⟨silent, none⟩
  · have effects : entry.effects = [effect] := one
    exact .inl ⟨notifies,
      { effect := effect, status := .pending, createdAt := entry.event.occurredAt },
      by rw [Entry.records, effects]; rfl, event, id⟩
  · have effects : entry.effects = [] := none
    exact .inr ⟨silent, by rw [Entry.records, effects]; rfl⟩

theorem record_event (recorded : Recorded lib commandIds journal) {entry : Entry}
    (member : entry ∈ journal) {record : OutboxRecord} (mine : record ∈ entry.records) :
    entry.event.data.notifies = true ∧ entry.records = [record] ∧
      record.effect.eventId = entry.event.eventId ∧
      record.effect.effectId = entry.event.data.effectPrefix ++ entry.event.eventId := by
  rcases recorded.entry_records member with ⟨notifies, only, one, event, id⟩ | ⟨_, none⟩
  · have same : record = only := by simpa [one] using mine
    subst same
    exact ⟨notifies, one, event, id⟩
  · rw [none] at mine
    cases mine

/-- No two entries use one effect id. -/
theorem effect_unique (recorded : Recorded lib commandIds journal)
    (distinct : StableIdsDistinct lib commandIds) {a b : Entry} (ha : a ∈ journal)
    (hb : b ∈ journal)
    {r s : OutboxRecord} (hr : r ∈ a.records) (hs : s ∈ b.records)
    (same : r.effect.effectId = s.effect.effectId) : a = b := by
  have left := (recorded.record_event ha hr).2.2.2
  have right := (recorded.record_event hb hs).2.2.2
  exact recorded.event_unique distinct ha hb
    (effectPrefix_append_injective _ _ (left.symm.trans (same.trans right)))

/-- A page that a fresh command would create has no events yet. -/
theorem stream_unused (recorded : Recorded lib commandIds journal)
    (distinct : StableIdsDistinct lib commandIds) {commandId : String}
    (known : commandId ∈ commandIds)
    (unused : journal.find commandId = none) :
    journal.stream (stableId lib commandId .page) = [] := by
  apply List.eq_nil_iff_forall_not_mem.mpr
  intro stored inStream
  obtain ⟨entry, member, _, page⟩ := Journal.mem_stream.mp inStream
  obtain ⟨first, before, same, id⟩ := recorded.created member
  have collide : stableId lib first.event.commandId .page = stableId lib commandId .page := by
    rw [← id, same, page]
  have reused := (distinct _ (recorded.commandIds_known before) _ known _ _ collide).1
  exact Journal.find_none.mp unused first before reused

end Recorded

theorem appendEvents_one {base : Nat} {state : Option PageState} {event : WikiEvent}
    {page : PageState} (evolved : evolve state event = .ok page) :
    appendEvents base state [event] = .ok (some page, [⟨base + 1, event⟩]) := by
  simp only [appendEvents, evolved]

/-- The store holds exactly what the journal says. -/
structure Represents (journal : Journal) (store : InMemoryWikiStore) : Prop where
  pages : ∀ pageId, journal.page pageId = .ok (store.pages.get? pageId)
  slugs : ∀ slug, store.slugToId.get? slug = (journal.creation slug).map (·.event.pageId)
  events : ∀ pageId, store.stream pageId = journal.stream pageId
  receipts : ∀ commandId, store.receipts.get? commandId = (journal.find commandId).map Entry.receipt
  outbox : ∀ effectId record, store.outbox.get? effectId = some record ↔
    record ∈ journal.records ∧ record.effect.effectId = effectId

theorem empty_represents : Represents [] {} where
  pages _ := rfl
  slugs _ := rfl
  events _ := rfl
  receipts _ := rfl
  outbox _ _ := by simp [Journal.records]

/-- The store after an accepted command whose one event gives `page`. -/
def InMemoryWikiStore.recorded (store : InMemoryWikiStore) (command : WikiCommand) (entry : Entry)
    (page : PageState) : InMemoryWikiStore where
  slugToId := claimSlug store.slugToId command
  pages := store.pages.set command.pageId page
  events := store.events.set command.pageId (store.stream command.pageId ++ [entry.stored])
  outbox := queue command.occurredAt store.outbox entry.effects
  receipts := store.receipts.set command.commandId entry.receipt

theorem Accepted.claimSlug {lib : Stdlib} {state : Option PageState} {command : WikiCommand}
    {decision : Decision} {event : WikiEvent} (accepted : Accepted lib state command decision)
    (events : decision.events = [event]) (slugs : Table String String) :
    InMemoryWikiStore.claimSlug slugs command =
      match event.data.createdSlug with
      | some slug => slugs.set slug command.pageId
      | none => slugs := by
  cases accepted <;> obtain ⟨rfl, -⟩ := List.cons.inj events <;> rfl

section Record

variable {lib : Stdlib} {commandIds : Set String} {journal : Journal} {command : WikiCommand}
  {entry : Entry} {state : Option PageState} {page : PageState} {store : InMemoryWikiStore}

theorem Represents.slugs_recorded (represents : Represents journal store)
    (enters : Enters lib journal command entry state page) (slug : String) :
    (claimSlug store.slugToId command).get? slug =
      (Journal.creation (journal ++ [entry]) slug).map (·.event.pageId) := by
  rw [enters.creation, enters.accepted.claimSlug rfl]
  cases mine : entry.event.data.createdSlug with
  | none => simpa using represents.slugs slug
  | some claimed =>
    by_cases same : slug = claimed
    · simp [same, enters.step.eventPage]
    · have other : ¬ claimed = slug := fun h => same h.symm
      simpa [same, other] using represents.slugs slug

/-- No older record has the effect id of a record of the new entry. -/
theorem effect_fresh (recorded : Recorded lib commandIds (journal ++ [entry]))
    (distinct : StableIdsDistinct lib commandIds)
    (enters : Enters lib journal command entry state page) {old new : OutboxRecord}
    (hers : old ∈ journal.records) (mine : new ∈ entry.records) :
    old.effect.effectId ≠ new.effect.effectId := by
  intro same
  obtain ⟨older, member, owned⟩ := Journal.mem_records.mp hers
  have one := recorded.effect_unique distinct (List.mem_append_left _ member)
    (by simp) owned mine same
  exact Journal.find_none.mp enters.unused older member (one ▸ enters.step.commandId)

theorem outbox_recorded {outbox : Table String OutboxRecord}
    (same : ∀ effectId record, outbox.get? effectId = some record ↔
      record ∈ journal.records ∧ record.effect.effectId = effectId)
    (recorded : Recorded lib commandIds (journal ++ [entry]))
    (distinct : StableIdsDistinct lib commandIds)
    (enters : Enters lib journal command entry state page) (effectId : String)
      (record : OutboxRecord) :
    (queue command.occurredAt outbox entry.effects).get? effectId = some record ↔
      record ∈ Journal.records (journal ++ [entry]) ∧ record.effect.effectId = effectId := by
  have last : entry ∈ journal ++ [entry] := by simp
  have split : record ∈ Journal.records (journal ++ [entry]) ↔
      record ∈ journal.records ∨ record ∈ entry.records := by
    simp [Journal.records, List.flatMap_append]
  rw [split]
  cases effects : entry.effects with
  | nil =>
    have none : entry.records = [] := by rw [Entry.records, effects]; rfl
    simp only [queue, List.foldl_nil, none, List.not_mem_nil, or_false]
    exact same effectId record
  | cons effect rest =>
    have mine : { effect := effect, status := .pending, createdAt := entry.event.occurredAt } ∈
        entry.records := by
      rw [Entry.records, effects]
      exact List.mem_cons_self
    have single := (recorded.record_event last mine).2.1
    have done : rest = [] := by
      rw [Entry.records, effects] at single
      simpa using single
    subst done
    rw [single, List.mem_singleton]
    simp only [queue, List.foldl_cons, List.foldl_nil, Table.get?_set, ← enters.step.occurredAt]
    split
    · rename_i here
      subst here
      constructor
      · rintro ⟨⟩
        exact ⟨.inr rfl, rfl⟩
      · rintro ⟨old | new, id⟩
        · exact absurd id (effect_fresh recorded distinct enters old mine)
        · rw [new]
    · rename_i other
      rw [same]
      constructor
      · exact fun ⟨old, id⟩ => ⟨.inl old, id⟩
      · rintro ⟨old | new, id⟩
        · exact ⟨old, id⟩
        · exact absurd (by rw [← id, new]) other

theorem pages_recorded {pages : Table String PageState}
    (same : ∀ pageId, journal.page pageId = .ok (pages.get? pageId))
    (enters : Enters lib journal command entry state page) (pageId : String) :
    Journal.page (journal ++ [entry]) pageId = .ok
      ((pages.set command.pageId page).get? pageId) := by
  rw [Table.get?_set]
  split
  · rename_i here
    rw [here, enters.page_self]
  · rename_i other
    rw [enters.page_other other, same]

theorem Represents.recorded (represents : Represents journal store)
    (recorded : Recorded lib commandIds (journal ++ [entry]))
    (distinct : StableIdsDistinct lib commandIds)
    (enters : Enters lib journal command entry state page) :
    Represents (journal ++ [entry]) (store.recorded command entry page) where
  pages := pages_recorded represents.pages enters
  slugs := represents.slugs_recorded enters
  events pageId := by
    rw [enters.stream]
    simp only [InMemoryWikiStore.recorded, InMemoryWikiStore.stream, Table.get?_set]
    split
    · rename_i same
      subst same
      rw [← represents.events]
      rfl
    · exact represents.events pageId
  receipts commandId := by
    have unused : journal.find entry.event.commandId = none := enters.step.commandId ▸ enters.unused
    rw [Journal.find_snoc unused, enters.step.commandId]
    simp only [InMemoryWikiStore.recorded, Table.get?_set]
    split
    · rfl
    · exact represents.receipts commandId
  outbox := outbox_recorded represents.outbox recorded distinct enters

/-- The store decides on the same page as the journal. The page that a creation
would make is not there yet, because its id comes from an unused command id. -/
theorem Represents.current (represents : Represents journal store)
    (recorded : Recorded lib commandIds journal) (distinct : StableIdsDistinct lib commandIds)
    (derived : RouterDerived lib command) (known : command.commandId ∈ commandIds)
    (unused : journal.find command.commandId = none) :
    store.current command = journal.current command := by
  cases command with
  | createPage c =>
    have absent : journal.page c.pageId = .ok none := by
      have empty := recorded.stream_unused distinct known unused
      rw [Journal.page, derived.page c rfl]
      exact congrArg (fun stream => replay (stream.map (·.event))) empty
    have claimed : c.slug ∈ store.slugToId.keys ↔ (journal.creation c.slug).isSome = true := by
      rw [Table.mem_keys, represents.slugs]
      cases journal.creation c.slug <;> simp
    simp only [InMemoryWikiStore.current, Journal.current, absent, claimed]
  | _ => exact (represents.pages _).symm

/-- One command: the store answers as the journal does and stays related to it. -/
theorem memory_step (recorded : Recorded lib commandIds journal)
    (distinct : StableIdsDistinct lib commandIds) (derived : RouterDerived lib command)
    (known : command.commandId ∈ commandIds) (represents : Represents journal store) :
    (store.execute lib command).1 = (journal.execute lib command).1 ∧
      Represents (journal.execute lib command).2 (store.execute lib command).2 := by
  cases prior : journal.find command.commandId with
  | some entry =>
    have receipt : store.receipts.get? command.commandId = some entry.receipt := by
      rw [represents.receipts, prior]; rfl
    simp only [InMemoryWikiStore.execute, Journal.execute, receipt, prior]
    by_cases differs : entry.fingerprint = intentFingerprint lib command
    · have same : entry.receipt.fingerprint = intentFingerprint lib command := differs
      simp [differs, same, represents]
    · have other : entry.receipt.fingerprint ≠ intentFingerprint lib command := differs
      simp [differs, other, represents]
  | none =>
    have receipt : store.receipts.get? command.commandId = none := by
      rw [represents.receipts, prior]; rfl
    have current := represents.current recorded distinct derived known prior
    simp only [InMemoryWikiStore.execute, Journal.execute, receipt, prior, current]
    cases now : journal.current command with
    | error error => exact ⟨rfl, represents⟩
    | ok state =>
      dsimp only
      cases decided : command.decide lib state with
      | error error => exact ⟨rfl, represents⟩
      | ok decision =>
        have accepted := decide_ok decided
        obtain ⟨event, page, events, step⟩ := accepted.step
        obtain ⟨unclaimed, replayed⟩ := Journal.current_ok now
        have whole : decision = ⟨[event], decision.effects⟩ := by rw [← events]
        let entry : Entry := ⟨intentFingerprint lib command,
          ⟨(journal.stream command.pageId).length + 1, event⟩, decision.effects⟩
        have enters : Enters lib journal command entry state page :=
          ⟨prior, unclaimed, replayed, whole ▸ accepted, step, rfl, rfl⟩
        obtain ⟨before, record⟩ := recorded.pageRecord command.pageId
        have same : before = state := Except.ok.inj (record.replayed.symm.trans replayed)
        subst same
        have stream : (store.events.get? command.pageId).getD [] = journal.stream command.pageId :=
          represents.events command.pageId
        have after := represents.recorded (.accept recorded derived known enters) distinct enters
        have receipt : entry.receipt = _ := enters.receipt record
        simp only [events, appendEvents_one step.evolved, stream]
        refine ⟨congrArg Except.ok receipt.symm, ?_⟩
        simp only [InMemoryWikiStore.recorded, InMemoryWikiStore.stream, stream, receipt] at after
        exact after

end Record

/-- Every run of the store is a run of the journal. -/
theorem memory_refines {lib : Stdlib} {commandIds : Set String}
    (distinct : StableIdsDistinct lib commandIds) (commands : List WikiCommand)
    (derived : ∀ command ∈ commands, RouterDerived lib command)
    (known : ∀ command ∈ commands, command.commandId ∈ commandIds) :
    (serve (InMemoryWikiStore.execute lib) {} commands).1 =
    (serve (Journal.execute lib) [] commands).1 ∧
      Recorded lib commandIds (serve (Journal.execute lib) [] commands).2 ∧
      Represents (serve (Journal.execute lib) [] commands).2
        (serve (InMemoryWikiStore.execute lib) {} commands).2 := by
  have simulation := serve_simulation (InMemoryWikiStore.execute lib) (Journal.execute lib)
    (fun command => RouterDerived lib command ∧ command.commandId ∈ commandIds)
    (fun store journal => Recorded lib commandIds journal ∧ Represents journal store)
    (fun store journal command ok related =>
      have step := memory_step related.1 distinct ok.1 ok.2 related.2
      ⟨step.1, related.1.execute ok.1 ok.2, step.2⟩)
    commands (fun command member => ⟨derived command member, known command member⟩)
    {} [] ⟨.empty, empty_represents⟩
  exact simulation

end Metahumotonic.Wiki
