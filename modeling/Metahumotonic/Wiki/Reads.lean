import Metahumotonic.Wiki.History

/-! The read paths of both stores (`app/wiki/memory.py` and `app/wiki/postgres.py`). How a
query is matched with slugs and titles is a parameter: the case folding of one store and the
`ILIKE` of the other. -/
namespace Metahumotonic.Wiki

open Library

/-- `xs[low:high]`. -/
def sliced (low high : Int) (xs : List α) : List α :=
  let bound := fun i : Int => (if i < 0 then max 0 (xs.length + i) else i).toNat
  (xs.take (bound high)).drop (bound low)

theorem mem_sliced {low high : Int} {xs : List α} {x : α}
    (member : x ∈ sliced low high xs) : x ∈ xs :=
  List.mem_of_mem_take (List.mem_of_mem_drop member)

/-- The order of `(updated_at, page_id)`, newest first. -/
def PageState.NewerOrSame (a b : PageState) : Prop :=
  b.updatedAt < a.updatedAt ∨ (b.updatedAt = a.updatedAt ∧ b.pageId ≤ a.pageId)

instance (a b : PageState) : Decidable (a.NewerOrSame b) :=
  inferInstanceAs (Decidable (_ ∨ (_ ∧ _)))

/-- The order of `(occurred_at, event_id)`, newest first. -/
def StoredEvent.NewerOrSame (a b : StoredEvent) : Prop :=
  b.event.occurredAt < a.event.occurredAt ∨
    (b.event.occurredAt = a.event.occurredAt ∧ b.event.eventId ≤ a.event.eventId)

instance (a b : StoredEvent) : Decidable (a.NewerOrSame b) :=
  inferInstanceAs (Decidable (_ ∨ (_ ∧ _)))

/-- The event makes a revision. -/
def StoredEvent.revises (stored : StoredEvent) : Bool :=
  stored.event.eventType ∈ ["page_created", "revision_committed"]

structure Revision where
  revisionId : String
  title : String
  content : String
  contentHash : String
  occurredAt : Instant
  actorId : String
  deriving DecidableEq, Repr

/-- The revision that an event makes. -/
def StoredEvent.revision (stored : StoredEvent) : Option Revision :=
  match stored.event.data with
  | .pageCreated _ title content contentHash revisionId _ _ _ _ _
  | .revisionCommitted revisionId _ _ title content contentHash _ _ _ =>
    some ⟨revisionId, title, content, contentHash, stored.event.occurredAt, stored.event.actorId⟩
  | _ => none

namespace InMemoryWikiStore

def listPages (matching : String → PageState → Bool) (store : InMemoryWikiStore)
    (query : Option String)
    (limit offset : Int) : List PageState :=
  let visible := store.pages.values.filter (·.moderationStatus = .visible)
  let found := match query with
    | none | some "" => visible
    | some query => visible.filter (matching query)
  sliced offset (offset + limit) (found.insertionSort PageState.NewerOrSame)

def history (store : InMemoryWikiStore) (pageId : String) (limit offset : Int) : List StoredEvent :=
  match store.pages.get? pageId with
  | none => []
  | some page =>
    if page.moderationStatus = .quarantined then []
    else sliced offset (offset + limit) ((store.stream pageId).reverse.filter (·.revises))

def recentChanges (store : InMemoryWikiStore) (limit offset : Int) : List StoredEvent :=
  let visibleIds := (store.pages.entries.filter (·.2.moderationStatus = .visible)).map Prod.fst
  let events := (store.events.entries.filter (·.1 ∈ visibleIds)).flatMap Prod.snd
  sliced offset (offset + limit) ((events.filter (·.revises)).insertionSort StoredEvent.NewerOrSame)

def getRevision (store : InMemoryWikiStore) (pageId revisionId : String) : Option Revision :=
  match store.pages.get? pageId with
  | none => none
  | some page =>
    if page.moderationStatus = .quarantined then none
    else (store.stream pageId).findSome? fun stored =>
      stored.revision.filter (·.revisionId = revisionId)

end InMemoryWikiStore

namespace Tables

/-- `LIMIT` and `OFFSET` of a query. -/
def limited (limit offset : Int) (rows : List α) : Except Raised (List α) :=
  if limit < 0 ∨ offset < 0 then .error (.databaseError none)
  else .ok ((rows.drop offset.toNat).take limit.toNat)

/-- The row of the page is joined, and it is visible. -/
def visible (tables : Tables) (pageId : String) : Bool :=
  (tables.pages.get? pageId).any (·.moderationStatus = .visible)

def getPageBySlug (tables : Tables) (slug : String) (includeQuarantined : Bool) :
    Except Raised (Option PageState) := do
  bindTexts [slug]
  return tables.pages.values.find? fun page =>
    page.slug = slug && (includeQuarantined || page.moderationStatus = .visible)

def visiblePages (tables : Tables) : List PageState :=
  tables.pages.values.filter (·.moderationStatus = .visible)

def listed (matching : String → PageState → Bool) (tables : Tables) : Option String → Except Raised
    (List PageState)
  | none | some "" => .ok tables.visiblePages
  | some query => do
    bindTexts [query]
    return tables.visiblePages.filter (matching query)

def listPages (matching : String → PageState → Bool) (tables : Tables) (query : Option String)
    (limit offset : Int) : Except Raised (List PageState) := do
  let rows ← tables.listed matching query
  limited limit offset (rows.insertionSort PageState.NewerOrSame)

def history (tables : Tables) (pageId : String) (limit offset : Int) : Except Raised
    (List StoredEvent) := do
  let id ← uuid pageId
  let rows := tables.events.filter fun row =>
    row.event.pageId = id && tables.visible row.event.pageId && row.revises
  limited limit offset (rows.insertionSort fun a b => b.index ≤ a.index)

def recentChanges (tables : Tables) (limit offset : Int) : Except Raised (List StoredEvent) :=
  let rows := tables.events.filter fun row => tables.visible row.event.pageId && row.revises
  limited limit offset (rows.insertionSort StoredEvent.NewerOrSame)

def getRevision (tables : Tables) (pageId revisionId : String) : Except Raised
    (Option Revision) := do
  let id ← uuid pageId
  bindTexts [revisionId]
  let rows := tables.events.filter fun row =>
    row.event.pageId = id && tables.visible row.event.pageId
  return rows.findSome? fun row => row.revision.filter (·.revisionId = revisionId)

end Tables

/-- The five read paths of a store. -/
structure Reads where
  getPageBySlug : String → Except Raised (Option PageState)
  listPages : Option String → Int → Int → Except Raised (List PageState)
  history : String → Int → Int → Except Raised (List StoredEvent)
  recentChanges : Int → Int → Except Raised (List StoredEvent)
  getRevision : String → String → Except Raised (Option Revision)

def InMemoryWikiStore.reads (matching : String → PageState → Bool)
    (store : InMemoryWikiStore) : Reads where
  getPageBySlug slug := .ok (store.getPageBySlug slug false)
  listPages query limit offset := .ok (store.listPages matching query limit offset)
  history pageId limit offset := .ok (store.history pageId limit offset)
  recentChanges limit offset := .ok (store.recentChanges limit offset)
  getRevision pageId revisionId := .ok (store.getRevision pageId revisionId)

def Tables.reads (matching : String → PageState → Bool) (tables : Tables) : Reads where
  getPageBySlug slug := tables.getPageBySlug slug false
  listPages := tables.listPages matching
  history := tables.history
  recentChanges := tables.recentChanges
  getRevision := tables.getRevision

/-- None of the read paths returns anything of the page. -/
structure Reads.Hides (reads : Reads) (stream : String → List StoredEvent)
    (pageId : String) : Prop where
  page : ∀ slug found, reads.getPageBySlug slug = .ok (some found) → found.pageId ≠ pageId
  pages : ∀ query limit offset found, reads.listPages query limit offset = .ok found →
    ∀ page ∈ found, page.pageId ≠ pageId
  history : ∀ id limit offset found, reads.history id limit offset = .ok found →
    ∀ stored ∈ found, stored.event.pageId ≠ pageId
  recent : ∀ limit offset found, reads.recentChanges limit offset = .ok found →
    ∀ stored ∈ found, stored.event.pageId ≠ pageId
  revision : ∀ id revisionId found, reads.getRevision id revisionId = .ok (some found) →
    id ≠ pageId ∧ ∃ other, other ≠ pageId ∧ ∃ stored ∈ stream other, stored.revision = some found

/-- What a store needs to hide a quarantined page: pages and events are kept under the id of
their page. -/
structure Sourced (pages : Table String PageState) (stream : String → List StoredEvent) : Prop where
  pages : ∀ pageId page, pages.get? pageId = some page → page.pageId = pageId
  events : ∀ pageId, ∀ stored ∈ stream pageId, stored.event.pageId = pageId

section Hiding

variable {pageId : String} {page : PageState} (matching : String → PageState → Bool)

theorem InMemoryWikiStore.hides {store : InMemoryWikiStore}
    (sourced : Sourced store.pages store.stream)
    (found : store.pages.get? pageId = some page)
    (quarantined : page.moderationStatus = .quarantined) :
    (store.reads matching).Hides store.stream pageId where
  page slug other answer := by
    simp only [reads, InMemoryWikiStore.getPageBySlug, Except.ok.injEq] at answer
    rintro rfl
    split at answer
    · rename_i row looked
      split at answer
      · cases answer
      · rename_i shown
        cases answer
        obtain ⟨id, _, there⟩ := Option.bind_eq_some_iff.mp looked
        split at there
        · cases there
        · have home := sourced.pages id other there
          rw [home, there] at found
          cases found
          exact shown ⟨quarantined, trivial⟩
    · cases answer
  pages query limit offset listed answer other member := by
    simp only [reads, listPages, Except.ok.injEq] at answer
    subst answer
    have inside := (List.mem_insertionSort _).mp (mem_sliced member)
    have visible : other ∈ store.pages.values.filter (·.moderationStatus = .visible) := by
      split at inside
      · exact inside
      · exact inside
      · exact (List.mem_filter.mp inside).1
    obtain ⟨there, shown⟩ := List.mem_filter.mp visible
    obtain ⟨id, kept⟩ := (Table.mem_values _ _).mp there
    rintro rfl
    have home := sourced.pages id other kept
    rw [home, kept] at found
    cases found
    rw [quarantined] at shown
    simp at shown
  history id limit offset listed answer stored member := by
    simp only [reads, InMemoryWikiStore.history, Except.ok.injEq] at answer
    subst answer
    rintro rfl
    split at member
    · cases member
    · rename_i row looked
      split at member
      · cases member
      · rename_i shown
        have inside := List.mem_reverse.mp (List.mem_filter.mp (mem_sliced member)).1
        rw [sourced.events id stored inside, looked] at found
        cases found
        exact shown quarantined
  recent limit offset listed answer stored member := by
    simp only [reads, recentChanges, Except.ok.injEq] at answer
    subst answer
    have inside := (List.mem_filter.mp ((List.mem_insertionSort _).mp (mem_sliced member))).1
    obtain ⟨⟨id, events⟩, listed, there⟩ := List.mem_flatMap.mp inside
    obtain ⟨kept, visible⟩ := List.mem_filter.mp listed
    obtain ⟨⟨home, row⟩, paged, same⟩ := List.mem_map.mp (of_decide_eq_true visible)
    cases same
    obtain ⟨entered, shown⟩ := List.mem_filter.mp paged
    have streamed : store.stream id = events := by
      rw [InMemoryWikiStore.stream, (Table.mem_entries _ _ _).mp kept]
      rfl
    rintro rfl
    rw [sourced.events id stored (streamed ▸ there), (Table.mem_entries _ _ _).mp entered] at found
    cases found
    rw [quarantined] at shown
    simp at shown
  revision id revisionId revision answer := by
    simp only [reads, InMemoryWikiStore.getRevision, Except.ok.injEq] at answer
    split at answer
    · cases answer
    · rename_i row looked
      split at answer
      · cases answer
      · rename_i shown
        have apart : id ≠ pageId := by
          rintro rfl
          rw [looked] at found
          cases found
          exact shown quarantined
        obtain ⟨stored, there, made⟩ := List.exists_of_findSome?_eq_some answer
        exact ⟨apart, id, apart, stored, there, (Option.filter_eq_some_iff.mp made).1⟩

theorem limited_ok {limit offset : Int} {rows found : List α}
    (ok : Tables.limited limit offset rows = .ok found)
    {row : α} (member : row ∈ found) : row ∈ rows := by
  unfold Tables.limited at ok
  split at ok
  · cases ok
  · cases ok
    exact List.mem_of_mem_drop (List.mem_of_mem_take member)

theorem Tables.hides {tables : Tables} (sourced : Sourced tables.pages tables.stream)
    (canonical : uuid pageId = .ok pageId)
    (found : tables.pages.get? pageId = some page)
    (quarantined : page.moderationStatus = .quarantined) :
    (tables.reads matching).Hides tables.stream pageId := by
  have concealed : tables.visible pageId = false := by simp [Tables.visible, found, quarantined]
  have shown : ∀ other ∈ tables.pages.values, other.moderationStatus = .visible →
      other.pageId ≠ pageId := by
    rintro other there visible rfl
    obtain ⟨id, kept⟩ := (Table.mem_values _ _).mp there
    rw [sourced.pages id other kept, kept] at found
    cases found
    rw [quarantined] at visible
    cases visible
  constructor
  · intro slug other answer
    obtain ⟨_, _, answer⟩ := bind_ok.mp answer
    have looked := pure_ok.mp answer
    have holds := List.find?_some looked
    simp only [Bool.false_or, Bool.and_eq_true, decide_eq_true_eq] at holds
    exact shown other (List.mem_of_find?_eq_some looked) holds.2
  · intro query limit offset listed answer other member
    obtain ⟨rows, read, answer⟩ := bind_ok.mp answer
    have inside := (List.mem_insertionSort _).mp (limited_ok answer member)
    have visible : other ∈ tables.visiblePages := by
      unfold Tables.listed at read
      split at read
      · cases read
        exact inside
      · cases read
        exact inside
      · obtain ⟨_, _, read⟩ := bind_ok.mp read
        rw [← pure_ok.mp read] at inside
        exact (List.mem_filter.mp inside).1
    obtain ⟨there, open_⟩ := List.mem_filter.mp visible
    exact shown other there (of_decide_eq_true open_)
  · intro id limit offset listed answer stored member
    obtain ⟨canon, _, answer⟩ := bind_ok.mp answer
    have inside := (List.mem_insertionSort _).mp (limited_ok answer member)
    have holds := (List.mem_filter.mp inside).2
    simp only [Bool.and_eq_true] at holds
    rintro rfl
    rw [concealed] at holds
    cases holds.1.2
  · intro limit offset listed answer stored member
    have inside := (List.mem_insertionSort _).mp (limited_ok answer member)
    have holds := (List.mem_filter.mp inside).2
    simp only [Bool.and_eq_true] at holds
    rintro rfl
    rw [concealed] at holds
    cases holds.1
  · intro id revisionId revision answer
    obtain ⟨canon, same, answer⟩ := bind_ok.mp answer
    obtain ⟨_, _, answer⟩ := bind_ok.mp answer
    obtain ⟨stored, there, made⟩ := List.exists_of_findSome?_eq_some (pure_ok.mp answer)
    obtain ⟨inside, holds⟩ := List.mem_filter.mp there
    simp only [Bool.and_eq_true, decide_eq_true_eq] at holds
    have apart : stored.event.pageId ≠ pageId := by
      rintro rfl
      rw [concealed] at holds
      cases holds.2
    refine ⟨?_, stored.event.pageId, apart, stored, ?_, (Option.filter_eq_some_iff.mp made).1⟩
    · rintro rfl
      rw [canonical] at same
      cases same
      exact apart holds.1
    · exact List.mem_filter.mpr ⟨inside, by simp⟩

end Hiding

end Metahumotonic.Wiki
