import Metahumotonic.Library.Positions
import Metahumotonic.Wiki.PostgresRefinement

/-! Revisions of a page. Creations and commits form one chain, and every other
event speaks about the revision at the end of the chain. -/
namespace Metahumotonic.Wiki

open Library

namespace EventData

/-- The revision that an event makes, with the hash of its content. -/
def revision : EventData → Option (String × String)
  | .pageCreated _ _ _ contentHash revisionId _ _ _ _ _ => some (revisionId, contentHash)
  | .revisionCommitted revisionId _ _ _ _ contentHash _ _ _ => some (revisionId, contentHash)
  | _ => none

def parent : EventData → Option String
  | .revisionCommitted _ parentRevisionId _ _ _ _ _ _ _ => some parentRevisionId
  | _ => none

/-- The revision that a review is asked for. -/
def reviewed : EventData → Option String
  | .reviewSubmitted _ revisionId _ _ _ => some revisionId
  | _ => none

/-- What an event says about the head that it finds. -/
def Follows (head : Option (String × String)) : EventData → Prop
  | .pageCreated .. => head = none
  | .revisionCommitted _ parentRevisionId _ _ _ _ _ _ _ => head.map Prod.fst = some parentRevisionId
  | .reviewSubmitted _ revisionId _ _ _ => head.map Prod.fst = some revisionId
  | .pageReported _ revisionId contentHash _ _ => head = some (revisionId, contentHash)
  | .pageQuarantined _ revisionId contentHash _ _ _ => head = some (revisionId, contentHash)
  | .pageReleased _ revisionId contentHash _ _ _ => head = some (revisionId, contentHash)

end EventData

/-- The revision of the last creation or commit. -/
def headRevision (events : List WikiEvent) : Option (String × String) :=
  (events.filterMap (·.data.revision)).getLast?

/-- Every event follows the head that the events before it leave. -/
def Linear (events : List WikiEvent) : Prop :=
  ∀ before event after, events = before ++ event :: after → event.data.Follows (headRevision before)

theorem headRevision_snoc (events : List WikiEvent) (event : WikiEvent) :
    headRevision (events ++ [event]) = event.data.revision.or (headRevision events) := by
  unfold headRevision
  rw [List.filterMap_append]
  cases made : event.data.revision with
  | none => simp [made]
  | some revision => simp [made]

theorem linear_snoc {events : List WikiEvent} {event : WikiEvent} (linear : Linear events)
    (follows : event.data.Follows (headRevision events)) : Linear (events ++ [event]) := by
  intro before middle after split
  rcases split_snoc split with ⟨rfl, rfl, _⟩ | ⟨rest, inner⟩
  · exact follows
  · exact linear before middle rest inner

/-- A page and its events: the chain so far, and what is still open on it. -/
structure PageHistory (events : List WikiEvent) (state : Option PageState) : Prop where
  linear : Linear events
  head : headRevision events = state.map fun page => (page.headRevisionId, page.contentHash)
  made : ∀ event ∈ events, ∀ revision, event.data.revision = some revision →
    event.eventId = revision.1
  parents : ∀ parent ∈ events.filterMap (·.data.parent), ∃ event ∈ events, event.eventId = parent
  reviews : ∀ reviewed ∈ events.filterMap (·.data.reviewed), ∃ event ∈ events,
    event.eventId = reviewed
  unparented : ∀ page, state = some page → page.headRevisionId ∉ events.filterMap (·.data.parent)
  once : (events.filterMap (·.data.parent)).Nodup
  pending : ∀ page, state = some page →
    page.headRevisionId ∈ events.filterMap (·.data.reviewed) → page.reviewStatus = .submitted
  reviewedOnce : (events.filterMap (·.data.reviewed)).Nodup

theorem empty_history : PageHistory [] none where
  linear before event after split := by simp at split
  head := rfl
  made := by simp
  parents := by simp
  reviews := by simp
  unparented := by simp
  once := List.nodup_nil
  pending := by simp
  reviewedOnce := List.nodup_nil

/-- Where the values are distinct, a value comes from one element. -/
theorem eq_of_filterMap_nodup {α β : Type*} {f : α → Option β} {xs : List α}
    (nodup : (xs.filterMap f).Nodup) {x y : α} {v : β} (hx : x ∈ xs) (hy : y ∈ xs)
    (left : f x = some v) (right : f y = some v) : x = y := by
  induction xs with
  | nil => cases hx
  | cons z rest ih =>
    have tail : (rest.filterMap f).Nodup := by
      cases made : f z with
      | none => rwa [List.filterMap_cons_none made] at nodup
      | some w =>
        rw [List.filterMap_cons_some made] at nodup
        exact (List.nodup_cons.mp nodup).2
    have alone : f z = some v → ∀ w ∈ rest, f w ≠ some v := by
      intro made w member also
      rw [List.filterMap_cons_some made] at nodup
      exact (List.nodup_cons.mp nodup).1 (List.mem_filterMap.mpr ⟨w, member, also⟩)
    rcases List.mem_cons.mp hx with rfl | laterX
    · rcases List.mem_cons.mp hy with rfl | laterY
      · rfl
      · exact absurd right (alone left y laterY)
    · rcases List.mem_cons.mp hy with rfl | laterY
      · exact absurd left (alone right x laterX)
      · exact ih tail laterX laterY

theorem filterMap_snoc (f : WikiEvent → Option String) (events : List WikiEvent)
    (event : WikiEvent) :
    (events ++ [event]).filterMap f = events.filterMap f ++ (f event).toList := by
  cases made : f event <;> simp [made]

namespace PageHistory

variable {events : List WikiEvent} {event : WikiEvent} {old page : PageState}

/-- The head of a page is the id of one of its events. -/
theorem head_made (history : PageHistory events (some old)) :
    ∃ event ∈ events, event.eventId = old.headRevisionId := by
  have last := List.mem_of_getLast? history.head
  obtain ⟨event, member, made⟩ := List.mem_filterMap.mp last
  exact ⟨event, member, history.made event member _ made⟩

theorem made_snoc {state : Option PageState} (history : PageHistory events state)
    (own : ∀ revision, event.data.revision = some revision → event.eventId = revision.1) :
    ∀ e ∈ events ++ [event], ∀ revision, e.data.revision = some revision →
      e.eventId = revision.1 := by
  intro e member
  rcases List.mem_append.mp member with before | last
  · exact history.made e before
  · rw [List.mem_singleton.mp last]
    exact own

theorem known_snoc {ids more : List String} (known : ∀ id ∈ ids, ∃ e ∈ events, e.eventId = id)
    (added : ∀ id ∈ more, ∃ e ∈ events, e.eventId = id) :
    ∀ id ∈ ids ++ more, ∃ e ∈ events ++ [event], e.eventId = id := by
  intro id member
  have before : ∃ e ∈ events, e.eventId = id := by
    rcases List.mem_append.mp member with old | new
    · exact known id old
    · exact added id new
  obtain ⟨e, inside, same⟩ := before
  exact ⟨e, List.mem_append_left _ inside, same⟩

theorem create (made : event.data.revision = some (page.headRevisionId, page.contentHash))
    (follows : event.data.Follows none) (parent : event.data.parent = none)
    (reviewed : event.data.reviewed = none) (own : event.eventId = page.headRevisionId) :
    PageHistory ([] ++ [event]) (some page) where
  linear := linear_snoc empty_history.linear follows
  head := by rw [headRevision_snoc, made]; rfl
  made := empty_history.made_snoc fun revision same => by rw [made] at same; cases same; exact own
  parents := by rw [filterMap_snoc, parent]; nofun
  reviews := by rw [filterMap_snoc, reviewed]; nofun
  unparented _ _ := by rw [filterMap_snoc, parent]; nofun
  once := by rw [filterMap_snoc, parent]; exact List.nodup_nil
  pending _ _ := by rw [filterMap_snoc, reviewed]; nofun
  reviewedOnce := by rw [filterMap_snoc, reviewed]; exact List.nodup_nil

/-- A commit closes the head it was based on and becomes the head. -/
theorem commit (history : PageHistory events (some old))
    (fresh : ∀ e ∈ events, e.eventId ≠ event.eventId)
    (made : event.data.revision = some (page.headRevisionId, page.contentHash))
    (parent : event.data.parent = some old.headRevisionId)
    (follows : event.data.Follows (headRevision events)) (reviewed : event.data.reviewed = none)
    (own : event.eventId = page.headRevisionId) :
    PageHistory (events ++ [event]) (some page) where
  linear := linear_snoc history.linear follows
  head := by rw [headRevision_snoc, made]; rfl
  made := history.made_snoc fun revision same => by rw [made] at same; cases same; exact own
  parents := by
    rw [filterMap_snoc, parent]
    refine known_snoc history.parents fun id member => ?_
    rw [List.mem_singleton.mp member]
    exact history.head_made
  reviews := by
    rw [filterMap_snoc, reviewed]
    exact known_snoc history.reviews nofun
  unparented := by
    rintro _ ⟨⟩ member
    rw [filterMap_snoc, parent] at member
    have used : ∃ e ∈ events, e.eventId = page.headRevisionId := by
      rcases List.mem_append.mp member with before | last
      · exact history.parents _ before
      · rw [List.mem_singleton.mp last]
        exact history.head_made
    obtain ⟨e, inside, same⟩ := used
    exact fresh e inside (same.trans own.symm)
  once := by
    rw [filterMap_snoc, parent]
    exact List.nodup_append.mpr ⟨history.once, List.nodup_singleton _, fun a ha b hb same =>
      history.unparented old rfl ((List.mem_singleton.mp hb) ▸ same ▸ ha)⟩
  pending := by
    rintro _ ⟨⟩ member
    rw [filterMap_snoc, reviewed, Option.toList_none, List.append_nil] at member
    obtain ⟨e, inside, same⟩ := history.reviews _ member
    exact absurd (same.trans own.symm) (fresh e inside)
  reviewedOnce := by
    rw [filterMap_snoc, reviewed, Option.toList_none, List.append_nil]
    exact history.reviewedOnce

/-- An event that makes no revision leaves the chain as it is. -/
theorem keep (history : PageHistory events (some old)) (made : event.data.revision = none)
    (parent : event.data.parent = none) (follows : event.data.Follows (headRevision events))
    (head : page.headRevisionId = old.headRevisionId) (hash : page.contentHash = old.contentHash)
    (reviews : ∀ reviewed ∈ (events ++ [event]).filterMap (·.data.reviewed),
      ∃ e ∈ events ++ [event], e.eventId = reviewed)
    (pending : page.headRevisionId ∈ (events ++ [event]).filterMap (·.data.reviewed) →
      page.reviewStatus = .submitted)
    (reviewedOnce : ((events ++ [event]).filterMap (·.data.reviewed)).Nodup) :
    PageHistory (events ++ [event]) (some page) where
  linear := linear_snoc history.linear follows
  head := by
    rw [headRevision_snoc, made, Option.none_or, history.head]
    simp only [Option.map_some, head, hash]
  made := history.made_snoc fun revision same => by rw [made] at same; cases same
  parents := by
    rw [filterMap_snoc, parent]
    exact known_snoc history.parents nofun
  reviews := reviews
  unparented := by
    rintro _ ⟨⟩
    rw [filterMap_snoc, parent, Option.toList_none, List.append_nil, head]
    exact history.unparented old rfl
  once := by
    rw [filterMap_snoc, parent, Option.toList_none, List.append_nil]
    exact history.once
  pending := by
    rintro _ ⟨⟩
    exact pending
  reviewedOnce := reviewedOnce

/-- A review marks the head, which no review marked before. -/
theorem review (history : PageHistory events (some old)) (made : event.data.revision = none)
    (parent : event.data.parent = none) (follows : event.data.Follows (headRevision events))
    (head : page.headRevisionId = old.headRevisionId) (hash : page.contentHash = old.contentHash)
    (reviewed : event.data.reviewed = some old.headRevisionId)
    (before : old.reviewStatus ≠ .submitted) (after : page.reviewStatus = .submitted) :
    PageHistory (events ++ [event]) (some page) := by
  refine history.keep made parent follows head hash ?_ (fun _ => after) ?_
  · rw [filterMap_snoc, reviewed]
    refine known_snoc history.reviews fun id member => ?_
    rw [List.mem_singleton.mp member]
    exact history.head_made
  · rw [filterMap_snoc, reviewed]
    exact List.nodup_append.mpr ⟨history.reviewedOnce, List.nodup_singleton _, fun a ha b hb same =>
      before (history.pending old rfl ((List.mem_singleton.mp hb) ▸ same ▸ ha))⟩

theorem quiet (history : PageHistory events (some old)) (made : event.data.revision = none)
    (parent : event.data.parent = none) (follows : event.data.Follows (headRevision events))
    (head : page.headRevisionId = old.headRevisionId) (hash : page.contentHash = old.contentHash)
    (reviewed : event.data.reviewed = none) (status : page.reviewStatus = old.reviewStatus) :
    PageHistory (events ++ [event]) (some page) := by
  have same : (events ++ [event]).filterMap (·.data.reviewed) = events.filterMap
      (·.data.reviewed) := by
    rw [filterMap_snoc, reviewed, Option.toList_none, List.append_nil]
  refine history.keep made parent follows head hash ?_ ?_ ?_
  · rw [filterMap_snoc, reviewed]
    exact known_snoc history.reviews nofun
  · rw [same, head, status]
    exact history.pending old rfl
  · rw [same]
    exact history.reviewedOnce

/-- One accepted command keeps the chain. -/
theorem step {lib : Stdlib} {state : Option PageState} {command : WikiCommand}
    {effects : List OutboxEffect} (history : PageHistory events state)
    (accepted : Accepted lib state command ⟨[event], effects⟩)
    (evolved : evolve state event = .ok page) (fresh : ∀ e ∈ events, e.eventId ≠ event.eventId)
    (first : state = none → events = []) : PageHistory (events ++ [event]) (some page) := by
  have head := history.head
  cases accepted with
  | create c =>
    cases evolved
    rw [first rfl]
    exact create rfl rfl rfl rfl rfl
  | edit old c =>
    cases evolved
    exact history.commit fresh rfl rfl (congrArg _ head) rfl rfl
  | submit old c scope visible current hash unreviewed =>
    cases evolved
    exact history.review rfl rfl (congrArg _ head) rfl rfl rfl unreviewed rfl
  | report old c => cases evolved; exact history.quiet rfl rfl head rfl rfl rfl rfl
  | quarantine old c => cases evolved; exact history.quiet rfl rfl head rfl rfl rfl rfl
  | release old c => cases evolved; exact history.quiet rfl rfl head rfl rfl rfl rfl

end PageHistory

namespace Recorded

variable {lib : Stdlib} {commandIds : Set String} {journal : Journal}

/-- Every recorded page has such a history. -/
theorem history (recorded : Recorded lib commandIds journal)
    (distinct : StableIdsDistinct lib commandIds) {pageId : String} {state : Option PageState}
    (replayed : journal.page pageId = .ok state) :
    PageHistory ((journal.stream pageId).map (·.event)) state := by
  induction recorded generalizing pageId state with
  | empty => cases replayed; exact empty_history
  | @accept journal command new old page past derived known enters ih =>
    rw [enters.stream]
    by_cases here : pageId = command.pageId
    · subst here
      rw [enters.page_self] at replayed
      cases replayed
      rw [if_pos rfl, List.map_append]
      refine (ih enters.replayed).step enters.accepted enters.step.evolved ?_ ?_
      · intro event member
        obtain ⟨stored, inStream, rfl⟩ := List.mem_map.mp member
        obtain ⟨entry, inJournal, rfl, _⟩ := Journal.mem_stream.mp inStream
        exact fun same => past.eventId_fresh distinct derived known enters.unused inJournal
          (same.trans enters.step.eventId)
      · rintro rfl
        obtain ⟨state, record⟩ := past.pageRecord command.pageId
        have same : state = none := Except.ok.inj (record.replayed.symm.trans enters.replayed)
        subst same
        rw [List.eq_nil_of_length_eq_zero record.version.symm]
        rfl
    · rw [enters.page_other here] at replayed
      rw [if_neg here]
      exact ih replayed

/-- No two commits have one parent. -/
theorem parent_unique (recorded : Recorded lib commandIds journal)
    (distinct : StableIdsDistinct lib commandIds) {a b : Entry} (ha : a ∈ journal)
    (hb : b ∈ journal)
    {parent : String} (left : a.event.data.parent = some parent)
    (right : b.event.data.parent = some parent) : a = b := by
  -- the parent is an event of the page of either commit, so both are on one page
  have home : ∀ entry ∈ journal, entry.event.data.parent = some parent →
      ∃ base ∈ journal, base.event.eventId = parent ∧ base.event.pageId = entry.event.pageId := by
    intro entry member commits
    obtain ⟨page, replayed⟩ := recorded.page_exists member
    have inStream : entry.event ∈ (journal.stream entry.event.pageId).map (·.event) :=
      List.mem_map_of_mem (f := (·.event)) (Journal.mem_stream.mpr ⟨entry, member, rfl, rfl⟩)
    obtain ⟨event, inside, id⟩ := (recorded.history distinct replayed).parents parent
      (List.mem_filterMap.mpr ⟨entry.event, inStream, commits⟩)
    obtain ⟨stored, listed, rfl⟩ := List.mem_map.mp inside
    obtain ⟨base, inJournal, rfl, same⟩ := Journal.mem_stream.mp listed
    exact ⟨base, inJournal, id, same⟩
  obtain ⟨base, inJournal, id, baseA⟩ := home a ha left
  obtain ⟨other, inJournal', id', baseB⟩ := home b hb right
  have one := recorded.event_unique distinct inJournal inJournal' (id.trans id'.symm)
  have page : b.event.pageId = a.event.pageId := by rw [← baseA, ← baseB, one]
  obtain ⟨state, replayed⟩ := recorded.page_exists ha
  have listed : ∀ entry ∈ journal, entry.event.pageId = a.event.pageId →
      entry.event ∈ (journal.stream a.event.pageId).map (·.event) := fun entry member same =>
    List.mem_map_of_mem (f := (·.event)) (Journal.mem_stream.mpr ⟨entry, member, rfl, same⟩)
  have same := eq_of_filterMap_nodup (recorded.history distinct replayed).once (listed a ha rfl)
    (listed b hb page) left right
  exact recorded.entry_unique ha hb (congrArg (·.commandId) same)

theorem parents_nodup (recorded : Recorded lib commandIds journal)
    (distinct : StableIdsDistinct lib commandIds) :
    (journal.filterMap (·.event.data.parent)).Nodup := by
  induction recorded with
  | empty => exact List.nodup_nil
  | @accept journal command new old page past derived known enters ih =>
    rw [List.filterMap_append, List.nodup_append]
    refine ⟨ih, ?_, ?_⟩
    · cases commits : new.event.data.parent <;> simp [commits]
    · rintro parent before _ last rfl
      obtain ⟨older, member, hers⟩ := List.mem_filterMap.mp before
      obtain ⟨entry, alone, mine⟩ := List.mem_filterMap.mp last
      obtain rfl := List.mem_singleton.mp alone
      have after : Recorded lib commandIds (journal ++ [entry]) := .accept past derived known enters
      have one := after.parent_unique distinct (List.mem_append_left _ member) (by simp) hers mine
      exact Journal.find_none.mp enters.unused older member (one ▸ enters.step.commandId)

end Recorded

/-- The revision that an edit expects, where it is accepted and not replayed. -/
def acceptedBase : WikiCommand × Except Raised CommandReceipt → Option String
  | (.editPage command, .ok receipt) =>
    if receipt.replayed then none else some command.expectedRevisionId
  | _ => none

def acceptedBases (commands : List WikiCommand) (answers : List (Except Raised CommandReceipt)) :
    List String :=
  (commands.zip answers).filterMap acceptedBase

theorem Response.parents {lib : Stdlib} {journal next : Journal} {command : WikiCommand}
    {answer : Except Raised CommandReceipt} (response : Response lib journal command answer next) :
    next.filterMap (·.event.data.parent) =
      journal.filterMap (·.event.data.parent) ++ (acceptedBase (command, answer)).toList := by
  cases response with
  | refused raised => cases command <;> simp [acceptedBase]
  | replayed entry prior same => cases command <;> simp [acceptedBase]
  | recorded entry state page enters =>
    have accepted := enters.accepted
    obtain ⟨fingerprint, ⟨index, event⟩, effects⟩ := entry
    simp only [Entry.event] at accepted
    rw [List.filterMap_append]
    congr 1
    cases accepted with
    | edit old c scope visible head =>
      simp only [acceptedBase, head]
      rfl
    | create c => rfl
    | submit old c => rfl
    | report old c => rfl
    | quarantine old c => rfl
    | release old c => rfl

/-- No update is lost: the events of a page are numbered without a gap, every event
follows the head it finds, a head is reviewed once and edited once. -/
structure NoLostUpdate (commands : List WikiCommand) (answers : List (Except Raised CommandReceipt))
    (stream : String → List StoredEvent) : Prop where
  indices : ∀ pageId, (stream pageId).map (·.index) = List.range' 1 (stream pageId).length
  linear : ∀ pageId, Linear ((stream pageId).map (·.event))
  reviewedOnce : ∀ pageId, (((stream pageId).map (·.event)).filterMap (·.data.reviewed)).Nodup
  editedOnce : (acceptedBases commands answers).Nodup

section Run

variable {S : Type*} (step : S → WikiCommand → Except Raised CommandReceipt × S) {lib : Stdlib}
  {commandIds : Set String} (admitted : WikiCommand → Prop) (related : Journal → S → Prop)

/-- A store that responds as the journal may records one commit for each accepted edit. -/
theorem serve_records
    (simulate : ∀ journal s command, admitted command → Recorded lib commandIds journal →
      related journal s → ∃ next, Response lib journal command (step s command).1 next ∧
        Recorded lib commandIds next ∧ related next (step s command).2)
    (commands : List WikiCommand) (all : ∀ command ∈ commands, admitted command)
    (journal : Journal) (s : S) (recorded : Recorded lib commandIds journal)
      (initial : related journal s) :
    ∃ final, Recorded lib commandIds final ∧ related final (serve step s commands).2 ∧
      final.filterMap (·.event.data.parent) = journal.filterMap (·.event.data.parent) ++
        acceptedBases commands (serve step s commands).1 := by
  induction commands generalizing journal s with
  | nil => exact ⟨journal, recorded, initial, by simp [acceptedBases, serve]⟩
  | cons command rest ih =>
    obtain ⟨next, response, after, still⟩ :=
      simulate journal s command (all command List.mem_cons_self) recorded initial
    obtain ⟨final, last, kept, parents⟩ :=
      ih (fun other member => all other (List.mem_cons_of_mem _ member)) next _ after still
    refine ⟨final, last, kept, ?_⟩
    rw [parents, response.parents, List.append_assoc]
    congr 1
    simp only [acceptedBases, serve, List.zip_cons_cons, List.filterMap_cons]
    cases acceptedBase (command, (step s command).1) <;> rfl

/-- From the empty journal this is all that is needed. -/
theorem serve_loses_nothing (distinct : StableIdsDistinct lib commandIds)
    (stream : S → String → List StoredEvent)
    (streams : ∀ journal s, related journal s → ∀ pageId, stream s pageId = journal.stream pageId)
    (simulate : ∀ journal s command, admitted command → Recorded lib commandIds journal →
      related journal s → ∃ next, Response lib journal command (step s command).1 next ∧
        Recorded lib commandIds next ∧ related next (step s command).2)
    (commands : List WikiCommand) (all : ∀ command ∈ commands, admitted command) (s : S)
    (initial : related [] s) :
    NoLostUpdate commands (serve step s commands).1 (stream (serve step s commands).2) := by
  obtain ⟨final, recorded, last, parents⟩ :=
    serve_records step admitted related simulate commands all [] s .empty initial
  have same := streams final _ last
  have history : ∀ pageId, ∃ state, PageHistory ((final.stream pageId).map (·.event)) state := by
    intro pageId
    obtain ⟨state, record⟩ := recorded.pageRecord pageId
    exact ⟨state, recorded.history distinct record.replayed⟩
  refine ⟨?_, ?_, ?_, ?_⟩
  · intro pageId
    rw [same]
    exact recorded.stream_index pageId
  · intro pageId
    rw [same]
    exact (history pageId).elim fun _ page => page.linear
  · intro pageId
    rw [same]
    exact (history pageId).elim fun _ page => page.reviewedOnce
  · have once := recorded.parents_nodup distinct
    rw [parents] at once
    exact once

end Run

/-- Neither store loses an update, for any interleaving of the commands. -/
theorem no_lost_update (lib : Stdlib) (commands : List WikiCommand)
    (derived : ∀ command ∈ commands, RouterDerived lib command)
    (distinct : StableIdsDistinct lib {id | ∃ command ∈ commands, command.commandId = id}) :
    NoLostUpdate commands (serve (InMemoryWikiStore.execute lib) {} commands).1
      (serve (InMemoryWikiStore.execute lib) {} commands).2.stream ∧
    (lib.Documented →
      (∀ command ∈ commands, ∃ commandId, command.pageId = stableId lib commandId .page) →
      NoLostUpdate commands (serve (Tables.execute lib) {} commands).1
        (serve (Tables.execute lib) {} commands).2.stream) := by
  let commandIds : Set String := {id | ∃ command ∈ commands, command.commandId = id}
  have known : ∀ command ∈ commands, command.commandId ∈ commandIds :=
    fun command member => ⟨command, member, rfl⟩
  constructor
  · refine serve_loses_nothing (InMemoryWikiStore.execute lib)
      (fun command => RouterDerived lib command ∧ command.commandId ∈ commandIds)
        Represents distinct
      InMemoryWikiStore.stream (fun journal store represents => represents.events) ?_ commands
      (fun command member => ⟨derived command member, known command member⟩) {} empty_represents
    intro journal store command ok recorded represents
    obtain ⟨same, after⟩ := memory_step recorded distinct ok.1 ok.2 represents
    obtain ⟨answer, next, executed, response⟩ := journal.execute_response lib command
    have still := recorded.execute ok.1 ok.2
    rw [executed] at same after still
    exact ⟨next, same ▸ response, still, after⟩
  · intro documented pages
    refine serve_loses_nothing (Tables.execute lib)
      (fun command => RouterDerived lib command ∧ command.commandId ∈ commandIds ∧
        uuid command.pageId = .ok command.pageId) Holds distinct Tables.stream
      (fun journal tables holds pageId => by rw [Tables.stream, holds.events, Journal.stream]) ?_
        commands
      (fun command member => ⟨derived command member, known command member, ?_⟩) {} empty_holds
    · intro journal tables command ok recorded holds
      exact postgres_response recorded distinct documented ok.1 ok.2.1 ok.2.2 holds
    · obtain ⟨creator, same⟩ := pages command member
      rw [same]
      exact documented.uuid5 _

theorem no_lost_update_sample :
    NoLostUpdate sampleCommands (serve (InMemoryWikiStore.execute sampleLib) {} sampleCommands).1
      (serve (InMemoryWikiStore.execute sampleLib) {} sampleCommands).2.stream ∧
    NoLostUpdate sampleCommands (serve (Tables.execute sampleLib) {} sampleCommands).1
      (serve (Tables.execute sampleLib) {} sampleCommands).2.stream := by
  obtain ⟨memory, postgres⟩ :=
    no_lost_update sampleLib sampleCommands sample_derived sample_distinct
  refine ⟨memory, postgres sample_documented fun command member => ⟨sampleCreate.commandId, ?_⟩⟩
  revert command
  decide

end Metahumotonic.Wiki
