import Metahumotonic.Wiki.Journal

/-! Facts about every recorded journal. Each entry is traced back to the command
that made it; what one entry adds is read off `Enters`. -/
namespace Metahumotonic.Wiki

theorem replayFrom_append (state : Option PageState) (before after : List WikiEvent) :
    replayFrom state (before ++ after) =
      replayFrom state before >>= fun middle => replayFrom middle after := by
  induction before generalizing state with
  | nil => rfl
  | cons event rest ih =>
    simp only [List.cons_append, replayFrom]
    cases evolve state event with
    | error error => rfl
    | ok page => exact ih (some page)

theorem replay_snoc {events : List WikiEvent} {event : WikiEvent} {state : Option PageState}
    {page : PageState} (replayed : replay events = .ok state)
    (evolved : evolve state event = .ok page) :
    replay (events ++ [event]) = .ok (some page) := by
  unfold replay at replayed ⊢
  simp only [replayFrom_append, replayed, replayFrom, evolved, bind, Except.bind]

theorem evolve_keeps {before page : PageState} {event : WikiEvent}
    (evolved : evolve (some before) event = .ok page) :
    page.slug = before.slug ∧ page.pageId = before.pageId ∧ page.createdAt = before.createdAt := by
  obtain ⟨_, _, _, _, _, _, data⟩ := event
  cases data <;> simp only [evolve, reduceCtorEq] at evolved <;> cases evolved <;>
    exact ⟨rfl, rfl, rfl⟩

theorem replayFrom_keeps {before page : PageState} {events : List WikiEvent}
    (replayed : replayFrom (some before) events = .ok (some page)) : page.slug = before.slug := by
  induction events generalizing before with
  | nil => cases replayed; rfl
  | cons event rest ih =>
    simp only [replayFrom] at replayed
    cases evolved : evolve (some before) event with
    | error error => rw [evolved] at replayed; cases replayed
    | ok middle =>
      rw [evolved] at replayed
      exact (ih replayed).trans (evolve_keeps evolved).1

theorem replayFrom_ne_none (page : PageState) (events : List WikiEvent) :
    replayFrom (some page) events ≠ .ok none := by
  induction events generalizing page with
  | nil => nofun
  | cons event rest ih =>
    simp only [replayFrom]
    cases evolve (some page) event with
    | error error => nofun
    | ok next => exact ih next

/-- A page keeps its slug through its whole history. -/
theorem replay_prefix_slug {before after : List WikiEvent} {page : PageState}
    (nonempty : before ≠ []) (replayed : replay (before ++ after) = .ok (some page)) :
    ∃ earlier, replay before = .ok (some earlier) ∧ earlier.slug = page.slug := by
  unfold replay at replayed ⊢
  rw [replayFrom_append] at replayed
  cases middle : replayFrom none before with
  | error error => rw [middle] at replayed; cases replayed
  | ok state =>
    rw [middle] at replayed
    cases state with
    | none =>
      cases before with
      | nil => exact absurd rfl nonempty
      | cons event rest =>
        simp only [replayFrom] at middle
        cases evolved : evolve none event with
        | error error => rw [evolved] at middle; cases middle
        | ok page =>
          rw [evolved] at middle
          exact absurd middle (replayFrom_ne_none page rest)
    | some earlier => exact ⟨earlier, rfl, (replayFrom_keeps replayed).symm⟩

namespace Journal

theorem stream_snoc (journal : Journal) (entry : Entry) (pageId : String) :
    Journal.stream (journal ++ [entry]) pageId =
      if entry.event.pageId = pageId then journal.stream pageId ++ [entry.stored]
      else journal.stream pageId := by
  simp only [stream, List.map_append, List.map_cons, List.map_nil, List.filter_append, Entry.event]
  by_cases same : entry.stored.event.pageId = pageId
  · simp [same]
  · simp [same]

theorem mem_stream {journal : Journal} {pageId : String} {stored : StoredEvent} :
    stored ∈ journal.stream pageId ↔
      ∃ entry ∈ journal, entry.stored = stored ∧ entry.event.pageId = pageId := by
  simp only [stream, List.mem_filter, List.mem_map, decide_eq_true_eq]
  constructor
  · rintro ⟨⟨entry, member, rfl⟩, same⟩
    exact ⟨entry, member, rfl, same⟩
  · rintro ⟨entry, member, rfl, same⟩
    exact ⟨⟨entry, member, rfl⟩, same⟩

theorem find_none {journal : Journal} {commandId : String} :
    journal.find commandId = none ↔ ∀ entry ∈ journal, entry.event.commandId ≠ commandId := by
  simp only [find, List.find?_eq_none, decide_eq_true_eq, ne_eq]

theorem find_snoc {journal : Journal} {entry : Entry}
    (unused : journal.find entry.event.commandId = none)
    (commandId : String) :
    Journal.find (journal ++ [entry]) commandId =
      if commandId = entry.event.commandId then some entry else journal.find commandId := by
  unfold find at unused ⊢
  rw [List.find?_append]
  by_cases same : commandId = entry.event.commandId
  · subst same
    simp [unused]
  · have other : ¬ entry.event.commandId = commandId := fun h => same h.symm
    simp [same, other]

end Journal

namespace Recorded

variable {lib : Stdlib} {commandIds : Set String} {journal : Journal}

/-- Every entry entered, after the entries before it. -/
theorem provenance (recorded : Recorded lib commandIds journal) {entry : Entry}
    (member : entry ∈ journal) :
    ∃ before after command state page, journal = before ++ entry :: after ∧
      Recorded lib commandIds before ∧ RouterDerived lib command ∧
      command.commandId ∈ commandIds ∧ Enters lib before command entry state page := by
  induction recorded with
  | empty => cases member
  | @accept journal command new state page past derived known enters ih =>
    rcases List.mem_append.mp member with old | last
    · obtain ⟨before, after, command', state', page', rfl, rest⟩ := ih old
      exact ⟨before, after ++ [new], command', state', page', by simp, rest⟩
    · have same : entry = new := by simpa using last
      subst same
      exact ⟨journal, [], command, state, page, rfl, past, derived, known, enters⟩

theorem commandIds_known (recorded : Recorded lib commandIds journal) {entry : Entry}
    (member : entry ∈ journal) : entry.event.commandId ∈ commandIds := by
  obtain ⟨_, _, command, _, _, _, _, _, known, enters⟩ := recorded.provenance member
  rw [enters.step.commandId]
  exact known

theorem eventId_derived (recorded : Recorded lib commandIds journal) {entry : Entry}
    (member : entry ∈ journal) :
    ∃ purpose, entry.event.eventId = stableId lib entry.event.commandId purpose := by
  obtain ⟨_, _, command, _, _, _, _, derived, _, enters⟩ := recorded.provenance member
  exact ⟨command.purpose, by rw [enters.step.eventId, enters.step.commandId, derived.event]⟩

theorem commandIds_nodup (recorded : Recorded lib commandIds journal) :
    (journal.map (·.event.commandId)).Nodup := by
  induction recorded with
  | empty => exact List.nodup_nil
  | @accept journal command new state page past derived known enters ih =>
    rw [List.map_append, List.nodup_append]
    refine ⟨ih, List.nodup_singleton _, ?_⟩
    intro a old b last
    obtain ⟨entry, member, rfl⟩ := List.mem_map.mp old
    have fresh := Journal.find_none.mp enters.unused entry member
    simp only [List.map_cons, List.map_nil, List.mem_singleton] at last
    rw [last, enters.step.commandId]
    exact fresh

/-- One entry for each command id. -/
theorem entry_unique (recorded : Recorded lib commandIds journal) {a b : Entry}
    (ha : a ∈ journal) (hb : b ∈ journal) (same : a.event.commandId = b.event.commandId) : a = b :=
  List.inj_on_of_nodup_map recorded.commandIds_nodup ha hb same

/-- One entry for each event id. -/
theorem event_unique (recorded : Recorded lib commandIds journal)
    (distinct : StableIdsDistinct lib commandIds) {a b : Entry} (ha : a ∈ journal)
    (hb : b ∈ journal)
    (same : a.event.eventId = b.event.eventId) : a = b := by
  obtain ⟨p, hp⟩ := recorded.eventId_derived ha
  obtain ⟨q, hq⟩ := recorded.eventId_derived hb
  exact recorded.entry_unique ha hb (distinct _ (recorded.commandIds_known ha) _
    (recorded.commandIds_known hb) p q (by rw [← hp, ← hq, same])).1

end Recorded

/-- The page of a stream: what the replay gives, and what its version counts. -/
structure PageRecord (journal : Journal) (pageId : String) (state : Option PageState) : Prop where
  replayed : journal.page pageId = .ok state
  version : version state = (journal.stream pageId).length
  pageId : ∀ page, state = some page → page.pageId = pageId

namespace Enters

variable {lib : Stdlib} {journal : Journal} {command : WikiCommand} {entry : Entry}
  {state : Option PageState} {page : PageState}

theorem stream (enters : Enters lib journal command entry state page) (pageId : String) :
    Journal.stream (journal ++ [entry]) pageId =
      if pageId = command.pageId then journal.stream pageId ++ [entry.stored]
      else journal.stream pageId := by
  rw [Journal.stream_snoc, enters.step.eventPage]
  by_cases same : pageId = command.pageId
  · rw [if_pos same, if_pos same.symm]
  · rw [if_neg same, if_neg (fun h => same h.symm)]

theorem page_self (enters : Enters lib journal command entry state page) :
    Journal.page (journal ++ [entry]) command.pageId = .ok (some page) := by
  rw [Journal.page, enters.stream, if_pos rfl, List.map_append]
  exact replay_snoc enters.replayed enters.step.evolved

theorem page_other (enters : Enters lib journal command entry state page) {pageId : String}
    (other : pageId ≠ command.pageId) :
    Journal.page (journal ++ [entry]) pageId = journal.page pageId := by
  rw [Journal.page, enters.stream, if_neg other, Journal.page]

theorem pageRecord (enters : Enters lib journal command entry state page)
    (before : PageRecord journal command.pageId state) :
    PageRecord (journal ++ [entry]) command.pageId (some page) where
  replayed := enters.page_self
  version := by
    have next := enters.step.version
    rw [before.version] at next
    rw [enters.stream, if_pos rfl, List.length_append]
    exact next
  pageId := by
    rintro _ ⟨⟩
    cases state with
    | none => exact (enters.step.created rfl).1
    | some old => exact (enters.step.kept old rfl).1.trans (before.pageId old rfl)

/-- The receipt, written with the command's own ids. -/
theorem receipt (enters : Enters lib journal command entry state page)
    (before : PageRecord journal command.pageId state) :
    entry.receipt = {
      commandId := command.commandId
      fingerprint := intentFingerprint lib command
      pageId := command.pageId
      streamVersion := page.streamVersion
      eventIds := [entry.event.eventId] } := by
  rw [enters.step.version, before.version, ← enters.index]
  simp only [Entry.receipt, enters.step.commandId, enters.step.eventPage, enters.fingerprint]

end Enters

namespace Recorded

variable {lib : Stdlib} {commandIds : Set String} {journal : Journal}

/-- Every stream replays, to a page whose version is the number of its events. -/
theorem pageRecord (recorded : Recorded lib commandIds journal) (pageId : String) :
    ∃ state, PageRecord journal pageId state := by
  induction recorded with
  | empty => exact ⟨none, rfl, rfl, nofun⟩
  | @accept journal command new state page past derived known enters ih =>
    obtain ⟨old, record⟩ := ih
    by_cases same : pageId = command.pageId
    · subst same
      have eq : old = state := by
        have both := record.replayed.symm.trans enters.replayed
        exact Except.ok.inj both
      exact ⟨some page, enters.pageRecord (eq ▸ record)⟩
    · refine ⟨old, ?_, ?_, record.pageId⟩
      · rw [enters.page_other same, record.replayed]
      · rw [enters.stream, if_neg same, record.version]

theorem page_home (recorded : Recorded lib commandIds journal) {pageId : String} {page : PageState}
    (replayed : journal.page pageId = .ok (some page)) : page.pageId = pageId := by
  obtain ⟨state, record⟩ := recorded.pageRecord pageId
  exact record.pageId page (Except.ok.inj (record.replayed.symm.trans replayed))

theorem stream_index (recorded : Recorded lib commandIds journal) (pageId : String) :
    (journal.stream pageId).map (·.index) = List.range' 1 (journal.stream pageId).length := by
  induction recorded with
  | empty => rfl
  | @accept journal command new state page past derived known enters ih =>
    rw [enters.stream]
    split
    · rename_i same
      subst same
      rw [List.map_append, ih, List.length_append, List.length_singleton, List.range'_1_concat]
      simp only [List.map_cons, List.map_nil, enters.index, Nat.add_comm]
    · exact ih

theorem stream_index_le (recorded : Recorded lib commandIds journal) {pageId : String}
    {stored : StoredEvent} (member : stored ∈ journal.stream pageId) :
    stored.index ≤ (journal.stream pageId).length := by
  have listed := List.mem_map_of_mem (f := (·.index)) member
  rw [recorded.stream_index, List.mem_range'_1] at listed
  omega

/-- The stream of a page starts with the event that created it: some entry of the
journal created the page, and its command derived the page's id. -/
theorem created (recorded : Recorded lib commandIds journal) {entry : Entry}
    (member : entry ∈ journal) :
    ∃ first ∈ journal, first.event.pageId = entry.event.pageId ∧
      first.event.pageId = stableId lib first.event.commandId .page := by
  induction recorded generalizing entry with
  | empty => cases member
  | @accept journal command new state page past derived known enters ih =>
    have lift : ∀ old ∈ journal, old.event.pageId = entry.event.pageId →
        ∃ first ∈ journal ++ [new], first.event.pageId = entry.event.pageId ∧
          first.event.pageId = stableId lib first.event.commandId .page := by
      intro old before same
      obtain ⟨first, member, page, id⟩ := ih before
      exact ⟨first, List.mem_append_left _ member, page.trans same, id⟩
    rcases List.mem_append.mp member with old | last
    · exact lift entry old rfl
    · have same : entry = new := by simpa using last
      subst same
      cases state with
      | none =>
        refine ⟨entry, member, rfl, ?_⟩
        obtain ⟨c, rfl⟩ := enters.accepted.creates
        rw [enters.step.eventPage, enters.step.commandId]
        exact derived.page c rfl
      | some before =>
        have nonempty : journal.stream command.pageId ≠ [] := by
          intro empty
          have replayed := enters.replayed
          rw [Journal.page, empty] at replayed
          cases replayed
        obtain ⟨stored, inStream⟩ := List.exists_mem_of_ne_nil _ nonempty
        obtain ⟨old, before, _, same⟩ := Journal.mem_stream.mp inStream
        exact lift old before (same.trans enters.step.eventPage.symm)

/-- A creation's page has the id that its command derived. -/
theorem creation_page (recorded : Recorded lib commandIds journal) {entry : Entry}
    (member : entry ∈ journal) {slug : String} (claims : entry.event.data.createdSlug = some slug) :
    entry.event.pageId = stableId lib entry.event.commandId .page := by
  obtain ⟨_, _, command, _, _, _, _, derived, _, enters⟩ := recorded.provenance member
  obtain ⟨_, c, rfl, _⟩ := enters.accepted.createdSlug rfl claims
  rw [enters.step.eventPage, enters.step.commandId]
  exact derived.page c rfl

/-- A page is created once. -/
theorem creation_unique (recorded : Recorded lib commandIds journal)
    (distinct : StableIdsDistinct lib commandIds) {a b : Entry} (ha : a ∈ journal)
    (hb : b ∈ journal)
    {s t : String} (hs : a.event.data.createdSlug = some s) (ht : b.event.data.createdSlug = some t)
    (same : a.event.pageId = b.event.pageId) : a = b := by
  rw [recorded.creation_page ha hs, recorded.creation_page hb ht] at same
  exact recorded.entry_unique ha hb (distinct _ (recorded.commandIds_known ha) _
    (recorded.commandIds_known hb) _ _ same).1

end Recorded

theorem Enters.creation {lib : Stdlib} {journal : Journal} {command : WikiCommand} {entry : Entry}
    {state : Option PageState} {page : PageState}
    (enters : Enters lib journal command entry state page) (slug : String) :
    Journal.creation (journal ++ [entry]) slug =
      if entry.event.data.createdSlug = some slug then some entry else journal.creation slug := by
  have append : Journal.creation (journal ++ [entry]) slug =
      (journal.creation slug).or (Journal.creation [entry] slug) := List.find?_append
  by_cases claims : entry.event.data.createdSlug = some slug
  · obtain ⟨_, c, create, mine⟩ := enters.accepted.createdSlug rfl claims
    have free : journal.creation slug = none := mine ▸ enters.unclaimed c create
    rw [append, free, if_pos claims]
    simp [Journal.creation, claims]
  · rw [append, if_neg claims]
    simp [Journal.creation, claims]

namespace Recorded

variable {lib : Stdlib} {commandIds : Set String} {journal : Journal}

theorem creation_iff (recorded : Recorded lib commandIds journal) (slug : String) (entry : Entry) :
    journal.creation slug = some entry ↔
      entry ∈ journal ∧ entry.event.data.createdSlug = some slug := by
  induction recorded with
  | empty => simp [Journal.creation]
  | @accept journal command new state page past derived known enters ih =>
    rw [enters.creation]
    split
    · rename_i claims
      obtain ⟨_, c, create, mine⟩ := enters.accepted.createdSlug rfl claims
      have free : journal.creation slug = none := mine ▸ enters.unclaimed c create
      have older : ∀ old ∈ journal, old.event.data.createdSlug ≠ some slug := by
        simpa [Journal.creation] using free
      constructor
      · rintro ⟨⟩
        exact ⟨by simp, claims⟩
      · rintro ⟨member, same⟩
        rcases List.mem_append.mp member with old | last
        · exact absurd same (older entry old)
        · exact congrArg some (List.mem_singleton.mp last).symm
    · rename_i other
      rw [ih]
      constructor
      · exact fun ⟨member, same⟩ => ⟨List.mem_append_left _ member, same⟩
      · rintro ⟨member, same⟩
        rcases List.mem_append.mp member with old | last
        · exact ⟨old, same⟩
        · exact absurd (List.mem_singleton.mp last ▸ same) other

/-- The slug of a page is the one its creation named. -/
theorem page_slug (recorded : Recorded lib commandIds journal) {pageId : String} {page : PageState}
    (replayed : journal.page pageId = .ok (some page)) :
    ∃ entry ∈ journal, entry.event.pageId = pageId ∧
      entry.event.data.createdSlug = some page.slug := by
  induction recorded generalizing page with
  | empty => cases replayed
  | @accept journal command new state next past derived known enters ih =>
    by_cases here : pageId = command.pageId
    · subst here
      rw [enters.page_self] at replayed
      cases replayed
      cases state with
      | none => exact ⟨new, by simp, enters.step.eventPage, (enters.step.created rfl).2⟩
      | some before =>
        obtain ⟨entry, member, same, slug⟩ := ih enters.replayed
        exact ⟨entry, List.mem_append_left _ member, same,
          (enters.step.kept before rfl).2 ▸ slug⟩
    · rw [enters.page_other here] at replayed
      obtain ⟨entry, member, rest⟩ := ih replayed
      exact ⟨entry, List.mem_append_left _ member, rest⟩

/-- A page with events is there. -/
theorem page_exists (recorded : Recorded lib commandIds journal) {entry : Entry}
    (member : entry ∈ journal) :
    ∃ page, journal.page entry.event.pageId = .ok (some page) := by
  obtain ⟨state, record⟩ := recorded.pageRecord entry.event.pageId
  cases state with
  | some page => exact ⟨page, record.replayed⟩
  | none =>
    have inStream : entry.stored ∈ journal.stream entry.event.pageId :=
      Journal.mem_stream.mpr ⟨entry, member, rfl, rfl⟩
    have empty := List.eq_nil_of_length_eq_zero record.version.symm
    rw [empty] at inStream
    cases inStream

/-- A page has the slug of any event that created it. -/
theorem slug_page (recorded : Recorded lib commandIds journal)
    (distinct : StableIdsDistinct lib commandIds) {entry : Entry} (member : entry ∈ journal)
    {slug : String} (claims : entry.event.data.createdSlug = some slug) :
    ∃ page, journal.page entry.event.pageId = .ok (some page) ∧ page.slug = slug := by
  obtain ⟨page, replayed⟩ := recorded.page_exists member
  obtain ⟨first, before, home, named⟩ := recorded.page_slug replayed
  have one := recorded.creation_unique distinct before member named claims home
  rw [one, claims] at named
  exact ⟨page, replayed, (Option.some.inj named).symm⟩

/-- The event of a command that was not used before is new. -/
theorem eventId_fresh (recorded : Recorded lib commandIds journal)
    (distinct : StableIdsDistinct lib commandIds) {command : WikiCommand}
    (derived : RouterDerived lib command) (known : command.commandId ∈ commandIds)
    (unused : journal.find command.commandId = none) {entry : Entry} (member : entry ∈ journal) :
    entry.event.eventId ≠ command.eventId := by
  intro same
  obtain ⟨purpose, id⟩ := recorded.eventId_derived member
  rw [id, derived.event] at same
  exact Journal.find_none.mp unused entry member
    (distinct _ (recorded.commandIds_known member) _ known _ _ same).1

/-- What holds of a page when it is made, and is kept by the commands on it, holds of
every recorded page. -/
theorem page_invariant (recorded : Recorded lib commandIds journal) (I : PageState → Prop)
    (kept : ∀ {journal command entry state page}, RouterDerived lib command →
      Enters lib journal command entry state page →
        (∀ before, state = some before → I before) → I page)
    {pageId : String} {page : PageState} (replayed : journal.page pageId = .ok (some page)) :
      I page := by
  induction recorded generalizing pageId page with
  | empty => cases replayed
  | @accept journal command new state next past derived known enters ih =>
    by_cases here : pageId = command.pageId
    · subst here
      rw [enters.page_self] at replayed
      cases replayed
      refine kept derived enters ?_
      rintro before rfl
      exact ih enters.replayed
    · rw [enters.page_other here] at replayed
      exact ih replayed

end Recorded

end Metahumotonic.Wiki
