import Metahumotonic.Wiki.Ids
import Metahumotonic.Wiki.Memory

/-! What a wiki store is for: one append-only journal of accepted commands. Pages
are the replay of their events, a repeated command gets the receipt of its entry,
and every other command is decided on the page as recorded. Both stores are
compared with this journal. -/
namespace Metahumotonic.Wiki

structure Entry where
  fingerprint : String
  stored : StoredEvent
  effects : List OutboxEffect

def Entry.event (entry : Entry) : WikiEvent := entry.stored.event

def Entry.receipt (entry : Entry) : CommandReceipt where
  commandId := entry.event.commandId
  fingerprint := entry.fingerprint
  pageId := entry.event.pageId
  streamVersion := entry.stored.index
  eventIds := [entry.event.eventId]

def Entry.records (entry : Entry) : List OutboxRecord :=
  entry.effects.map fun effect =>
    { effect := effect, status := .pending, createdAt := entry.event.occurredAt }

abbrev Journal := List Entry

namespace Journal

def stream (journal : Journal) (pageId : String) : List StoredEvent :=
  (journal.map Entry.stored).filter (fun stored => stored.event.pageId = pageId)

def page (journal : Journal) (pageId : String) : Except WikiError (Option PageState) :=
  replay ((journal.stream pageId).map (·.event))

def find (journal : Journal) (commandId : String) : Option Entry :=
  journal.find? (fun entry => entry.event.commandId = commandId)

def creation (journal : Journal) (slug : String) : Option Entry :=
  journal.find? (fun entry => entry.event.data.createdSlug = some slug)

def records (journal : Journal) : List OutboxRecord := journal.flatMap Entry.records

def current (journal : Journal) : WikiCommand → Except WikiError (Option PageState)
  | .createPage c => if (journal.creation c.slug).isSome then .error slugTaken
    else journal.page c.pageId
  | command => journal.page command.pageId

def execute (lib : Stdlib) (journal : Journal) (command : WikiCommand) :
    Except Raised CommandReceipt × Journal :=
  let fingerprint := intentFingerprint lib command
  match journal.find command.commandId with
  | some prior =>
    if prior.fingerprint ≠ fingerprint then (.error (.wikiError idempotencyConflict), journal)
    else (.ok { prior.receipt with replayed := true }, journal)
  | none =>
    match journal.current command with
    | .error error => (.error (.wikiError error), journal)
    | .ok state =>
      match command.decide lib state with
      | .error error => (.error (.wikiError error), journal)
      | .ok decision =>
        match decision.events with
        | [event] =>
          let entry : Entry := {
            fingerprint := fingerprint
            stored := ⟨(journal.stream command.pageId).length + 1, event⟩
            effects := decision.effects }
          (.ok entry.receipt, journal ++ [entry])
        | _ => (.error noState, journal)

end Journal

/-- How an entry gets into a journal. -/
structure Enters (lib : Stdlib) (journal : Journal) (command : WikiCommand) (entry : Entry)
    (state : Option PageState) (page : PageState) : Prop where
  unused : journal.find command.commandId = none
  unclaimed : ∀ c, command = .createPage c → journal.creation c.slug = none
  replayed : journal.page command.pageId = .ok state
  accepted : Accepted lib state command ⟨[entry.event], entry.effects⟩
  step : Step state command entry.event page
  fingerprint : entry.fingerprint = intentFingerprint lib command
  index : entry.stored.index = (journal.stream command.pageId).length + 1

/-- The journals of all runs whose commands have router-derived ids from `commandIds`. -/
inductive Recorded (lib : Stdlib) (commandIds : Set String) : Journal → Prop where
  | empty : Recorded lib commandIds []
  | accept {journal : Journal} {command : WikiCommand} {entry : Entry} {state : Option PageState}
      {page : PageState} (past : Recorded lib commandIds journal)
      (derived : RouterDerived lib command)
      (known : command.commandId ∈ commandIds)
      (enters : Enters lib journal command entry state page) :
      Recorded lib commandIds (journal ++ [entry])

/-- What the journal answers, and what it becomes. -/
inductive Response (lib : Stdlib) (journal : Journal) (command : WikiCommand) :
    Except Raised CommandReceipt → Journal → Prop where
  | refused (raised : Raised) : Response lib journal command (.error raised) journal
  | replayed (entry : Entry) (prior : journal.find command.commandId = some entry)
      (same : entry.fingerprint = intentFingerprint lib command) :
      Response lib journal command (.ok { entry.receipt with replayed := true }) journal
  | recorded (entry : Entry) (state : Option PageState) (page : PageState)
      (enters : Enters lib journal command entry state page) :
      Response lib journal command (.ok entry.receipt) (journal ++ [entry])

theorem Journal.current_ok {journal : Journal} {command : WikiCommand} {state : Option PageState}
    (ok : journal.current command = .ok state) :
    (∀ c, command = .createPage c → journal.creation c.slug = none) ∧
      journal.page command.pageId = .ok state := by
  cases command with
  | createPage c =>
    simp only [Journal.current] at ok
    split at ok
    · cases ok
    · rename_i free
      refine ⟨?_, ok⟩
      rintro d ⟨⟩
      simpa using free
  | _ => exact ⟨nofun, ok⟩

theorem Journal.execute_response (lib : Stdlib) (journal : Journal) (command : WikiCommand) :
    ∃ answer next, journal.execute lib command = (answer, next) ∧
      Response lib journal command answer next := by
  unfold Journal.execute
  dsimp only
  split
  · rename_i prior found
    split
    · exact ⟨_, _, rfl, .refused _⟩
    · rename_i same
      exact ⟨_, _, rfl, .replayed prior found (Decidable.not_not.mp same)⟩
  · rename_i unused
    split
    · exact ⟨_, _, rfl, .refused _⟩
    · rename_i state current
      split
      · exact ⟨_, _, rfl, .refused _⟩
      · rename_i decision decided
        have accepted := decide_ok decided
        obtain ⟨event, page, events, step⟩ := accepted.step
        obtain ⟨unclaimed, same⟩ := Journal.current_ok current
        have whole : decision = ⟨[event], decision.effects⟩ := by rw [← events]
        simp only [events]
        exact ⟨_, _, rfl, .recorded _ state page
          ⟨unused, unclaimed, same, whole ▸ accepted, step, rfl, rfl⟩⟩

theorem Recorded.execute {lib : Stdlib} {commandIds : Set String} {journal : Journal}
    (past : Recorded lib commandIds journal) {command : WikiCommand}
    (derived : RouterDerived lib command) (known : command.commandId ∈ commandIds) :
    Recorded lib commandIds (journal.execute lib command).2 := by
  obtain ⟨answer, next, same, response⟩ := journal.execute_response lib command
  rw [same]
  cases response with
  | refused _ => exact past
  | replayed _ _ _ => exact past
  | recorded entry state page enters => exact .accept past derived known enters

end Metahumotonic.Wiki
