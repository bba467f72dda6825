import Metahumotonic.Library.Evolution
import Metahumotonic.Feedback.TriageTurns

/-! Whether a triage is atomic for its caller: over every run of interleaved calls, what a triage
has changed by its reply, and the statuses that a record goes through. -/
namespace Metahumotonic.Feedback.Fallback
open Metahumotonic.Library

section Changes

variable {α : Type*} [DecidableEq α]

/-- Where a record differs between two states of the store, and what is stored there afterwards. -/
def FeedbackStore.changes (id : String) (before after : FeedbackStore α) :
    List (Home × Option (Record α)) :=
  [Home.mongo, .memory].filterMap fun home =>
    if after.lookup home id = before.lookup home id then none else some (home, after.lookup home id)

/-- What one step changes of a record, if it is of the call. -/
def stepChanges (s : Settings) (service : Service α) (event : Event) (call : ℕ) (id : String) :
    List (Home × Option (Record α)) :=
  if acting service event = call then service.store.changes id (step s service event).store else []

/-- What the steps of one call change of a record. -/
def changesBy (s : Settings) (call : ℕ) (id : String) (service : Service α) :
    List Event → List (Home × Option (Record α))
  | [] => []
  | event :: rest => stepChanges s service event call id ++ changesBy s call id
    (step s service event) rest

/-- A triage that answers a record has stored it once, and one that answers nothing or raises has
changed nothing. -/
structure Answers (t : Triage) (reply : Reply α)
    (changes : List (Home × Option (Record α))) : Prop where
  refused : Refusal reply → changes = []
  answered : ∀ record, reply = .triaged (some record) →
    ∃ home, changes = [(home, some record)] ∧ Stamped t home record

/-- The statuses of a record over the states of a run, each change once. -/
def statusPath (s : Settings) (home : Home) (id : String) (service : Service α)
    (events : List Event) :
    List FeedbackStatus :=
  ((events.scanl (step s) service).filterMap fun state =>
    (state.store.lookup home id).map Record.current).destutter
    (· ≠ ·)

structure Atomic (s : Settings) (store : FeedbackStore α) (events : List Event) : Prop where
  answers : ∀ (call : ℕ) (t : Triage) (reply : Reply α),
    (runEvents s ⟨store, []⟩ events).calls[call]? = some (.triaged t reply) →
      Answers t reply (changesBy s call t.id ⟨store, []⟩ events)
  lifecycle : ∀ home id, (statusPath s home id ⟨store, []⟩ events).IsChain Moves

end Changes

def Progress.Reads {α : Type*} (id : String) : Progress α → Prop
  | .reading t => t.id = id
  | _ => False

instance {α : Type*} (id : String) (progress : Progress α) : Decidable (progress.Reads id) := by
  unfold Progress.Reads
  split <;> infer_instance

/-- The condition on a step: the read of a triage does not raise, and no other operation updates or
deletes a record that a triage has updated and not yet read. -/
def Undisturbed {α : Type*} (service : Service α) (event : Event) : Prop :=
  match standing service event with
  | some (.reading _) => event.served = true
  | some (.updating t) =>
    event.served = true → (service.store.documents.get? t.id).any (matched t.verdict) = true →
      ∀ progress ∈ service.calls, ¬ progress.Reads t.id
  | some (.deleting id) =>
    event.served = true → id ∈ service.store.documents.keys → ∀ progress ∈ service.calls,
      ¬ progress.Reads id
  | _ => True

instance {α : Type*} (service : Service α) (event : Event) :
    Decidable (Undisturbed service event) := by
  unfold Undisturbed
  split <;> infer_instance

def UndisturbedRun {α : Type*} (s : Settings) (service : Service α) : List Event → Prop
  | [] => True
  | event :: rest => Undisturbed service event ∧ UndisturbedRun s (step s service event) rest

instance decidableUndisturbedRun {α : Type*} (s : Settings) (service : Service α)
    (events : List Event) :
    Decidable (UndisturbedRun s service events) :=
  match events with
  | [] => inferInstanceAs (Decidable True)
  | event :: rest =>
    have := decidableUndisturbedRun s (step s service event) rest
    inferInstanceAs (Decidable (_ ∧ _))

theorem Verdict.moves {verdict : Verdict} {status : FeedbackStatus}
    (allowed : status ∈ verdict.allowedFrom) :
    Moves status verdict.status := by
  cases verdict with
  | reviewed =>
    obtain rfl := List.mem_singleton.mp allowed
    exact .reviewed
  | archived =>
    rcases List.mem_cons.mp allowed with rfl | allowed
    · exact .archived
    · obtain rfl := List.mem_singleton.mp allowed
      exact .reviewedArchived
  | spam =>
    rcases List.mem_cons.mp allowed with rfl | allowed
    · exact .spam
    · obtain rfl := List.mem_singleton.mp allowed
      exact .reviewedSpam

section Effects

variable {α : Type*} {t : Triage} {home : Home} {record : Record α} {before after : FeedbackStore α}

theorem Stamped.current (stamped : Stamped t home record) : record.current = t.verdict.status := by
  rw [Record.current, stamped.status, Option.getD_some]

/-- A write moves the record on from what was stored. -/
theorem Wrote.moves (wrote : Wrote t home record before after) :
    ∃ old, before.lookup home t.id = some old ∧ Moves old.current record.current := by
  obtain ⟨old, found, allowed⟩ := wrote.old
  exact ⟨old, found, wrote.stamped.current ▸ Verdict.moves allowed⟩

theorem Wrote.evolves (wrote : Wrote t home record before after) (other : Home) (id : String) :
    Evolves Moves ((before.lookup other id).map Record.current)
      ((after.lookup other id).map Record.current) := by
  by_cases here : (other, id) = (home, t.id)
  · obtain ⟨rfl, rfl⟩ := Prod.mk.inj here
    obtain ⟨old, found, moves⟩ := wrote.moves
    rw [found, wrote.stored]
    exact .moved moves
  · rw [wrote.frame other id here]
    exact .kept _

theorem Erased.evolves {id : String} (erased : Erased id home before after) (other : Home)
    (key : String) :
    Evolves Moves ((before.lookup other key).map Record.current)
      ((after.lookup other key).map Record.current) := by
  by_cases here : (other, key) = (home, id)
  · obtain ⟨rfl, rfl⟩ := Prod.mk.inj here
    rcases erased.gone with gone | ⟨-, same⟩
    · rw [gone]
      exact .lost _
    · rw [same]
      exact .kept _
  · rw [erased.frame other key here]
    exact .kept _

theorem Unmoved.evolves (kept : Unmoved before after) (home : Home) (id : String) :
    Evolves Moves ((before.lookup home id).map Record.current)
      ((after.lookup home id).map Record.current) := by
  rw [kept home id]
  exact .kept _

variable [DecidableEq α]

theorem Unmoved.changes (kept : Unmoved before after) (id : String) :
    before.changes id after = [] := by
  simp only [FeedbackStore.changes, List.filterMap_cons, List.filterMap_nil,
    if_pos (kept .mongo id),
    if_pos (kept .memory id)]

theorem Wrote.changes (wrote : Wrote t home record before after) :
    before.changes t.id after = [(home, some record)] := by
  obtain ⟨old, found, moves⟩ := wrote.moves
  have differs : some record ≠ before.lookup home t.id := by
    rw [found]
    intro same
    exact moves.differ (congrArg Record.current (Option.some.inj same)).symm
  cases home with
  | mongo =>
    have away : after.lookup .memory t.id = before.lookup .memory t.id := wrote.frame _ _ (by simp)
    simp only [FeedbackStore.changes, List.filterMap_cons, List.filterMap_nil, if_pos away,
      wrote.stored,
      if_neg differs]
  | memory =>
    have away : after.lookup .mongo t.id = before.lookup .mongo t.id := wrote.frame _ _ (by simp)
    simp only [FeedbackStore.changes, List.filterMap_cons, List.filterMap_nil, if_pos away,
      wrote.stored,
      if_neg differs]

end Effects

end Metahumotonic.Feedback.Fallback
