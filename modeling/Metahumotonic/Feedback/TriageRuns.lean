import Metahumotonic.Feedback.TriageAtomicity

/-! Runs of the operator's calls: an undisturbed run keeps every triage atomic, and a disturbed one
that comes to its end has a triage that is not. -/
namespace Metahumotonic.Feedback.Fallback
open Metahumotonic.Library

section Step

variable {α : Type*}

/-- What a call has changed so far, in an undisturbed run. -/
def Holds (store : FeedbackStore α) (changes : String → List (Home × Option (Record α))) :
    Option (Progress α) → Prop
  | none => ∀ id, changes id = []
  | some (.updating t) => changes t.id = []
  | some (.reading t) => ∃ record, changes t.id = [(.mongo, some record)] ∧
    Stamped t .mongo record ∧
      store.lookup .mongo t.id = some record
  | some (.triaged t reply) => Answers t reply (changes t.id)
  | some _ => True

/-- A call that has updated its record and will not read it as it wrote it, or that has ended so. -/
def Doomed (store : FeedbackStore α) (changes : String → List (Home × Option (Record α))) :
    Option (Progress α) → Prop
  | some (.reading t) =>
    (∃ record, changes t.id = [(.mongo, some record)] ∧ Stamped t .mongo record) ∧
      ∀ found, store.lookup .mongo t.id = some found → Moves t.verdict.status found.current
  | some (.triaged t reply) => ¬ Answers t reply (changes t.id)
  | _ => False

variable {s : Settings} {service : Service α} {event : Event}

/-- What a turn leaves of a record that no turn of the database is about. -/
theorem Turn.database {after : FeedbackStore α} {progress : Progress α}
    (turn : Turn service event after progress)
    (id : String) : after.lookup .mongo id = service.store.lookup .mongo id ∨
      (∃ (t : Triage) (record : Record α), t.id = id ∧ standing service event = some (.updating t) ∧
        event.served = true ∧ Wrote t .mongo record service.store after) ∨
      (standing service event = some (.deleting id) ∧ event.served = true ∧
        after.lookup .mongo id = none) := by
  cases turn with
  | entered stood kept => exact .inl (kept .mongo id)
  | refused stood refusal kept => exact .inl (kept .mongo id)
  | inDeque stood wrote => exact .inl (wrote.frame .mongo id (by simp))
  | @updated t record stood served wrote =>
    by_cases same : t.id = id
    · exact .inr (.inl ⟨t, record, same, stood, served, wrote⟩)
    · exact .inl (wrote.frame .mongo id fun here => same (congrArg Prod.snd here).symm)
  | read stood served kept => exact .inl (kept .mongo id)
  | unread stood failed refusal kept => exact .inl (kept .mongo id)
  | again stood failed wrote => exact .inl (wrote.frame .mongo id (by simp))
  | deleting stood kept => exact .inl (kept .mongo id)
  | deletedInDeque stood erased => exact .inl (erased.frame .mongo id (by simp))
  | @deleted key reply stood served erased =>
    by_cases same : key = id
    · subst same
      rcases erased.gone with gone | ⟨deque, -⟩
      · exact .inr (.inr ⟨stood, served, gone⟩)
      · cases deque
    · exact .inl (erased.frame .mongo id fun here => same (congrArg Prod.snd here).symm)
  | idle stood replied kept => exact .inl (kept .mongo id)

theorem Turn.evolves {after : FeedbackStore α} {progress : Progress α}
    (turn : Turn service event after progress)
    (home : Home) (id : String) : Evolves Moves ((service.store.lookup home id).map Record.current)
      ((after.lookup home id).map Record.current) := by
  cases turn with
  | entered stood kept => exact kept.evolves home id
  | refused stood refusal kept => exact kept.evolves home id
  | inDeque stood wrote => exact wrote.evolves home id
  | updated stood served wrote => exact wrote.evolves home id
  | read stood served kept => exact kept.evolves home id
  | unread stood failed refusal kept => exact kept.evolves home id
  | again stood failed wrote => exact wrote.evolves home id
  | deleting stood kept => exact kept.evolves home id
  | deletedInDeque stood erased => exact erased.evolves home id
  | deleted stood served erased => exact erased.evolves home id
  | idle stood replied kept => exact kept.evolves home id

theorem step_evolves (s : Settings) (service : Service α) (event : Event) (home : Home)
    (id : String) :
    Evolves Moves ((service.store.lookup home id).map Record.current)
      (((step s service event).store.lookup home id).map Record.current) := by
  rcases step_turn s service event with ⟨same, -⟩ | ⟨progress, turn, -⟩
  · rw [same]
    exact .kept _
  · exact turn.evolves home id

theorem refusal_answers {t : Triage} {reply : Reply α} (refusal : Refusal reply) :
    Answers t reply [] :=
  ⟨fun _ => rfl, fun record same => absurd same (refusal record)⟩

theorem record_answers {t : Triage} {home : Home} {record : Record α}
    (stamped : Stamped t home record) :
    Answers t (.triaged (some record)) [(home, some record)] := by
  refine ⟨fun refusal => absurd rfl (refusal record), ?_⟩
  rintro _ ⟨⟩
  exact ⟨home, rfl, stamped⟩

theorem refusal_unanswered {t : Triage} {reply : Reply α} (refusal : Refusal reply)
    (change : Home × Option (Record α)) :
    ¬ Answers t reply [change] := by
  intro answers
  cases answers.refused refusal

theorem twice_unanswered {t : Triage} {record : Record α}
    (first second : Home × Option (Record α)) :
    ¬ Answers t (.triaged (some record)) [first, second] := by
  intro answers
  obtain ⟨home, once, -⟩ := answers.answered record rfl
  cases once

/-- How a triage ends whose read raises. -/
inductive Unread (service : Service α) (t : Triage) (after : FeedbackStore α) :
    Progress α → Prop where
  | refused {reply : Reply α} (refusal : Refusal reply) (kept : Unmoved service.store after) :
      Unread service t after (.triaged t reply)
  | again {record : Record α} (wrote : Wrote t .memory record service.store after) :
      Unread service t after (.triaged t (.triaged (some record)))

theorem Turn.of_reading {after : FeedbackStore α} {progress : Progress α}
    (turn : Turn service event after progress)
    {t : Triage} (reading : standing service event = some (.reading t)) :
    (event.served = true ∧ Unmoved service.store after ∧
        progress = .triaged t (.triaged (service.store.lookup .mongo t.id))) ∨
      (event.served = false ∧ Unread service t after progress) := by
  cases turn with
  | read stood served kept =>
    cases Option.some.inj (reading.symm.trans stood)
    exact .inl ⟨served, kept, rfl⟩
  | unread stood failed refusal kept =>
    cases Option.some.inj (reading.symm.trans stood)
    exact .inr ⟨failed, .refused refusal kept⟩
  | again stood failed wrote =>
    cases Option.some.inj (reading.symm.trans stood)
    exact .inr ⟨failed, .again wrote⟩
  | idle stood replied =>
    cases Option.some.inj (reading.symm.trans stood)
    cases replied
  | entered stood => cases reading.symm.trans stood
  | refused stood => rcases stood with stood | stood <;> cases reading.symm.trans stood
  | inDeque stood => rcases stood with stood | stood <;> cases reading.symm.trans stood
  | updated stood => cases reading.symm.trans stood
  | deleting stood => cases reading.symm.trans stood
  | deletedInDeque stood => rcases stood with stood | stood <;> cases reading.symm.trans stood
  | deleted stood => cases reading.symm.trans stood

theorem Turn.of_over {after : FeedbackStore α} {progress ended : Progress α}
    (turn : Turn service event after progress)
    (stands : standing service event = some ended) (replied : ended.replied = true) :
    progress = ended ∧ Unmoved service.store after := by
  cases turn with
  | idle stood _ kept => exact ⟨Option.some.inj (stood.symm.trans stands), kept⟩
  | entered stood => cases stands.symm.trans stood
  | deleting stood => cases stands.symm.trans stood
  | refused stood =>
    rcases stood with stood | stood
    · cases stands.symm.trans stood
    · cases Option.some.inj (stands.symm.trans stood)
      cases replied
  | inDeque stood =>
    rcases stood with stood | stood
    · cases stands.symm.trans stood
    · cases Option.some.inj (stands.symm.trans stood)
      cases replied
  | deletedInDeque stood =>
    rcases stood with stood | stood
    · cases stands.symm.trans stood
    · cases Option.some.inj (stands.symm.trans stood)
      cases replied
  | updated stood =>
    cases Option.some.inj (stands.symm.trans stood)
    cases replied
  | read stood =>
    cases Option.some.inj (stands.symm.trans stood)
    cases replied
  | unread stood =>
    cases Option.some.inj (stands.symm.trans stood)
    cases replied
  | again stood =>
    cases Option.some.inj (stands.symm.trans stood)
    cases replied
  | deleted stood =>
    cases Option.some.inj (stands.symm.trans stood)
    cases replied

variable {changes : String → List (Home × Option (Record α))}

/-- A call that stands before its read still finds what it wrote. -/
theorem Turn.holds_other {after : FeedbackStore α} {progress : Progress α}
    (turn : Turn service event after progress)
    (undisturbed : Undisturbed service event) {call : ℕ}
    (holds : Holds service.store changes service.calls[call]?) :
    Holds after changes service.calls[call]? := by
  unfold Undisturbed at undisturbed
  cases there : service.calls[call]? with
  | none =>
    rw [there] at holds
    exact holds
  | some progress =>
    rw [there] at holds
    cases progress with
    | reading t =>
      obtain ⟨record, written, stamped, found⟩ := holds
      refine ⟨record, written, stamped, ?_⟩
      have reads := List.mem_of_getElem? there
      rcases turn.database t.id with
        same | ⟨u, other, named, stood, served, wrote⟩ | ⟨stood, served, -⟩
      · exact same.trans found
      · rw [stood] at undisturbed
        obtain ⟨old, stored, allowed⟩ := wrote.old
        have met : (service.store.documents.get? u.id).any (matched u.verdict) = true := by
          have here : service.store.documents.get? u.id = some old := stored
          rw [here, Option.any_some, matched_iff]
          exact allowed
        exact absurd named.symm (undisturbed served met _ reads)
      · rw [stood] at undisturbed
        exact absurd rfl (undisturbed served ((Table.mem_keys _ _).mpr ⟨record, found⟩) _ reads)
    | updating => exact holds
    | triaged => exact holds
    | deleting => trivial
    | deleted => trivial

/-- A record that went on from where a triage left it does not come back. -/
theorem Turn.doomed_other {after : FeedbackStore α} {progress : Progress α}
    (turn : Turn service event after progress)
    {call : ℕ} (doomed : Doomed service.store changes service.calls[call]?) :
    Doomed after changes service.calls[call]? := by
  cases there : service.calls[call]? with
  | none =>
    rw [there] at doomed
    exact doomed
  | some progress =>
    rw [there] at doomed
    cases progress with
    | updating => exact doomed
    | triaged => exact doomed
    | deleting => exact doomed
    | deleted => exact doomed
    | reading t =>
      refine ⟨doomed.1, fun found stored => ?_⟩
      rcases turn.database t.id with same | ⟨u, record, named, -, -, wrote⟩ | ⟨-, -, gone⟩
      · exact doomed.2 found (same.symm.trans stored)
      · obtain ⟨old, before, moves⟩ := wrote.moves
        rw [← named, wrote.stored] at stored
        obtain rfl := Option.some.inj stored
        rw [named] at before
        exact (doomed.2 old before).trans moves
      · rw [gone] at stored
        cases stored

theorem step_updates {t : Triage} (stands : standing service event = some (.updating t))
    (served : event.served = true) {old : Record α}
    (found : service.store.documents.get? t.id = some old)
    (met : matched t.verdict old = true) :
    Wrote t .mongo (t.stamp .mongo old) service.store (step s service event).store := by
  cases event with
  | triage u w =>
    rw [standing_triage] at stands
    cases stands
  | delete id w =>
    rw [standing_delete] at stands
    cases stands
  | proceed call answered w =>
    have there : service.calls[call]? = some (.updating t) := stands
    have answered : answered = true := served
    simp only [step, there, Progress.next, updateOne, if_pos answered, found, Option.filter_some,
      met, if_true]
    exact set_wrote t found met

theorem step_deletes {id : String} (stands : standing service event = some (.deleting id))
    (served : event.served = true) : (step s service event).store.lookup .mongo id = none := by
  cases event with
  | triage u w =>
    rw [standing_triage] at stands
    cases stands
  | delete id w =>
    rw [standing_delete] at stands
    cases stands
  | proceed call answered w =>
    have there : service.calls[call]? = some (.deleting id) := stands
    have answered : answered = true := served
    simp only [step, there, Progress.next, deleteOne, if_pos answered]
    rcases (erase_erased id service.store).gone with gone | ⟨deque, -⟩
    · exact gone
    · cases deque

variable [DecidableEq α]

/-- The call of the step keeps to what it may have changed. -/
theorem Turn.holds {after : FeedbackStore α} {progress : Progress α}
    (turn : Turn service event after progress)
    (undisturbed : Undisturbed service event)
    (holds : Holds service.store changes (standing service event)) :
    Holds after (fun id => changes id ++ service.store.changes id after) (some progress) := by
  unfold Undisturbed at undisturbed
  cases turn with
  | @entered t stood kept =>
    rw [stood] at holds
    simp only [Holds, kept.changes, List.append_nil]
    exact holds t.id
  | @refused t reply stood refusal kept =>
    have nothing : changes t.id = [] := by
      rcases stood with stood | stood <;> rw [stood] at holds
      · exact holds t.id
      · exact holds
    simp only [Holds, kept.changes, List.append_nil, nothing]
    exact refusal_answers refusal
  | @inDeque t record stood wrote =>
    have nothing : changes t.id = [] := by
      rcases stood with stood | stood <;> rw [stood] at holds
      · exact holds t.id
      · exact holds
    simp only [Holds, wrote.changes, nothing, List.nil_append]
    exact record_answers wrote.stamped
  | @updated t record stood served wrote =>
    rw [stood] at holds
    have nothing : changes t.id = [] := holds
    simp only [Holds, wrote.changes, nothing, List.nil_append]
    exact ⟨record, rfl, wrote.stamped, wrote.stored⟩
  | @read t stood served kept =>
    rw [stood] at holds
    obtain ⟨record, written, stamped, found⟩ := holds
    simp only [Holds, kept.changes, List.append_nil, written, found]
    exact record_answers stamped
  | unread stood failed =>
    rw [stood] at undisturbed
    exact absurd (failed.symm.trans undisturbed) nofun
  | again stood failed =>
    rw [stood] at undisturbed
    exact absurd (failed.symm.trans undisturbed) nofun
  | deleting => trivial
  | deletedInDeque => trivial
  | deleted => trivial
  | idle stood replied kept =>
    rw [stood] at holds
    cases progress with
    | triaged t reply =>
      simp only [Holds, kept.changes, List.append_nil]
      exact holds
    | deleted => trivial
    | updating => cases replied
    | reading => cases replied
    | deleting => cases replied

theorem stepChanges_idle (same : step s service event = service) (call : ℕ) (id : String) :
    stepChanges s service event call id = [] := by
  unfold stepChanges
  rw [same]
  split
  · exact Unmoved.changes (fun _ _ => rfl) id
  · rfl

theorem step_holds {changes : ℕ → String → List (Home × Option (Record α))}
    (undisturbed : Undisturbed service event)
    (holds : ∀ call, Holds service.store (changes call) service.calls[call]?) (call : ℕ) :
    Holds (step s service event).store
      (fun id => changes call id ++ stepChanges s service event call id)
      (step s service event).calls[call]? := by
  rcases step_turn s service event with ⟨same, -⟩ | ⟨progress, turn, calls⟩
  · simp only [stepChanges_idle same, List.append_nil]
    rw [same]
    exact holds call
  · rw [calls call]
    unfold stepChanges
    by_cases own : call = acting service event
    · subst own
      simp only [if_true]
      exact turn.holds undisturbed (holds (acting service event))
    · simp only [if_neg own, if_neg (Ne.symm own), List.append_nil]
      exact turn.holds_other undisturbed (holds call)

/-! Towards a reply that is not atomic. -/

/-- A triage whose read raises has written in vain, or writes again. -/
theorem unread_doomed {after : FeedbackStore α} {t : Triage} {record : Record α}
    {progress : Progress α}
    (written : changes t.id = [(.mongo, some record)]) (unread : Unread service t after progress) :
    Doomed after (fun id => changes id ++ service.store.changes id after) (some progress) := by
  cases unread with
  | refused refusal kept =>
    simp only [Doomed, kept.changes, List.append_nil, written]
    exact refusal_unanswered refusal _
  | again wrote =>
    simp only [Doomed, wrote.changes, written, List.singleton_append]
    exact twice_unanswered _ _

theorem Turn.doomed {after : FeedbackStore α} {progress : Progress α}
    (turn : Turn service event after progress)
    (doomed : Doomed service.store changes (standing service event)) :
    Doomed after (fun id => changes id ++ service.store.changes id after) (some progress) := by
  cases stands : standing service event with
  | none =>
    rw [stands] at doomed
    exact doomed.elim
  | some before =>
    rw [stands] at doomed
    cases before with
    | updating => exact doomed.elim
    | deleting => exact doomed.elim
    | deleted => exact doomed.elim
    | reading t =>
      obtain ⟨⟨record, written, stamped⟩, lost⟩ := doomed
      rcases turn.of_reading stands with ⟨-, kept, rfl⟩ | ⟨-, unread⟩
      · simp only [Doomed, kept.changes, List.append_nil, written]
        cases found : service.store.lookup .mongo t.id with
        | none =>
          have refusal : Refusal (.triaged none : Reply α) := nofun
          exact refusal_unanswered refusal _
        | some other =>
          intro answers
          obtain ⟨home, same, -⟩ := answers.answered other rfl
          obtain ⟨rfl, rfl⟩ : Home.mongo = home ∧ record = other := by simpa using same
          exact (lost record found).differ stamped.current.symm
      · exact unread_doomed written unread
    | triaged t reply =>
      obtain ⟨rfl, kept⟩ := turn.of_over stands rfl
      simp only [Doomed, kept.changes, List.append_nil]
      exact doomed

theorem step_doomed {changes : ℕ → String → List (Home × Option (Record α))} {call : ℕ}
    (doomed : Doomed service.store (changes call) service.calls[call]?) :
    Doomed (step s service event).store
      (fun id => changes call id ++ stepChanges s service event call id)
      (step s service event).calls[call]? := by
  rcases step_turn s service event with ⟨same, -⟩ | ⟨progress, turn, calls⟩
  · simp only [stepChanges_idle same, List.append_nil]
    rw [same]
    exact doomed
  · rw [calls call]
    unfold stepChanges
    by_cases own : call = acting service event
    · subst own
      simp only [if_true]
      exact turn.doomed doomed
    · simp only [if_neg own, if_neg (Ne.symm own), List.append_nil]
      exact turn.doomed_other doomed

/-- Where another call of the step takes its record, a triage before its read is doomed. -/
theorem overtaken_doomed {changes : ℕ → String → List (Home × Option (Record α))}
    (holds : ∀ call, Holds service.store (changes call) service.calls[call]?) {id : String}
    {reader : Progress α}
    (member : reader ∈ service.calls) (reads : reader.Reads id)
    (other : standing service event ≠ some reader)
    (taken : ∀ old found, service.store.lookup .mongo id = some old →
      (step s service event).store.lookup .mongo id = some found →
        Moves old.current found.current) :
    ∃ call, Doomed (step s service event).store
      (fun id => changes call id ++ stepChanges s service event call id)
      (step s service event).calls[call]? := by
  obtain ⟨call, there⟩ := List.mem_iff_getElem?.mp member
  have away : call ≠ acting service event := by
    rintro rfl
    exact other there
  have unmoved : (step s service event).calls[call]? = some reader := by
    rcases step_turn s service event with ⟨same, -⟩ | ⟨progress, -, calls⟩
    · rw [same, there]
    · rw [calls call, if_neg away, there]
  have held := holds call
  cases reader with
  | reading t =>
    have named : t.id = id := reads
    rw [there] at held
    obtain ⟨record, written, stamped, found⟩ := held
    refine ⟨call, ?_⟩
    rw [unmoved]
    refine ⟨⟨record, ?_, stamped⟩, fun later stored => ?_⟩
    · simp only [stepChanges, if_neg (Ne.symm away), List.append_nil, written]
    · subst named
      exact stamped.current ▸ taken record later found stored
  | updating => exact reads.elim
  | triaged => exact reads.elim
  | deleting => exact reads.elim
  | deleted => exact reads.elim

theorem step_disturbed {changes : ℕ → String → List (Home × Option (Record α))}
    (holds : ∀ call, Holds service.store (changes call) service.calls[call]?)
    (disturbed : ¬ Undisturbed service event) :
    ∃ call, Doomed (step s service event).store
      (fun id => changes call id ++ stepChanges s service event call id)
      (step s service event).calls[call]? := by
  unfold Undisturbed at disturbed
  cases stands : standing service event with
  | none =>
    rw [stands] at disturbed
    exact absurd trivial disturbed
  | some progress =>
    rw [stands] at disturbed
    cases progress with
    | triaged => exact absurd trivial disturbed
    | deleted => exact absurd trivial disturbed
    | reading t =>
      have failed : event.served = false := Bool.eq_false_iff.mpr disturbed
      have held := holds (acting service event)
      rw [show service.calls[acting service event]? = some (.reading t) from stands] at held
      obtain ⟨record, written, -, -⟩ := held
      rcases step_turn s service event with ⟨-, away⟩ | ⟨progress, turn, calls⟩
      · cases stands.symm.trans away
      · refine ⟨acting service event, ?_⟩
        rcases turn.of_reading stands with ⟨served, -⟩ | ⟨-, unread⟩
        · exact absurd (failed.symm.trans served) nofun
        · rw [calls, if_pos rfl]
          simp only [stepChanges, if_true]
          exact unread_doomed written unread
    | updating t =>
      simp only [not_forall, not_not] at disturbed
      obtain ⟨served, met, reader, member, reads⟩ := disturbed
      obtain ⟨old, found, allowed⟩ : ∃ old, service.store.documents.get? t.id = some old ∧
          matched t.verdict old = true := by
        cases found : service.store.documents.get? t.id with
        | none =>
          rw [found] at met
          cases met
        | some old =>
          rw [found] at met
          exact ⟨old, rfl, met⟩
      have wrote := step_updates (s := s) stands served found allowed
      refine overtaken_doomed holds member reads ?_ ?_
      · rintro same
        obtain rfl := Option.some.inj (stands.symm.trans same)
        exact reads
      · intro before later there stored
        obtain ⟨first, there', moves⟩ := wrote.moves
        rw [wrote.stored] at stored
        obtain rfl := Option.some.inj stored
        obtain rfl := Option.some.inj (there.symm.trans there')
        exact moves
    | deleting id =>
      simp only [not_forall, not_not] at disturbed
      obtain ⟨served, -, reader, member, reads⟩ := disturbed
      refine overtaken_doomed holds member reads ?_ ?_
      · rintro same
        obtain rfl := Option.some.inj (stands.symm.trans same)
        exact reads
      · intro before later there stored
        rw [step_deletes stands served] at stored
        cases stored

end Step

section Run

variable {α : Type*} {s : Settings} {store : FeedbackStore α}

theorem undisturbed_start {service : Service α} (before after : List Event)
    (undisturbed : UndisturbedRun s service (before ++ after)) :
    UndisturbedRun s service before := by
  induction before generalizing service with
  | nil => trivial
  | cons event rest ih => exact ⟨undisturbed.1, ih undisturbed.2⟩

theorem holds_initially (call : ℕ) : Holds store (fun _ => []) (Service.mk store []).calls[call]? :=
  fun _ => rfl

/-- A record never leaves the ways of the lifecycle, however its calls interleave. -/
theorem statusPath_moves (s : Settings) (home : Home) (id : String) (service : Service α)
    (events : List Event) :
    (statusPath s home id service events).IsChain Moves := by
  apply path_follows fun _ _ moves => moves.differ
  exact scanl_chain (step s) (fun state event => step_evolves s state event home id) service events

variable [DecidableEq α]

theorem run_holds (service : Service α) (changes : ℕ → String → List (Home × Option (Record α)))
    (holds : ∀ call, Holds service.store (changes call) service.calls[call]?) (events : List Event)
    (undisturbed : UndisturbedRun s service events) (call : ℕ) :
    Holds (runEvents s service events).store
      (fun id => changes call id ++ changesBy s call id service events)
      (runEvents s service events).calls[call]? := by
  induction events generalizing service changes with
  | nil =>
    simp only [changesBy, List.append_nil]
    exact holds call
  | cons event rest ih =>
    have later := ih (step s service event) _ (fun call => step_holds undisturbed.1 holds call)
      undisturbed.2
    simp only [changesBy, ← List.append_assoc]
    exact later

theorem run_doomed (service : Service α)
    (changes : ℕ → String → List (Home × Option (Record α))) {call : ℕ}
    (doomed : Doomed service.store (changes call) service.calls[call]?) (events : List Event) :
    Doomed (runEvents s service events).store
      (fun id => changes call id ++ changesBy s call id service events)
      (runEvents s service events).calls[call]? := by
  induction events generalizing service changes with
  | nil =>
    simp only [changesBy, List.append_nil]
    exact doomed
  | cons event rest ih =>
    have later := ih (step s service event)
      (fun call id => changes call id ++ stepChanges s service event call id)
      (step_doomed doomed)
    simp only [changesBy, ← List.append_assoc]
    exact later

theorem run_disturbed (service : Service α) (changes : ℕ → String → List (Home × Option (Record α)))
    (holds : ∀ call, Holds service.store (changes call) service.calls[call]?) (events : List Event)
    (disturbed : ¬ UndisturbedRun s service events) :
    ∃ call, Doomed (runEvents s service events).store
      (fun id => changes call id ++ changesBy s call id service events)
      (runEvents s service events).calls[call]? := by
  induction events generalizing service changes with
  | nil => exact absurd trivial disturbed
  | cons event rest ih =>
    by_cases first : Undisturbed service event
    · have later := ih (step s service event) _ (fun call => step_holds first holds call)
        fun rest => disturbed ⟨first, rest⟩
      simp only [changesBy, ← List.append_assoc]
      exact later
    · obtain ⟨call, doomed⟩ := step_disturbed holds first
      refine ⟨call, ?_⟩
      simp only [changesBy, ← List.append_assoc]
      exact run_doomed (step s service event)
        (fun call id => changes call id ++ stepChanges s service event call id)
        doomed rest

theorem atomic_of_undisturbed {events : List Event}
    (undisturbed : UndisturbedRun s ⟨store, []⟩ events) :
    Atomic s store events where
  answers call t reply ended := by
    have holds := run_holds ⟨store, []⟩ (fun _ _ => []) holds_initially events undisturbed call
    rw [ended] at holds
    simpa only [Holds, List.nil_append] using holds
  lifecycle home id := statusPath_moves s home id ⟨store, []⟩ events

theorem undisturbed_of_atomic {events : List Event}
    (replied : ∀ progress ∈ (runEvents s ⟨store, []⟩ events).calls, progress.replied = true)
    (atomic : Atomic s store events) : UndisturbedRun s ⟨store, []⟩ events := by
  by_contra disturbed
  obtain ⟨call, doomed⟩ :=
    run_disturbed ⟨store, []⟩ (fun _ _ => []) holds_initially events disturbed
  cases ended : (runEvents s ⟨store, []⟩ events).calls[call]? with
  | none =>
    rw [ended] at doomed
    exact doomed
  | some progress =>
    rw [ended] at doomed
    have last := replied progress (List.mem_of_getElem? ended)
    cases progress with
    | updating => exact doomed
    | deleting => exact doomed
    | deleted => exact doomed
    | reading => cases last
    | triaged t reply =>
      simp only [Doomed, List.nil_append] at doomed
      exact doomed (atomic.answers call t reply ended)

/-- Every undisturbed run is atomic in every state, and a run in which every call comes to its reply
is atomic only if it is undisturbed. -/
theorem triage_atomic_iff (s : Settings) (store : FeedbackStore α) (events : List Event) :
    (UndisturbedRun s ⟨store, []⟩ events → ∀ before, before <+: events → Atomic s store before) ∧
      ((∀ progress ∈ (runEvents s ⟨store, []⟩ events).calls, progress.replied = true) →
        (Atomic s store events ↔ UndisturbedRun s ⟨store, []⟩ events)) := by
  constructor
  · rintro undisturbed before ⟨after, rfl⟩
    exact atomic_of_undisturbed (undisturbed_start before after undisturbed)
  · intro replied
    exact ⟨undisturbed_of_atomic replied, atomic_of_undisturbed⟩

/-- A new record of the database, under the operator's strict setting. -/
def strictSettings : Settings := ⟨"mongodb://db", true⟩

def newRecord : Record Unit := ⟨"r", 0, some .new, some "", none, ()⟩

def oneRecord : FeedbackStore Unit := { documents := Table.empty.set "r" newRecord }

def review : Triage := ⟨"r", .reviewed, "seen", 5000⟩

/-- A triage whose update is served, and whose read is served or raises. -/
def reviewed (read : Bool) : List Event :=
  [.triage review (fair 0), .proceed 0 true (fair 1), .proceed 0 read (fair 2)]

theorem triage_atomic_iff_sample : Atomic strictSettings oneRecord (reviewed true) := by
  have replied : ∀ progress ∈ (runEvents strictSettings ⟨oneRecord, []⟩ (reviewed true)).calls,
      progress.replied = true := by decide
  exact ((triage_atomic_iff strictSettings oneRecord (reviewed true)).2 replied).mpr (by decide)

/-- The caller is told that the update failed, and the record is reviewed. -/
theorem raised_after_update : ¬ Atomic strictSettings oneRecord (reviewed false) := by
  intro atomic
  have ended : (runEvents strictSettings ⟨oneRecord, []⟩ (reviewed false)).calls[0]? =
      some (.triaged review (.unavailable "mongo feedback update failed")) := by decide
  have nothing := (atomic.answers 0 review _ ended).refused nofun
  revert nothing
  decide

end Run

end Metahumotonic.Feedback.Fallback
