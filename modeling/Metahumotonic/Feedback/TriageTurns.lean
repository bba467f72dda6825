import Metahumotonic.Feedback.Lifecycle
import Metahumotonic.Feedback.TriageSteps

/-! What one step of the operator's calls does to the stored records and to the call it is of. -/
namespace Metahumotonic.Feedback.Fallback
open Metahumotonic.Library

/-- The status that a triage goes by: a record without one is new. -/
def Record.current {α : Type*} (record : Record α) : FeedbackStatus := record.status.getD .new

/-- The record has what the triage writes. -/
structure Stamped {α : Type*} (t : Triage) (home : Home) (record : Record α) : Prop where
  status : record.status = some t.verdict.status
  operatorNote : record.operatorNote = some t.operatorNote
  reviewedAt : record.reviewedAt = some (home.moment t.reviewedAt)

section Stored

variable {α : Type*}

def Unmoved (before after : FeedbackStore α) : Prop :=
  ∀ home id, after.lookup home id = before.lookup home id

/-- The triage wrote the record to its home, from one that it allows, and left the others. -/
structure Wrote (t : Triage) (home : Home) (record : Record α)
    (before after : FeedbackStore α) : Prop where
  old : ∃ old, before.lookup home t.id = some old ∧ old.current ∈ t.verdict.allowedFrom
  stamped : Stamped t home record
  stored : after.lookup home t.id = some record
  frame : ∀ other id, (other, id) ≠ (home, t.id) → after.lookup other id = before.lookup other id

/-- The record is gone from its home, unless the deque holds another of its id. -/
structure Erased (id : String) (home : Home) (before after : FeedbackStore α) : Prop where
  gone : after.lookup home id = none ∨
    (home = .memory ∧ after.lookup home id = before.lookup home id)
  frame : ∀ other key, (other, key) ≠ (home, id) → after.lookup other key = before.lookup other key

/-- A triage ends with anything but a record. -/
def Refusal (reply : Reply α) : Prop := ∀ record, reply ≠ .triaged (some record)

variable {s : Settings} {store : FeedbackStore α}

theorem stamped_stamp (t : Triage) (home : Home) (record : Record α) : Stamped t home
    (t.stamp home record) :=
  ⟨rfl, rfl, rfl⟩

theorem Unmoved.getCollection (s : Settings) (store : FeedbackStore α) (w : Weather) : Unmoved store
    (getCollection s w store).2 := by
  intro home id
  cases home with
  | mongo => simp only [FeedbackStore.lookup, getCollection_documents]
  | memory => simp only [FeedbackStore.lookup, getCollection_memory]

theorem Unmoved.degraded (store : FeedbackStore α) (w : Weather) : Unmoved store
    (degraded w store) := fun _ _ => rfl

theorem Unmoved.wrote {before between after : FeedbackStore α} (kept : Unmoved before between)
    {t : Triage} {home : Home}
    {record : Record α} (wrote : Wrote t home record between after) :
    Wrote t home record before after where
  old := by
    obtain ⟨old, found, allowed⟩ := wrote.old
    exact ⟨old, (kept home t.id).symm.trans found, allowed⟩
  stamped := wrote.stamped
  stored := wrote.stored
  frame other id away := (wrote.frame other id away).trans (kept other id)

theorem Unmoved.erased {before between after : FeedbackStore α} (kept : Unmoved before between)
    {id : String} {home : Home}
    (erased : Erased id home between after) : Erased id home before after where
  gone := by
    rcases erased.gone with gone | ⟨deque, same⟩
    · exact .inl gone
    · exact .inr ⟨deque, same.trans (kept home id)⟩
  frame other key away := (erased.frame other key away).trans (kept other key)

/-! The deque. -/

theorem triage_elsewhere (id : String) (verdict : Verdict) (note : String) (now : ℤ) {key : String}
    (other : key ≠ id)
    (memory : List (Record α)) :
    (memory.replaceF fun r => if r.id = id then some (r.triaged verdict note now) else none).find?
    (·.id == key) =
      memory.find? (·.id == key) := by
  induction memory with
  | nil => rfl
  | cons r memory ih =>
    by_cases same : r.id = id
    · subst same
      have before : (r.id == key) = false := by simpa using Ne.symm other
      have after : ((r.triaged verdict note now).id == key) = false := before
      simp only [List.replaceF, if_true, List.find?_cons, before, after]
    · simp [List.replaceF, same, List.find?_cons, ih]

theorem inMemory_turn (t : Triage) (store : FeedbackStore α) :
    ((t.inMemory store.memory).1 = .triaged none ∧
      Unmoved store { store with memory := (t.inMemory store.memory).2 }) ∨
      ∃ record, (t.inMemory store.memory).1 = .triaged (some record) ∧
        Wrote t .memory record store { store with memory := (t.inMemory store.memory).2 } := by
  unfold Triage.inMemory triageMemory
  cases found : store.memory.reverse.find? (·.id == t.id) with
  | none => exact .inl ⟨rfl, fun _ _ => rfl⟩
  | some record =>
    by_cases allowed : record.status.getD .new ∈ t.verdict.allowedFrom
    · have named : record.id = t.id := by simpa using List.find?_some found
      simp only [if_pos allowed]
      refine .inr ⟨_, rfl, ⟨record, found, allowed⟩, stamped_stamp t .memory record, ?_, ?_⟩
      · rw [← named] at found ⊢
        simp only [FeedbackStore.lookup, List.reverse_reverse]
        exact triage_found t.verdict t.operatorNote t.reviewedAt found
      · intro other id away
        cases other with
        | mongo => rfl
        | memory =>
          have differs : id ≠ t.id := fun same => away (congrArg (Prod.mk Home.memory) same)
          simp only [FeedbackStore.lookup, List.reverse_reverse]
          exact triage_elsewhere t.id t.verdict t.operatorNote t.reviewedAt differs
            store.memory.reverse
    · simp only [if_neg allowed]
      exact .inl ⟨trivial, fun _ _ => rfl⟩

theorem find_reverse_cons (p : Record α → Bool) (r : Record α) (memory : List (Record α)) :
    (r :: memory).reverse.find? p = (memory.reverse.find? p).or (if p r then some r else none) := by
  rw [List.reverse_cons, List.find?_append, List.find?_singleton]

theorem erase_elsewhere {id key : String} (other : key ≠ id) (memory : List (Record α)) :
    (memory.eraseP (·.id == id)).reverse.find? (·.id == key) = memory.reverse.find?
    (·.id == key) := by
  induction memory with
  | nil => rfl
  | cons r memory ih =>
    by_cases same : r.id = id
    · have unseen : (r.id == key) = false := by simpa [same] using Ne.symm other
      rw [List.eraseP_cons_of_pos (by simpa using same), find_reverse_cons, unseen]
      simp
    · rw [List.eraseP_cons_of_neg (by simpa using same), find_reverse_cons, ih, find_reverse_cons]

/-- The oldest record of an id is dropped and its newest one found. -/
theorem erase_here (id : String) (memory : List (Record α)) :
    (memory.eraseP (·.id == id)).reverse.find? (·.id == id) = none ∨
      (memory.eraseP (·.id == id)).reverse.find? (·.id == id) = memory.reverse.find?
      (·.id == id) := by
  induction memory with
  | nil => exact .inl rfl
  | cons r memory ih =>
    by_cases same : r.id = id
    · rw [List.eraseP_cons_of_pos (by simpa using same), find_reverse_cons]
      cases memory.reverse.find? (·.id == id) with
      | none => exact .inl rfl
      | some newest => exact .inr rfl
    · have unseen : (r.id == id) = false := by simpa using same
      rw [List.eraseP_cons_of_neg (by simpa using same), find_reverse_cons,
        find_reverse_cons, unseen]
      simpa using ih

theorem deleteMemory_erased (id : String) (store : FeedbackStore α) :
    Erased id .memory store { store with memory := (deleteMemory id store.memory).2 } := by
  unfold deleteMemory
  split
  · refine ⟨?_, ?_⟩
    · exact (erase_here id store.memory).imp_right fun same => ⟨rfl, same⟩
    · intro other key away
      cases other with
      | mongo => rfl
      | memory => exact erase_elsewhere (fun same =>
        away (congrArg (Prod.mk Home.memory) same)) store.memory
  · exact ⟨.inr ⟨rfl, rfl⟩, fun _ _ _ => rfl⟩

theorem orDeque_triage (failure : String) (t : Triage) (store : FeedbackStore α) :
    (Refusal (orDeque s failure t.inMemory store).1 ∧
      Unmoved store (orDeque s failure t.inMemory store).2) ∨
      ∃ record, (orDeque s failure t.inMemory store).1 = .triaged (some record) ∧
        Wrote t .memory record store (orDeque s failure t.inMemory store).2 := by
  unfold orDeque
  split
  · exact .inl ⟨nofun, fun _ _ => rfl⟩
  · rcases inMemory_turn t store with ⟨reply, kept⟩ | found
    · exact .inl ⟨fun record same => by simp [reply] at same, kept⟩
    · exact .inr found

theorem orDeque_delete (failure id : String) (store : FeedbackStore α) :
    Erased id .memory store (orDeque s failure (deleteMemory id) store).2 := by
  unfold orDeque
  split
  · exact ⟨.inr ⟨rfl, rfl⟩, fun _ _ _ => rfl⟩
  · exact deleteMemory_erased id store

/-! The database. -/

theorem set_wrote (t : Triage) {old : Record α} (found : store.documents.get? t.id = some old)
    (met : matched t.verdict old = true) :
    Wrote t .mongo (t.stamp .mongo old) store
      { store with documents := store.documents.set t.id (t.stamp .mongo old) } where
  old := ⟨old, found, (matched_iff t.verdict old).mp met⟩
  stamped := stamped_stamp t .mongo old
  stored := Table.get?_set_self _ _ _
  frame other id away := by
    cases other with
    | mongo => exact Table.get?_set_ne _ _ fun same => away (congrArg (Prod.mk Home.mongo) same)
    | memory => rfl

theorem erase_erased (id : String) (store : FeedbackStore α) :
    Erased id .mongo store { store with documents := store.documents.erase id } where
  gone := by
    refine .inl (Option.eq_none_iff_forall_ne_some.mpr fun record found => ?_)
    exact ((store.documents.get?_erase id id record).mp found).2 rfl
  frame other key away := by
    cases other with
    | memory => rfl
    | mongo =>
      have differs : key ≠ id := fun same => away (congrArg (Prod.mk Home.mongo) same)
      refine Option.ext fun record => ?_
      exact (store.documents.get?_erase id key record).trans (and_iff_left differs)

end Stored

section Steps

variable {α : Type*} {s : Settings} {service : Service α}

def Event.served : Event → Bool
  | .proceed _ served _ => served
  | _ => true

/-- Where the call of an event stands, if it has begun. -/
def standing (service : Service α) (event : Event) : Option (Progress α) :=
  service.calls[acting service event]?

/-- How the call of an event goes on, and what becomes of the stored records. -/
inductive Turn (service : Service α) (event : Event) (after : FeedbackStore α) :
    Progress α → Prop where
  | entered {t : Triage} (stood : standing service event = none)
    (kept : Unmoved service.store after) :
      Turn service event after (.updating t)
  | refused {t : Triage} {reply : Reply α}
      (stood : standing service event = none ∨ standing service event = some (.updating t))
      (refusal : Refusal reply) (kept : Unmoved service.store after) :
      Turn service event after (.triaged t reply)
  | inDeque {t : Triage} {record : Record α}
      (stood : standing service event = none ∨ standing service event = some (.updating t))
      (wrote : Wrote t .memory record service.store after) :
      Turn service event after (.triaged t (.triaged (some record)))
  | updated {t : Triage} {record : Record α} (stood : standing service event = some (.updating t))
      (served : event.served = true) (wrote : Wrote t .mongo record service.store after) :
      Turn service event after (.reading t)
  | read {t : Triage} (stood : standing service event = some (.reading t))
    (served : event.served = true)
      (kept : Unmoved service.store after) :
      Turn service event after (.triaged t (.triaged (service.store.lookup .mongo t.id)))
  | unread {t : Triage} {reply : Reply α} (stood : standing service event = some (.reading t))
      (failed : event.served = false) (refusal : Refusal reply)
      (kept : Unmoved service.store after) :
      Turn service event after (.triaged t reply)
  | again {t : Triage} {record : Record α} (stood : standing service event = some (.reading t))
      (failed : event.served = false) (wrote : Wrote t .memory record service.store after) :
      Turn service event after (.triaged t (.triaged (some record)))
  | deleting {id : String} (stood : standing service event = none)
    (kept : Unmoved service.store after) :
      Turn service event after (.deleting id)
  | deletedInDeque {id : String} {reply : Reply α}
      (stood : standing service event = none ∨ standing service event = some (.deleting id))
      (erased : Erased id .memory service.store after) :
      Turn service event after (.deleted id reply)
  | deleted {id : String} {reply : Reply α} (stood : standing service event = some (.deleting id))
      (served : event.served = true) (erased : Erased id .mongo service.store after) :
      Turn service event after (.deleted id reply)
  | idle {progress : Progress α} (stood : standing service event = some progress)
    (replied : progress.replied = true)
      (kept : Unmoved service.store after) : Turn service event after progress

theorem standing_triage (service : Service α) (t : Triage) (w : Weather) : standing service
    (.triage t w) = none :=
  List.getElem?_eq_none (Nat.le_refl _)

theorem standing_delete (service : Service α) (id : String) (w : Weather) : standing service
    (.delete id w) = none :=
  List.getElem?_eq_none (Nat.le_refl _)

theorem beginTriage_turn (t : Triage) (w : Weather) :
    Turn service (.triage t w) (beginTriage s w t service.store).2
      (beginTriage s w t service.store).1 := by
  have stood := standing_triage service t w
  have kept := Unmoved.getCollection s service.store w
  unfold beginTriage
  generalize getCollection s w service.store = found at kept ⊢
  obtain ⟨_ | _, store⟩ := found
  · rcases orDeque_triage (s := s) "durable feedback store unavailable" t store with
      ⟨refusal, same⟩ | ⟨record, reply, wrote⟩
    · exact .refused (.inl stood) refusal fun home id => (same home id).trans (kept home id)
    · dsimp only
      rw [reply]
      exact .inDeque (.inl stood) (kept.wrote wrote)
  · exact .entered stood kept

theorem beginDelete_turn (id : String) (w : Weather) :
    Turn service (.delete id w) (beginDelete s w id service.store).2
      (beginDelete s w id service.store).1 := by
  have stood := standing_delete service id w
  have kept := Unmoved.getCollection s service.store w
  unfold beginDelete
  generalize getCollection s w service.store = found at kept ⊢
  obtain ⟨_ | _, store⟩ := found
  · exact .deletedInDeque (.inl stood)
      (kept.erased (orDeque_delete "durable feedback store unavailable" id store))
  · exact .deleting stood kept

theorem updateOne_turn (t : Triage) (served : Bool) (w : Weather) (call : ℕ)
    (stood : standing service (.proceed call served w) = some (.updating t)) :
    Turn service (.proceed call served w) (updateOne s w served t service.store).2
      (updateOne s w served t service.store).1 := by
  unfold updateOne
  split
  · rename_i answered
    cases found : (service.store.documents.get? t.id).filter (matched t.verdict) with
    | none => exact .refused (.inr stood) (by rintro _ ⟨⟩) fun _ _ => rfl
    | some record =>
      obtain ⟨there, met⟩ := Option.filter_eq_some_iff.mp found
      exact .updated stood answered (set_wrote t there met)
  · unfold failedTriage
    rcases orDeque_triage (s := s) "mongo feedback update failed" t (degraded w service.store) with
      ⟨refusal, kept⟩ | ⟨record, reply, wrote⟩
    · exact .refused (.inr stood) refusal kept
    · dsimp only
      rw [reply]
      exact .inDeque (.inr stood) ((Unmoved.degraded service.store w).wrote wrote)

theorem findOne_turn (t : Triage) (served : Bool) (w : Weather) (call : ℕ)
    (stood : standing service (.proceed call served w) = some (.reading t)) :
    Turn service (.proceed call served w) (findOne s w served t service.store).2
      (findOne s w served t service.store).1 := by
  unfold findOne
  split
  · rename_i answered
    exact .read stood answered fun _ _ => rfl
  · rename_i unanswered
    have failed : served = false := Bool.eq_false_iff.mpr unanswered
    unfold failedTriage
    rcases orDeque_triage (s := s) "mongo feedback update failed" t (degraded w service.store) with
      ⟨refusal, kept⟩ | ⟨record, reply, wrote⟩
    · exact .unread stood failed refusal kept
    · dsimp only
      rw [reply]
      exact .again stood failed ((Unmoved.degraded service.store w).wrote wrote)

theorem deleteOne_turn (id : String) (served : Bool) (w : Weather) (call : ℕ)
    (stood : standing service (.proceed call served w) = some (.deleting id)) :
    Turn service (.proceed call served w) (deleteOne s w served id service.store).2
      (deleteOne s w served id service.store).1 := by
  unfold deleteOne
  split
  · rename_i answered
    exact .deleted stood answered (erase_erased id service.store)
  · exact .deletedInDeque (.inr stood)
      ((Unmoved.degraded service.store w).erased
        (orDeque_delete "mongo feedback delete failed" id _))

theorem next_turn (progress : Progress α) (served : Bool) (w : Weather) (call : ℕ)
    (stood : standing service (.proceed call served w) = some progress) :
    Turn service (.proceed call served w) (progress.next s w served service.store).2
      (progress.next s w served service.store).1 := by
  cases progress with
  | updating t => exact updateOne_turn t served w call stood
  | reading t => exact findOne_turn t served w call stood
  | deleting id => exact deleteOne_turn id served w call stood
  | triaged => exact .idle stood rfl fun _ _ => rfl
  | deleted => exact .idle stood rfl fun _ _ => rfl

/-- A step is a turn of one call; an event for a call that has not begun does nothing. -/
theorem step_turn (s : Settings) (service : Service α) (event : Event) :
    (step s service event = service ∧ standing service event = none) ∨
      ∃ progress, Turn service event (step s service event).store progress ∧
        ∀ call, (step s service event).calls[call]? =
          if call = acting service event then some progress else service.calls[call]? := by
  have added : ∀ (progress : Progress α) (call : ℕ), (service.calls ++ [progress])[call]? =
      if call = service.calls.length then some progress else service.calls[call]? := by
    intro progress call
    split
    · rename_i last
      rw [last, List.getElem?_concat_length]
    · rename_i other
      rcases Nat.lt_or_gt_of_ne other with early | late
      · exact List.getElem?_append_left early
      · rw [List.getElem?_eq_none (by simp; omega), List.getElem?_eq_none (by omega)]
  cases event with
  | triage t w => exact .inr ⟨_, beginTriage_turn t w, added _⟩
  | delete id w => exact .inr ⟨_, beginDelete_turn id w, added _⟩
  | proceed call served w =>
    cases there : service.calls[call]? with
    | none =>
      refine .inl ⟨?_, there⟩
      simp only [step, there]
    | some progress =>
      refine .inr ⟨(progress.next s w served service.store).1, ?_, ?_⟩
      · simp only [step, there]
        exact next_turn progress served w call there
      · intro other
        have begun : call < service.calls.length := (List.getElem?_eq_some_iff.mp there).1
        simp only [step, there, acting]
        rw [List.getElem?_set]
        by_cases same : call = other
        · simp [same, same ▸ begun]
        · simp [same, Ne.symm same]

end Steps

end Metahumotonic.Feedback.Fallback
