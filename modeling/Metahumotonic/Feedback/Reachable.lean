import Metahumotonic.Feedback.Homes

/-! Acknowledged records of the Python store: in every run a record that was acknowledged and not
erased since is in its home, and a call that the home answers acts on it. -/
namespace Metahumotonic.Feedback.Fallback
open Metahumotonic.Library

section Acts

variable {α : Type*} {s : Settings} {cursor : Cursor α} {store : FeedbackStore α}
    {record : Record α}

theorem matched_iff (verdict : Verdict) (record : Record α) :
    matched verdict record = true ↔ record.status.getD .new ∈ verdict.allowedFrom := by
  unfold matched
  cases verdict <;> rcases record.status with _ | _ | _ | _ | _ <;> simp [Verdict.allowedFrom]

theorem triage_found (verdict : Verdict) (note : String) (now : ℤ) {memory : List (Record α)}
    (found : memory.find? (·.id == record.id) = some record) :
    (memory.replaceF fun r => if r.id = record.id then some (r.triaged verdict note now)
      else none).find?
      (·.id == record.id) = some (record.triaged verdict note now) := by
  induction memory with
  | nil => cases found
  | cons r memory ih =>
    by_cases same : r.id = record.id
    · have first : r = record := by simpa [List.find?_cons, same] using found
      subst first
      simp [List.replaceF, Record.triaged]
    · have later : memory.find? (·.id == record.id) = some record := by
        simpa [List.find?_cons, same] using found
      simp [List.replaceF, same, ih later]

/-- The database answers a triage unless one of the operations it needs fails. -/
theorem triageMongo_answers (w : Weather) (id : String) (verdict : Verdict)
    (note : String) (now : ℤ)
    (documents : Documents α) :
    (triageMongo w id verdict note now documents).1.isSome = true ↔
      w.first = .served ∧ (w.second = .served ∨ ¬ (documents.get? id).any (matched verdict)) := by
  unfold triageMongo
  cases found : documents.get? id with
  | none =>
    cases w.first <;> simp
  | some record =>
    cases met : matched verdict record with
    | false => cases w.first <;> simp [met, Option.filter_some]
    | true => cases w.first <;> cases w.second <;> simp [met, Option.filter_some]

theorem triage_answeredBy (w : Weather) (id : String) (verdict : Verdict)
    (note : String) (now : ℤ) :
    answeredBy s store (.triage id verdict note now, w) = .mongo ↔
      (getCollection s w store).1 = true ∧
      (triageMongo w id verdict note now store.documents).1.isSome = true := by
  rw [triageMongo_answers, answeredBy, ← and_assoc]
  by_cases reached : (getCollection s w store).1 = true ∧ w.first = .served
  · rw [if_pos reached]
    dsimp only
    by_cases ended : w.second = .served ∨ ¬ (store.documents.get? id).any (matched verdict) = true
    · rw [if_pos ended]
      exact iff_of_true rfl ⟨reached, ended⟩
    · rw [if_neg ended]
      exact iff_of_false nofun (fun both => ended both.2)
  · rw [if_neg reached]
    simp [reached]

/-- Where the home is the deque, no answer of the database comes before it. -/
theorem not_answered {attempt : Option (Reply α)} {reached : Bool} {home : Home}
    (iff : home = .mongo ↔ reached = true ∧ attempt.isSome = true) (away : home = .memory)
    {reply : Reply α}
    (there : reached = true) : attempt ≠ some reply := by
  rintro rfl
  have answered := iff.mpr ⟨there, rfl⟩
  rw [away] at answered
  cases answered

theorem triage_acts (lenient : s.feedbackRequireDurable = false) (w : Weather) {home : Home}
    (found : store.lookup home record.id = some record) (verdict : Verdict)
    (note : String) (now : ℤ)
    (answered : answeredBy s store (.triage record.id verdict note now, w) = home)
    (allowed : record.status.getD .new ∈ verdict.allowedFrom) :
    (triage s w store record.id verdict note now).1 = .triaged
    (some (record.triaged verdict note now)) ∧
      (triage s w store record.id verdict note now).2.lookup home record.id =
        some (record.triaged verdict note now) := by
  have cases_ := orMemory_cases s w store lenient (triageMongo w record.id verdict note now)
    "mongo feedback update failed" (triageMemory record.id verdict note now)
  rw [← triage] at cases_
  have side : answeredBy s store (.triage record.id verdict note now, w) = .mongo ↔
      (getCollection s w store).1 = true ∧
      (triageMongo w record.id verdict note now store.documents).1.isSome = true :=
    triage_answeredBy w record.id verdict note now
  cases home with
  | mongo =>
    have there : store.documents.get? record.id = some record := found
    have met := (matched_iff verdict record).mpr allowed
    obtain ⟨reached, served⟩ := side.mp answered
    have ended := (triageMongo_answers w record.id verdict note now store.documents).mp served
    rw [there, Option.any_some, met] at ended
    have second : w.second = .served := ended.2.resolve_right (fun unmatched => unmatched rfl)
    have attempt : triageMongo w record.id verdict note now store.documents =
        (some (.triaged (some (record.triaged verdict note now))),
          store.documents.set record.id (record.triaged verdict note now)) := by
      simp only [triageMongo, there, Option.filter_some, met, if_true, ended.1, second,
        Table.get?_set_self]
    rw [attempt] at cases_
    rcases cases_ with ⟨-, reply, documents, -⟩ | ⟨unanswered, -⟩
    · refine ⟨(Option.some.inj reply).symm, ?_⟩
      rw [FeedbackStore.lookup, documents, Table.get?_set_self]
    · rw [reached] at unanswered
      rcases unanswered with away | failed
      · cases away
      · cases failed
  | memory =>
    have there : store.memory.reverse.find? (·.id == record.id) = some record := found
    rcases cases_ with ⟨reached, reply, -⟩ | ⟨-, reply, memory, -⟩
    · exact absurd reply (not_answered side answered reached)
    · have fallback : triageMemory record.id verdict note now store.memory =
          (.triaged (some (record.triaged verdict note now)),
            (store.memory.reverse.replaceF fun r =>
            if r.id = record.id then some (r.triaged verdict note now) else none).reverse) := by
        simp only [triageMemory, there, if_pos allowed]
      rw [fallback] at reply memory
      refine ⟨reply, ?_⟩
      rw [FeedbackStore.lookup, memory, List.reverse_reverse]
      exact triage_found verdict note now there

theorem delete_acts (lenient : s.feedbackRequireDurable = false) (sound : Sound store) (w : Weather)
    {home : Home}
    {id : String} (found : store.lookup home id = some record)
    (answered : answeredBy s store (.delete id, w) = home) :
    (delete s w store id).1 = .deleted true ∧ (delete s w store id).2.lookup home id = none := by
  have cases_ := orMemory_cases s w store lenient (deleteMongo w id) "mongo feedback delete failed"
    (deleteMemory id)
  rw [← delete] at cases_
  have side : answeredBy s store (.delete id, w) = .mongo ↔
      (getCollection s w store).1 = true ∧ (deleteMongo w id store.documents).1.isSome = true := by
    rw [answeredBy, deleteMongo]
    cases (getCollection s w store).1 <;> cases w.first <;> simp
  cases home with
  | mongo =>
    obtain ⟨reached, served⟩ := side.mp answered
    have stored : id ∈ store.documents.keys := (Table.mem_keys _ _).mpr ⟨record, found⟩
    have attempt : deleteMongo w id store.documents =
        (some (.deleted true), store.documents.erase id) := by
      rw [deleteMongo] at served ⊢
      cases first : w.first with
      | served => simp only [stored, decide_true]
      | failed applied =>
        rw [first] at served
        cases served
    rw [attempt] at cases_
    rcases cases_ with ⟨-, reply, documents, -⟩ | ⟨unanswered, -⟩
    · refine ⟨(Option.some.inj reply).symm, ?_⟩
      rw [FeedbackStore.lookup, documents, ← Table.not_mem_keys, Table.mem_keys]
      rintro ⟨other, there⟩
      exact ((Table.get?_erase _ _ _ _).mp there).2 rfl
    · rw [reached] at unanswered
      rcases unanswered with away | failed
      · cases away
      · cases failed
  | memory =>
    have stored := (lookup_memory id).mp ⟨record, found⟩
    rcases cases_ with ⟨reached, reply, -⟩ | ⟨-, reply, memory, -⟩
    · exact absurd reply (not_answered side answered reached)
    · have any : store.memory.any (·.id == id) = true := by
        obtain ⟨r, member, same⟩ := List.mem_map.mp stored
        exact List.any_eq_true.mpr ⟨r, member, beq_iff_eq.mpr same⟩
      rw [deleteMemory, if_pos any] at reply memory
      refine ⟨reply, ?_⟩
      rw [FeedbackStore.lookup, memory, List.find?_eq_none]
      intro r member same
      have ids : (store.memory.eraseP (·.id == id)).map
          (·.id) = (store.memory.map (·.id)).erase id := by
        rw [List.erase_eq_eraseP', List.eraseP_map]
        rfl
      have again : id ∈ (store.memory.map (·.id)).erase id :=
        ids ▸ List.mem_map.mpr ⟨r, List.mem_reverse.mp member, eq_of_beq same⟩
      exact sound.distinct.not_mem_erase again

/-- In a listing by time, the records before one are those as new as it. -/
theorem mem_take_sorted (cursor : Cursor α) {records : List (Record α)}
    (member : record ∈ records) {count : ℕ}
    (ids : (records.map (·.id)).Nodup) (few : (records.filter fun other =>
      record.createdAt / 1000 ≤ other.createdAt / 1000 ∧ other.id ≠ record.id).length < count) :
    record ∈ (cursor.sort records).take count := by
  have perm := cursor.perm records
  obtain ⟨front, back, split⟩ := List.append_of_mem (perm.mem_iff.mpr member)
  have ordered := cursor.newestFirst records
  rw [split] at perm ordered
  have distinct : ((front ++ record :: back).map (·.id)).Nodup := (perm.map _).nodup_iff.mpr ids
  rw [List.map_append, List.map_cons, List.nodup_append] at distinct
  have early : ∀ other ∈ front, decide (record.createdAt / 1000 ≤ other.createdAt / 1000 ∧
      other.id ≠ record.id) = true := by
    intro other there
    refine decide_eq_true
      ⟨(List.pairwise_append.mp ordered).2.2 other there record List.mem_cons_self, ?_⟩
    exact distinct.2.2 other.id (List.mem_map_of_mem there) record.id List.mem_cons_self
  have bound : front.length ≤ (records.filter fun other =>
      record.createdAt / 1000 ≤ other.createdAt / 1000 ∧ other.id ≠ record.id).length := by
    rw [← (perm.filter _).length_eq, List.filter_append, List.filter_eq_self.mpr early,
      List.length_append]
    exact Nat.le_add_right _ _
  rw [split, List.take_append, List.mem_append]
  right
  obtain ⟨k, positive⟩ : ∃ k, count - front.length = k + 1 := ⟨count - front.length - 1, by omega⟩
  rw [positive, List.take_succ_cons]
  exact List.mem_cons_self

theorem mem_take_latest {memory : List (Record α)}
    (found : memory.find? (·.id == record.id) = some record) {count : ℕ}
    (few : (memory.takeWhile (·.id ≠ record.id)).length < count) : record ∈ memory.take count := by
  obtain ⟨-, front, back, split, early⟩ := List.find?_eq_some_iff_append.mp found
  have passed : memory.takeWhile (·.id ≠ record.id) = front := by
    rw [split, List.takeWhile_append_of_pos]
    · simp
    · intro other there
      simpa using early other there
  rw [passed] at few
  rw [split, List.take_append, List.mem_append]
  right
  obtain ⟨k, positive⟩ : ∃ k, count - front.length = k + 1 := ⟨count - front.length - 1, by omega⟩
  rw [positive, List.take_succ_cons]
  exact List.mem_cons_self

theorem recent_acts (lenient : s.feedbackRequireDurable = false) (sound : Sound store)
    (cursor : Cursor α) (w : Weather)
    {home : Home} (found : store.lookup home record.id = some record) (limit : ℤ)
    (answered : answeredBy s store (.recent limit, w) = home)
    (few : store.newer home record < clamped limit) :
    ∃ records, (recent s cursor w store limit).1 = .records records ∧ record ∈ records := by
  have cases_ := orMemory_cases s w store lenient
    (fun documents => (if w.first = .served then
      some (.records ((cursor.sort documents.values).take (clamped limit))) else none, documents))
    "mongo feedback read failed"
      (fun memory => (.records (memory.reverse.take (clamped limit)), memory))
  rw [← recent] at cases_
  have side : answeredBy s store (.recent limit, w) = .mongo ↔ (getCollection s w store).1 = true ∧
      (if w.first = .served
        then some (Reply.records ((cursor.sort store.documents.values).take (clamped limit)))
        else none).isSome = true := by
    rw [answeredBy]
    cases (getCollection s w store).1 <;> cases w.first <;> simp
  cases home with
  | mongo =>
    obtain ⟨reached, served⟩ := side.mp answered
    have first : w.first = .served := by
      by_contra failed
      rw [if_neg failed] at served
      cases served
    simp only [first, if_true] at cases_
    rcases cases_ with ⟨-, reply, -⟩ | ⟨unanswered, -⟩
    · refine ⟨_, (Option.some.inj reply).symm, ?_⟩
      have there : store.documents.get? record.id = some record := found
      have ids : (store.documents.values.map (·.id)) = store.documents.keys := by
        rw [Table.values, Table.keys, List.map_map]
        apply List.map_congr_left
        rintro ⟨id, other⟩ member
        exact sound.keyed id other ((Table.mem_entries _ _ _).mp member)
      apply mem_take_sorted cursor ((Table.mem_values _ _).mpr ⟨_, there⟩) _ few
      rw [ids]
      exact store.documents.keys_nodup
    · rw [reached] at unanswered
      rcases unanswered with away | failed
      · cases away
      · cases failed
  | memory =>
    rcases cases_ with ⟨reached, reply, -⟩ | ⟨-, reply, -⟩
    · exact absurd reply (not_answered side answered reached)
    · exact ⟨_, reply, mem_take_latest found few⟩

theorem acts_on (lenient : s.feedbackRequireDurable = false) (sound : Sound store)
    (cursor : Cursor α)
    {event : Call α × Weather} {home : Home} {id : String}
    (found : store.lookup home id = some record)
    (answered : answeredBy s store event = home) : ActsOn s cursor store event home record := by
  obtain rfl := lookup_id sound found
  obtain ⟨call, w⟩ := event
  constructor
  · rintro verdict note now rfl allowed
    exact triage_acts lenient w found verdict note now answered allowed
  · rintro rfl
    exact delete_acts lenient sound w found answered
  · rintro limit rfl few
    exact recent_acts lenient sound cursor w found limit answered few

end Acts

section Runs

variable {α : Type*} {s : Settings} {cursor : Cursor α} {store : FeedbackStore α}
    {event : Call α × Weather}

theorem saved_call {id : String} {durable : Bool} (lenient : s.feedbackRequireDurable = false)
    (reply : (handle s cursor store event).1 = .saved id durable) :
    ∃ now status details, event.1 = .saveResult id now status details := by
  obtain ⟨call, w⟩ := event
  cases call with
  | saveResult key now status details =>
    have named : ∀ record : Record α, ∃ flag, (saveResult s w store record).1 =
        .saved record.id flag := by
      intro record
      unfold saveResult
      generalize getCollection s w store = got
      obtain ⟨reached, left⟩ := got
      cases reached with
      | false => exact ⟨false, rfl⟩
      | true =>
        dsimp only
        generalize insertOne w record left.documents = inserted
        obtain ⟨outcome, documents⟩ := inserted
        cases outcome with
        | served => exact ⟨true, rfl⟩
        | failed applied => exact ⟨false, rfl⟩
    obtain ⟨flag, given⟩ := named ⟨key, now, status, none, none, details⟩
    rw [handle] at reply
    dsimp only at reply
    rw [given, Reply.saved.injEq] at reply
    exact ⟨now, status, details, by rw [← reply.1]⟩
  | recent limit =>
    exfalso
    rcases orMemory_cases s w store lenient _ _ _ with ⟨-, answer, -⟩ | ⟨-, answer, -⟩
    · have said := answer.trans (congrArg some reply)
      dsimp only at said
      split at said <;> cases said
    · cases reply.symm.trans answer
  | triage key verdict note now =>
    exfalso
    rcases orMemory_cases s w store lenient _ _ _ with ⟨-, answer, -⟩ | ⟨-, answer, -⟩
    · have said := answer.trans (congrArg some reply)
      unfold triageMongo at said
      split at said
      · dsimp only at said
        split at said <;> cases said
      · dsimp only at said
        cases first : w.first with
        | served =>
          rw [first] at said
          dsimp only at said
          split at said <;> cases said
        | failed applied =>
          rw [first] at said
          cases said
    · have said := reply.symm.trans answer
      unfold triageMemory at said
      split at said
      · cases said
      · split at said <;> cases said
  | delete key =>
    exfalso
    rcases orMemory_cases s w store lenient _ _ _ with ⟨-, answer, -⟩ | ⟨-, answer, -⟩
    · have said := answer.trans (congrArg some reply)
      unfold deleteMongo at said
      cases first : w.first <;> rw [first] at said <;> cases said
    · have said := reply.symm.trans answer
      unfold deleteMemory at said
      split at said <;> cases said

/-- A call keeps the promise: an id with a home is found there. -/
theorem home_step (lenient : s.feedbackRequireDurable = false)
    (room : store.memory.length < memoryCap)
    (fresh : ∀ id, savedId event = some id → id ∉ store.documents.keys) {id : String}
    {home : Option Home}
    (held : ∀ h, home = some h → ∃ record, store.lookup h id = some record) :
    ∀ h, homeAfter s store event (handle s cursor store event).1 id home = some h →
      ∃ record, (handle s cursor store event).2.lookup h id = some record := by
  intro h after
  cases reply : (handle s cursor store event).1 with
  | saved key durable =>
    obtain ⟨now, status, details, called⟩ := saved_call lenient reply
    have given : savedId event = some key := by rw [savedId, called]
    rw [reply, homeAfter] at after
    split at after
    · rename_i same
      subst same
      obtain ⟨call, w⟩ := event
      dsimp only at called
      subst called
      cases Option.some.inj after
      rcases saveResult_cases s store w ⟨key, now, status, none, none, details⟩ (fresh key given)
        with ⟨durably, documents, -⟩ | ⟨durably, -, memory⟩
      · have flag := (Reply.saved.inj (durably.symm.trans reply)).2
        subst flag
        refine ⟨⟨key, now, status, none, none, details⟩, ?_⟩
        simp only [handle, if_true, FeedbackStore.lookup, documents, Table.get?_set_self]
      · have flag := (Reply.saved.inj (durably.symm.trans reply)).2
        subst flag
        rw [if_neg Bool.false_ne_true, lookup_memory]
        simp only [handle, memory]
        rw [append_roomy _ room, List.map_append]
        exact List.mem_append_right _ (List.mem_singleton_self key)
    · apply lookup_kept lenient room fresh (held h after)
      unfold erases
      rw [called]
      exact not_false
  | _ =>
    rw [reply, homeAfter] at after
    · split at after
      · cases after
      · rename_i untouched
        rw [← reply] at untouched
        exact lookup_kept lenient room fresh (held h after) untouched
    · simp

/-- The induction over a run from any sound store. -/
theorem home_kept (lenient : s.feedbackRequireDurable = false) (events : List (Call α × Weather))
    (once : (events.filterMap savedId).Nodup)
    (roomy : ∀ passed ∈ visited (handle s cursor) store events, passed.memory.length < memoryCap)
    (sound : Sound store) (untaken : Untaken store events) {id : String} {home : Option Home}
    (held : ∀ h, home = some h → ∃ record, store.lookup h id = some record) :
    Sound (serve (handle s cursor) store events).2 ∧
      ∀ h, (acknowledged s cursor id (store, home) events).2 = some h →
        ∃ record, (serve (handle s cursor) store events).2.lookup h id = some record := by
  induction events generalizing store home with
  | nil => exact ⟨sound, held⟩
  | cons event rest ih =>
    have room := roomy store List.mem_cons_self
    have fresh : ∀ id, savedId event = some id → id ∉ store.documents.keys := by
      intro id given
      apply (untaken id _).1
      rw [List.filterMap_cons, given]
      exact List.mem_cons_self
    exact ih (once.sublist ((List.sublist_cons_self event rest).filterMap _))
      (fun next member => roomy next (List.mem_cons_of_mem store member))
      (sound.handle lenient room untaken) (untaken.handle lenient room once)
      (home_step lenient room fresh held)

theorem sound_initial : Sound ({} : FeedbackStore α) := ⟨nofun, List.nodup_nil⟩

theorem untaken_initial {events : List (Call α × Weather)} : Untaken {} events :=
  fun _ _ => ⟨List.not_mem_nil, List.not_mem_nil⟩

/-- After any run an acknowledged record is in its home, and every call that the home answers
acts on it. -/
theorem acknowledged_stays_in_reach (lenient : s.feedbackRequireDurable = false) (cursor : Cursor α)
    (events : List (Call α × Weather)) (admissible : Admissible s cursor events) (id : String)
    (home : Home)
    (promised : (acknowledged s cursor id ({}, none) events).2 = some home) :
    ∃ record, (serve (handle s cursor) {} events).2.lookup home id = some record ∧
      ∀ event, answeredBy s (serve (handle s cursor) {} events).2 event = home →
        ActsOn s cursor (serve (handle s cursor) {} events).2 event home record := by
  have held : Sound (serve (handle s cursor) {} events).2 ∧
      ∀ h, (acknowledged s cursor id ({}, none) events).2 = some h →
        ∃ record, (serve (handle s cursor) {} events).2.lookup h id = some record :=
    home_kept lenient events admissible.fresh admissible.roomy sound_initial untaken_initial nofun
  obtain ⟨sound, held⟩ := held
  obtain ⟨record, found⟩ := held home promised
  exact ⟨record, found, fun event answered => acts_on lenient sound cursor found answered⟩

/-- A cursor whose order is stable. -/
def stableCursor : Cursor Unit where
  sort records := records.insertionSort fun a b => b.createdAt / 1000 ≤ a.createdAt / 1000
  perm records := List.perm_insertionSort _ records
  newestFirst records := by
    have : Std.Total fun a b : Record Unit => b.createdAt / 1000 ≤ a.createdAt / 1000 :=
      ⟨fun a b => le_total _ _⟩
    have : IsTrans (Record Unit) fun a b => b.createdAt / 1000 ≤ a.createdAt / 1000 :=
      ⟨fun a b c ab bc => le_trans bc ab⟩
    exact List.pairwise_insertionSort _ records

def sampleSettings : Settings := ⟨"mongodb://db", false⟩

def fair (asked : ℚ) : Weather := ⟨asked, true, .served, .served, asked⟩

/-- The insert fails, and leaves nothing. -/
def outage (asked : ℚ) : Weather := ⟨asked, true, .failed false, .served, asked⟩

/-- A record is saved in the deque during an outage, and one in the database after it. -/
def sampleEvents : List (Call Unit × Weather) :=
  [(.saveResult "a" 1000 (some .new) (), outage 0), (.saveResult "b" 2000 (some .new) (), fair 100)]

theorem acknowledged_stays_in_reach_sample :
    ∃ record, (serve (handle sampleSettings stableCursor) {} sampleEvents).2.lookup .mongo "b" =
      some record ∧
      ∀ event, answeredBy sampleSettings
        (serve (handle sampleSettings stableCursor) {} sampleEvents).2 event =
          .mongo →
        ActsOn sampleSettings stableCursor
          (serve (handle sampleSettings stableCursor) {} sampleEvents).2 event .mongo
          record :=
  acknowledged_stays_in_reach rfl stableCursor sampleEvents
    ⟨by decide, by decide +kernel⟩ "b" .mongo
    (by decide +kernel)

/-- A record that was acknowledged during an outage is out of reach after it; and a record with as
many newer ones as the limit is not listed. -/
theorem acknowledged_out_of_reach :
    (serve (handle sampleSettings stableCursor) {} sampleEvents).1 =
    [.saved "a" false, .saved "b" true] ∧
      (handle sampleSettings stableCursor
        (serve (handle sampleSettings stableCursor) {} sampleEvents).2
        (.triage "a" .reviewed "" 3000, fair 101)).1 = .triaged none ∧
      (handle sampleSettings stableCursor
        (serve (handle sampleSettings stableCursor) {} sampleEvents).2
        (.delete "a", fair 101)).1 = .deleted false ∧
      (handle sampleSettings stableCursor
        (serve (handle sampleSettings stableCursor) {} sampleEvents).2
        (.recent 50, fair 101)).1 = .records [⟨"b", 2000, some .new, none, none, ()⟩] ∧
      (handle ⟨"", false⟩ stableCursor (serve (handle ⟨"", false⟩ stableCursor) {} sampleEvents).2
        (.recent 1, fair 101)).1 = .records [⟨"b", 2000, some .new, none, none, ()⟩] := by
  decide +kernel

end Runs

end Metahumotonic.Feedback.Fallback
