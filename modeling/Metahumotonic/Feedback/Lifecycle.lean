import Mathlib.Data.List.Destutter
import Metahumotonic.Feedback.Interchange

/-! Whole histories of calls: what both stores answer, and the statuses a record goes through. -/
namespace Metahumotonic.Feedback
open Metahumotonic.Library FeedbackStoreLive

/-- What each side stores, as records. -/
def storedRecords (collection : Collection) : List FeedbackRecord :=
  collection.entries.map decodeRecord

def statusIn (id : Text) (records : List FeedbackRecord) : Option FeedbackStatus :=
  (records.find? (·.id == id)).map (·.status)

/-- The statuses of a record over the states of a run, each change once. -/
def statusHistory (id : Text) (states : List (List FeedbackRecord)) : List FeedbackStatus :=
  (states.filterMap (statusIn id)).destutter (· ≠ ·)

/-- The ways of a record: from new to reviewed and from either to archived or spam. -/
inductive Moves : FeedbackStatus → FeedbackStatus → Prop where
  | reviewed : Moves .new .reviewed
  | archived : Moves .new .archived
  | spam : Moves .new .spam
  | reviewedArchived : Moves .reviewed .archived
  | reviewedSpam : Moves .reviewed .spam

structure Lifecycle (history : List FeedbackStatus) : Prop where
  starts : ∀ status ∈ history.head?, status = .new
  moves : history.IsChain Moves

/-- A reply without the tag that tells a durable save from another. -/
def Reply.untagged : Reply → Reply
  | .saved result => .saved { result with status := .accepted }
  | reply => reply

def savedId : Call → Option Text
  | .save _ id _ => some id
  | _ => none

def savedAt : Call → Option ℤ
  | .save _ _ now => some now.ms
  | _ => none

/-- Every save has an id of its own and a later time than the saves before it. -/
structure Admissible (calls : List Call) : Prop where
  fresh : (calls.filterMap savedId).Nodup
  increasing : (calls.filterMap savedAt).Pairwise (· < ·)
  limits : ∀ limit, Call.list limit ∈ calls → 1 ≤ limit

/-- The two stores cannot be told apart by these calls, and both keep to the lifecycle. -/
structure Interchangeable (calls : List Call) : Prop where
  replies : (serve FeedbackStoreMemory.serve [] calls).1.map Reply.untagged =
    (serve FeedbackStoreLive.serve Table.empty calls).1.map Reply.untagged
  memoryHistory : ∀ id, Lifecycle (statusHistory id (visited FeedbackStoreMemory.serve [] calls))
  liveHistory : ∀ id,
    Lifecycle (statusHistory id
      ((visited FeedbackStoreLive.serve Table.empty calls).map storedRecords))
  memoryRefusal : ∀ items ∈ visited FeedbackStoreMemory.serve [] calls,
    ∀ id status note now failure,
    (FeedbackStoreMemory.serve items (.triage id status note now)).1 = .failed failure →
      (FeedbackStoreMemory.serve items (.triage id status note now)).2 = items
  liveRefusal : ∀ collection ∈ visited FeedbackStoreLive.serve Table.empty calls,
    ∀ id status note now failure,
    (FeedbackStoreLive.serve collection (.triage id status note now)).1 = .failed failure →
      (FeedbackStoreLive.serve collection (.triage id status note now)).2 = collection

/-! A refused triage. -/

theorem memory_refusal (items : List FeedbackRecord) (id : Text) (status : FeedbackStatus)
    (note : Text)
    (now : Moment) (failure : Failure)
    (refused : (FeedbackStoreMemory.serve items (.triage id status note now)).1 = .failed failure) :
    (FeedbackStoreMemory.serve items (.triage id status note now)).2 = items := by
  simp only [FeedbackStoreMemory.serve, FeedbackStoreMemory.triage] at refused ⊢
  split at refused
  · rfl
  · split at refused
    · cases refused
    · rename_i forbidden
      rw [if_neg forbidden]

theorem live_refusal (collection : Collection) (id : Text) (status : FeedbackStatus) (note : Text)
    (now : Moment) (failure : Failure)
    (refused : (FeedbackStoreLive.serve collection (.triage id status note now)).1 =
      .failed failure) :
    (FeedbackStoreLive.serve collection (.triage id status note now)).2 = collection := by
  simp only [FeedbackStoreLive.serve, FeedbackStoreLive.triage] at refused ⊢
  split at refused
  · rfl
  · cases refused

/-! What one call leaves of the collection. -/

theorem live_entries (collection : Collection) (call : Call) {row : Text × Document}
    (member : row ∈ (FeedbackStoreLive.serve collection call).2.entries) :
    (∃ old ∈ collection.entries, old.1 = row.1 ∧ old.2.createdAt = row.2.createdAt) ∨
      (savedId call = some row.1 ∧ savedAt call = some row.2.createdAt) := by
  cases call with
  | save input id now =>
    simp only [FeedbackStoreLive.serve, FeedbackStoreLive.save] at member
    split at member
    · exact .inl ⟨row, member, rfl, rfl⟩
    · rename_i absent
      rw [collection.entries_set_new _ absent, List.mem_append, List.mem_singleton] at member
      rcases member with early | rfl
      · exact .inl ⟨row, early, rfl, rfl⟩
      · exact .inr ⟨rfl, congrArg some (newDate_nowIso now).symm⟩
  | list limit => exact .inl ⟨row, member, rfl, rfl⟩
  | triage id status note now =>
    by_cases stored : id ∈ collection.keys
    · obtain ⟨⟨key, document⟩, there, rfl⟩ := List.mem_map.mp stored
      obtain ⟨front, back, split⟩ := List.append_of_mem there
      rw [FeedbackStoreLive.serve, live_triage_split split] at member
      split at member
      · rw [set_split split, List.mem_append, List.mem_cons] at member
        rcases member with early | rfl | late
        · exact .inl ⟨row, split ▸ List.mem_append_left _ early, rfl, rfl⟩
        · exact .inl ⟨_, there, rfl, rfl⟩
        · exact .inl ⟨row, split ▸ List.mem_append_right _ (List.mem_cons_of_mem _ late), rfl, rfl⟩
      · exact .inl ⟨row, member, rfl, rfl⟩
    · have rows : ∀ row ∈ collection.entries, row.1 ≠ id :=
        fun row there same => stored (List.mem_map.mpr ⟨row, there, same⟩)
      rw [FeedbackStoreLive.serve, live_triage_absent rows] at member
      exact .inl ⟨row, member, rfl, rfl⟩
  | erase id => exact .inl ⟨row, List.mem_of_mem_filter member, rfl, rfl⟩

/-- Before the remaining calls the stores mirror each other, and no id to come is taken. -/
structure Ahead (items : List FeedbackRecord) (collection : Collection)
    (calls : List Call) : Prop where
  mirrors : Mirrors items collection
  admissible : Admissible calls
  untaken : ∀ id ∈ calls.filterMap savedId, id ∉ collection.keys
  later : ∀ t ∈ calls.filterMap savedAt, ∀ row ∈ collection.entries, row.2.createdAt < t

/-- The condition on a call: a list asks for at least as many records as there are. -/
def Whole (items : List FeedbackRecord) : Call → Prop
  | .list limit => items.length ≤ limit
  | _ => True

section Step

variable {items : List FeedbackRecord} {collection : Collection} {call : Call} {rest : List Call}

theorem Admissible.tail (admissible : Admissible (call :: rest)) : Admissible rest where
  fresh := admissible.fresh.sublist ((List.sublist_cons_self call rest).filterMap _)
  increasing := admissible.increasing.sublist ((List.sublist_cons_self call rest).filterMap _)
  limits limit member := admissible.limits limit (List.mem_cons_of_mem _ member)

/-- The call does on both sides the same, and the replies differ in a list that is cut. -/
theorem Ahead.serve (ahead : Ahead items collection (call :: rest)) :
    (((FeedbackStoreMemory.serve items call).1.untagged =
      (FeedbackStoreLive.serve collection call).1.untagged) ↔
        Whole items call) ∧
      Mirrors (FeedbackStoreMemory.serve items call).2
        (FeedbackStoreLive.serve collection call).2 := by
  cases call with
  | save input id now =>
    have fresh : id ∉ collection.keys := ahead.untaken id (by simp [savedId])
    obtain ⟨reply, mirrors⟩ :=
      ahead.mirrors.save input fresh (ahead.later now.ms (by simp [savedAt]))
    refine ⟨iff_of_true ?_ trivial, mirrors⟩
    simp only [FeedbackStoreLive.serve, reply]
    rfl
  | list limit =>
    have positive := ahead.admissible.limits limit List.mem_cons_self
    exact ⟨ahead.mirrors.list positive, ahead.mirrors⟩
  | triage id status note now =>
    obtain ⟨reply, mirrors⟩ := ahead.mirrors.triage id status note now
    exact ⟨iff_of_true (congrArg Reply.untagged reply) trivial, mirrors⟩
  | erase id =>
    obtain ⟨reply, mirrors⟩ := ahead.mirrors.erase id
    exact ⟨iff_of_true (congrArg Reply.untagged reply) trivial, mirrors⟩

theorem Ahead.step (ahead : Ahead items collection (call :: rest)) :
    Ahead (FeedbackStoreMemory.serve items call).2
      (FeedbackStoreLive.serve collection call).2 rest where
  mirrors := ahead.serve.2
  admissible := ahead.admissible.tail
  untaken id member taken := by
    obtain ⟨row, there, rfl⟩ := List.mem_map.mp taken
    rcases live_entries collection call there with ⟨old, before, same, -⟩ | ⟨saved, -⟩
    · have among : row.1 ∈ (call :: rest).filterMap savedId :=
        ((List.sublist_cons_self call rest).filterMap _).subset member
      exact ahead.untaken row.1 among (List.mem_map.mpr ⟨old, before, same⟩)
    · have distinct := ahead.admissible.fresh
      rw [List.filterMap_cons, saved] at distinct
      exact (List.nodup_cons.mp distinct).1 member
  later t member row there := by
    rcases live_entries collection call there with ⟨old, before, -, same⟩ | ⟨-, saved⟩
    · rw [← same]
      exact ahead.later t
        (((List.sublist_cons_self call rest).filterMap _).subset member) old before
    · have increasing := ahead.admissible.increasing
      rw [List.filterMap_cons, saved] at increasing
      exact (List.pairwise_cons.mp increasing).1 t member

theorem Ahead.initial {calls : List Call} (admissible : Admissible calls) :
    Ahead [] Table.empty calls where
  mirrors := Mirrors.initial
  admissible := admissible
  untaken _ _ := List.not_mem_nil
  later _ _ _ member := absurd member List.not_mem_nil

end Step

section Statuses

variable {collection : Collection} {id : Text}

theorem statusIn_storedRecords (collection : Collection) (id : Text) :
    statusIn id (storedRecords collection) = (collection.get? id).map (·.status.getD .new) := by
  have same : ((·.id == id) ∘ decodeRecord) = fun row : Text × Document => decide (row.1 = id) := by
    funext row
    exact beq_eq_decide row.1 id
  rw [storedRecords, statusIn, Table.get?_eq_find?, List.find?_map, same, Option.map_map,
    Option.map_map]
  rfl

theorem moves_of_allowed {before after : FeedbackStatus} (allowed : before ∈ allowedFrom after) :
    Moves before after := by
  cases after with
  | new => exact absurd allowed List.not_mem_nil
  | reviewed =>
    obtain rfl := List.mem_singleton.mp allowed
    exact .reviewed
  | archived =>
    rcases List.mem_cons.mp allowed with rfl | allowed
    · exact .archived
    · obtain rfl := List.mem_singleton.mp allowed
      exact .reviewedArchived
  | spam =>
    rcases List.mem_cons.mp allowed with rfl | allowed
    · exact .spam
    · obtain rfl := List.mem_singleton.mp allowed
      exact .reviewedSpam

theorem Moves.differ {before after : FeedbackStatus} (moves : Moves before after) :
    before ≠ after := by
  cases moves <;> decide

theorem Moves.trans {a b c : FeedbackStatus} (first : Moves a b) (second : Moves b c) :
    Moves a c := by
  cases first with
  | reviewed =>
    cases second with
    | reviewedArchived => exact .archived
    | reviewedSpam => exact .spam
  | archived => cases second
  | spam => cases second
  | reviewedArchived => cases second
  | reviewedSpam => cases second

/-- What one call can make of the status of a record. -/
inductive Turn (saved : Prop) : Option FeedbackStatus → Option FeedbackStatus → Prop where
  | kept (status : Option FeedbackStatus) : Turn saved status status
  | saved (met : saved) : Turn saved none (some .new)
  | moved {before after : FeedbackStatus} (moves : Moves before after) :
    Turn saved (some before) (some after)
  | erased (status : Option FeedbackStatus) : Turn saved status none

theorem live_turn (collection : Collection) (call : Call) (id : Text) :
    Turn (savedId call = some id) (statusIn id (storedRecords collection))
      (statusIn id (storedRecords (FeedbackStoreLive.serve collection call).2)) := by
  simp only [statusIn_storedRecords]
  cases call with
  | save input key now =>
    simp only [FeedbackStoreLive.serve, FeedbackStoreLive.save]
    split
    · exact .kept _
    · rename_i absent
      rw [Table.get?_set]
      split
      · rename_i same
        subst same
        rw [(collection.not_mem_keys id).mp absent]
        exact .saved rfl
      · exact .kept _
  | list limit => exact .kept _
  | triage key status note now =>
    simp only [FeedbackStoreLive.serve, FeedbackStoreLive.triage]
    split
    · exact .kept _
    · rename_i row found
      have there := (collection.mem_entries row.1 row.2).mp (List.mem_of_find?_eq_some found)
      obtain ⟨-, allowed⟩ := (selected_iff status row).mp (List.find?_some found)
      rw [Table.get?_set]
      split
      · rename_i same
        rw [same, there]
        exact .moved (moves_of_allowed allowed)
      · exact .kept _
  | erase key =>
    simp only [FeedbackStoreLive.serve, FeedbackStoreLive.erase]
    cases found : (collection.erase key).get? id with
    | none => exact .erased _
    | some document =>
      rw [((collection.get?_erase key id document).mp found).1]
      exact .kept _

end Statuses

section Histories

variable {id : Text}

/-- The statuses of a record over the rest of a run on the collection. -/
def liveStatuses (id : Text) (collection : Collection) (calls : List Call) : List FeedbackStatus :=
  ((visited FeedbackStoreLive.serve collection calls).map storedRecords).filterMap (statusIn id)

theorem liveStatuses_cons (collection : Collection) (call : Call) (rest : List Call) :
    liveStatuses id collection (call :: rest) =
      (statusIn id (storedRecords collection)).toList ++
        liveStatuses id (FeedbackStoreLive.serve collection call).2 rest := by
  rw [liveStatuses, visited, List.map_cons, List.filterMap_cons]
  cases statusIn id (storedRecords collection) <;> rfl

theorem not_saved_later {call : Call} {rest : List Call}
    (unsaved : id ∉ (call :: rest).filterMap savedId) :
    savedId call ≠ some id ∧ id ∉ rest.filterMap savedId := by
  rw [List.filterMap_cons] at unsaved
  cases saved : savedId call with
  | none =>
    rw [saved] at unsaved
    exact ⟨nofun, unsaved⟩
  | some other =>
    rw [saved, List.mem_cons, not_or] at unsaved
    exact ⟨fun same => unsaved.1 (Option.some.inj same).symm, unsaved.2⟩

theorem statuses_gone (collection : Collection) (calls : List Call)
    (absent : statusIn id (storedRecords collection) = none)
    (unsaved : id ∉ calls.filterMap savedId) :
    liveStatuses id collection calls = [] := by
  induction calls generalizing collection with
  | nil => simp [liveStatuses, visited, absent]
  | cons call rest ih =>
    obtain ⟨other, later⟩ := not_saved_later unsaved
    have turn := live_turn collection call id
    rw [absent] at turn
    rw [liveStatuses_cons, absent]
    apply ih _ _ later
    generalize statusIn id (storedRecords (FeedbackStoreLive.serve collection call).2) =
      next at turn
    cases turn with
    | kept => rfl
    | saved met => exact absurd met other
    | erased => rfl

/-- From a stored record on, the changes of its status are moves. -/
theorem statuses_stored (collection : Collection) (calls : List Call) (status : FeedbackStatus)
    (stored : statusIn id (storedRecords collection) = some status)
    (unsaved : id ∉ calls.filterMap savedId) :
    ∃ tail later, liveStatuses id collection calls = status :: tail ∧
      tail.destutter' (· ≠ ·) status = status :: later ∧ (status :: later).IsChain Moves := by
  induction calls generalizing collection status with
  | nil =>
    refine ⟨[], [], ?_, rfl, .singleton _⟩
    simp [liveStatuses, visited, stored]
  | cons call rest ih =>
    obtain ⟨other, later⟩ := not_saved_later unsaved
    have turn := live_turn collection call id
    rw [stored] at turn
    rw [liveStatuses_cons, stored]
    generalize next : statusIn id
      (storedRecords (FeedbackStoreLive.serve collection call).2) = now at turn
    cases turn with
    | kept =>
      obtain ⟨tail, later, statuses, changes, moves⟩ := ih _ status next later
      refine ⟨_, later, rfl, ?_, moves⟩
      rw [statuses]
      exact (List.destutter'_cons_neg _ (not_not.mpr rfl)).trans changes
    | @moved _ after move =>
      obtain ⟨tail, later, statuses, changes, moves⟩ := ih _ after next later
      refine ⟨_, after :: later, rfl, ?_, .cons_cons move moves⟩
      rw [statuses]
      exact (List.destutter'_cons_pos _ move.differ).trans (congrArg (status :: ·) changes)
    | erased =>
      refine ⟨_, [], rfl, ?_, .singleton _⟩
      rw [statuses_gone _ rest next later]
      rfl

theorem statuses_lifecycle (collection : Collection) (calls : List Call)
    (absent : statusIn id (storedRecords collection) = none)
    (once : (calls.filterMap savedId).Nodup) :
    Lifecycle ((liveStatuses id collection calls).destutter (· ≠ ·)) := by
  induction calls generalizing collection with
  | nil =>
    have none : liveStatuses id collection [] = [] := by simp [liveStatuses, visited, absent]
    rw [none]
    exact ⟨nofun, .nil⟩
  | cons call rest ih =>
    have turn := live_turn collection call id
    rw [absent] at turn
    have unrepeated : (rest.filterMap savedId).Nodup :=
      once.sublist ((List.sublist_cons_self call rest).filterMap _)
    rw [liveStatuses_cons, absent, Option.toList_none, List.nil_append]
    generalize next : statusIn id
      (storedRecords (FeedbackStoreLive.serve collection call).2) = now at turn
    cases turn with
    | kept => exact ih _ next unrepeated
    | saved met =>
      rw [List.filterMap_cons, met] at once
      obtain ⟨tail, later, statuses, changes, moves⟩ :=
        statuses_stored _ rest .new next (List.nodup_cons.mp once).1
      rw [statuses, List.destutter_cons', changes]
      refine ⟨?_, moves⟩
      rintro status ⟨⟩
      rfl
    | erased => exact ih _ next unrepeated

end Histories

section Runs

variable {items : List FeedbackRecord} {collection : Collection} {calls : List Call}

theorem statusIn_mirrored (mirrors : Mirrors items collection) (id : Text) :
    statusIn id items = statusIn id (storedRecords collection) := by
  by_cases stored : id ∈ collection.keys
  · obtain ⟨front, document, back, split, records⟩ := mirrors.split stored
    have late : ((back.map decodeRecord).reverse.find? (·.id == id)) = none := by
      rw [List.find?_eq_none]
      intro r member same
      obtain ⟨row, there, rfl⟩ := List.mem_map.mp (List.mem_reverse.mp member)
      exact (split_collection split).2 row there (eq_of_beq same)
    have early : ((front.map decodeRecord).find? (·.id == id)) = none := by
      rw [List.find?_eq_none]
      intro r member same
      obtain ⟨row, there, rfl⟩ := List.mem_map.mp member
      exact (split_collection split).1 row there (eq_of_beq same)
    have here : ((decodeRecord (id, document)).id == id) = true := beq_self_eq_true id
    rw [statusIn, statusIn, storedRecords, records, split, List.map_append, List.map_cons,
      List.find?_append, late,
      List.find?_append, early, List.find?_cons, List.find?_cons, here]
  · obtain ⟨rows, records⟩ := mirrors.absent stored
    have none : ∀ {l : List FeedbackRecord}, (∀ r ∈ l, r.id ≠ id) → statusIn id l = none := by
      intro l absent
      rw [statusIn, List.find?_eq_none.mpr, Option.map_none]
      intro r member same
      exact absent r member (eq_of_beq same)
    rw [none records, none]
    intro r member
    obtain ⟨row, there, rfl⟩ := List.mem_map.mp member
    exact rows row there

theorem memory_statuses (ahead : Ahead items collection calls) (id : Text) :
    (visited FeedbackStoreMemory.serve items calls).filterMap (statusIn id) = liveStatuses id
      collection calls := by
  induction calls generalizing items collection with
  | nil => simp only [liveStatuses, visited, List.map_cons, List.map_nil, List.filterMap_cons,
    List.filterMap_nil,
      statusIn_mirrored ahead.mirrors]
  | cons call rest ih =>
    have later := ih ahead.step
    rw [liveStatuses_cons, visited, List.filterMap_cons, later, statusIn_mirrored ahead.mirrors]
    cases statusIn id (storedRecords collection) <;> rfl

theorem replies_agree_iff (admissible : Admissible calls) :
    (serve FeedbackStoreMemory.serve [] calls).1.map Reply.untagged =
        (serve FeedbackStoreLive.serve Table.empty calls).1.map Reply.untagged ↔
      ∀ before call after, calls = before ++ call :: after →
        Whole (serve FeedbackStoreMemory.serve [] before).2 call := by
  have agree := serve_agree_iff
    (fun items call =>
      ((FeedbackStoreMemory.serve items call).1.untagged, (FeedbackStoreMemory.serve items call).2))
    (fun collection call =>
      ((FeedbackStoreLive.serve collection call).1.untagged,
        (FeedbackStoreLive.serve collection call).2))
    Whole Ahead (fun _ _ _ _ ahead => ahead.serve.1) (fun _ _ _ _ ahead _ => ahead.step)
    calls [] Table.empty (Ahead.initial admissible)
  simpa only [serve_map] using agree

/-- The stores are interchangeable exactly if no list is asked for fewer records than there are. -/
theorem interchangeable_iff (calls : List Call) (admissible : Admissible calls) :
    Interchangeable calls ↔ ∀ before limit after, calls = before ++ .list limit :: after →
      (serve FeedbackStoreMemory.serve [] before).2.length ≤ limit := by
  constructor
  · intro same before limit after split
    exact (replies_agree_iff admissible).mp same.replies before (.list limit) after split
  · intro whole
    have histories : ∀ id, Lifecycle ((liveStatuses id Table.empty calls).destutter (· ≠ ·)) :=
      fun id => statuses_lifecycle _ calls rfl admissible.fresh
    refine ⟨(replies_agree_iff admissible).mpr ?_, ?_, histories, fun items _ =>
      memory_refusal items,
      fun collection _ => live_refusal collection⟩
    · intro before call after split
      cases call with
      | list limit => exact whole before limit after split
      | save => trivial
      | triage => trivial
      | erase => trivial
    · intro id
      rw [statusHistory, memory_statuses (Ahead.initial admissible)]
      exact histories id

def sampleRequest : FeedbackRequest := ⟨.bug, [97], [98], [], [47], false⟩

def sampleMoment (ms : Fin 1000) : Moment where
  ms := ms
  earliest := by omega
  latest := by omega

/-- A record is saved, reviewed, refused a second review, listed and erased. -/
def sampleCalls : List Call :=
  [.save sampleRequest [49] (sampleMoment 1), .triage [49] .reviewed [] (sampleMoment 2),
    .triage [49] .reviewed [] (sampleMoment 3), .list 1, .erase [49]]

theorem interchangeable_sample : Interchangeable sampleCalls := by
  have admissible : Admissible sampleCalls := by
    refine ⟨by decide, by decide, ?_⟩
    intro limit member
    simp [sampleCalls] at member
    omega
  apply (interchangeable_iff sampleCalls admissible).mpr
  intro before limit after split
  rcases before with _ | ⟨_, _ | ⟨_, _ | ⟨_, _ | ⟨_, _ | ⟨_, before⟩⟩⟩⟩⟩ <;>
    simp [sampleCalls] at split
  obtain ⟨rfl, rfl, rfl, rfl, -⟩ := split
  decide

/-- Two saves and a list of one. -/
def cutCalls : List Call :=
  [.save sampleRequest [49] (sampleMoment 1), .save sampleRequest [50] (sampleMoment 2), .list 1]

theorem count_of_cut_list : Admissible cutCalls ∧ ¬ Interchangeable cutCalls := by
  constructor
  · refine ⟨by decide, by decide, ?_⟩
    intro limit member
    simp [cutCalls] at member
    omega
  · intro same
    have replies := same.replies
    revert replies
    decide

end Runs

end Metahumotonic.Feedback
