import Metahumotonic.Library.Run
import Metahumotonic.Feedback.Fallback

/-! Where a record of the Python store lives: in the database if its receipt was durable, else in
the deque. A record stays in its home until it is erased there, and a call that is answered by
the home acts on it. -/
namespace Metahumotonic.Feedback.Fallback
open Metahumotonic.Library

inductive Home where
  | mongo | memory
  deriving DecidableEq, Repr

section Homes

variable {α : Type*}

def FeedbackStore.lookup (store : FeedbackStore α) (home : Home) (id : String) :
    Option (Record α) :=
  match home with
  | .mongo => store.documents.get? id
  | .memory => store.memory.reverse.find? (·.id == id)

/-- The records that a listing of the home may put before a record: in the database those of the
same millisecond or a later one, in the deque those appended after it. -/
def FeedbackStore.newer (store : FeedbackStore α) (home : Home) (record : Record α) : ℕ :=
  match home with
  | .mongo => (store.documents.values.filter fun other =>
      record.createdAt / 1000 ≤ other.createdAt / 1000 ∧ other.id ≠ record.id).length
  | .memory => (store.memory.reverse.takeWhile (·.id ≠ record.id)).length

/-- Which side answers a call. An update that matches nothing is not read back. -/
def answeredBy (s : Settings) (store : FeedbackStore α) (event : Call α × Weather) : Home :=
  if (getCollection s event.2 store).1 = true ∧ event.2.first = .served then
    match event.1 with
    | .triage id verdict _ _ =>
      if event.2.second = .served ∨ ¬ (store.documents.get? id).any (matched verdict) then .mongo
        else .memory
    | _ => .mongo
  else .memory

/-- A deletion that answered that the record is gone, or that failed after its effect. -/
def erases (s : Settings) (store : FeedbackStore α) (event : Call α × Weather) (reply : Reply α)
    (id : String) :
    Prop :=
  match event.1, reply with
  | .delete key, .deleted found =>
    key = id ∧ (found = true ∨
      ((getCollection s event.2 store).1 = true ∧ event.2.first = .failed true))
  | _, _ => False

instance (s : Settings) (store : FeedbackStore α) (event : Call α × Weather) (reply : Reply α)
    (id : String) :
    Decidable (erases s store event reply id) := by
  unfold erases
  split <;> infer_instance

/-- The home of an id after a call: given by the receipt, lost by an erasure. -/
def homeAfter (s : Settings) (store : FeedbackStore α) (event : Call α × Weather) (reply : Reply α)
    (id : String)
    (home : Option Home) : Option Home :=
  match reply with
  | .saved saved durable => if saved = id then some (if durable then .mongo else .memory) else home
  | reply => if erases s store event reply id then none else home

/-- The store after some calls, and the home of an id that was acknowledged and not erased since. -/
def acknowledged (s : Settings) (cursor : Cursor α) (id : String) :
    FeedbackStore α × Option Home → List (Call α × Weather) → FeedbackStore α × Option Home
  | state, [] => state
  | (store, home), event :: rest =>
    acknowledged s cursor id ((handle s cursor store event).2,
      homeAfter s store event (handle s cursor store event).1 id home) rest

def savedId (event : Call α × Weather) : Option String :=
  match event.1 with
  | .saveResult id _ _ _ => some id
  | _ => none

/-- No id is given twice, and the deque never fills up. -/
structure Admissible (s : Settings) (cursor : Cursor α)
    (events : List (Call α × Weather)) : Prop where
  fresh : (events.filterMap savedId).Nodup
  roomy : ∀ store ∈ visited (handle s cursor) {} events, store.memory.length < memoryCap

/-- What a call does to a record in a home. -/
structure ActsOn (s : Settings) (cursor : Cursor α) (store : FeedbackStore α)
    (event : Call α × Weather)
    (home : Home) (record : Record α) : Prop where
  triage : ∀ verdict note now, event.1 = .triage record.id verdict note now →
    record.status.getD .new ∈ verdict.allowedFrom →
      (handle s cursor store event).1 = .triaged (some (record.triaged verdict note now)) ∧
        (handle s cursor store event).2.lookup home record.id =
          some (record.triaged verdict note now)
  delete : event.1 = .delete record.id →
    (handle s cursor store event).1 = .deleted true ∧
    (handle s cursor store event).2.lookup home record.id = none
  recent : ∀ limit, event.1 = .recent limit → store.newer home record < clamped limit →
    ∃ records, (handle s cursor store event).1 = .records records ∧ record ∈ records

end Homes

section Steps

variable {α : Type*} (s : Settings) (cursor : Cursor α) (w : Weather) (store : FeedbackStore α)

@[simp] theorem getCollection_documents :
    (getCollection s w store).2.documents = store.documents := by
  unfold getCollection
  split_ifs <;> rfl

@[simp] theorem getCollection_memory : (getCollection s w store).2.memory = store.memory := by
  unfold getCollection
  split_ifs <;> rfl

theorem append_roomy {memory : List (Record α)} (record : Record α)
    (room : memory.length < memoryCap) :
    append memory record = memory ++ [record] := if_pos room

/-- The call is answered by the database, or by the deque as it was before; the documents are then
those a failed attempt may have left. -/
theorem orMemory_cases (lenient : s.feedbackRequireDurable = false)
    (attempt : Documents α → Option (Reply α) × Documents α) (failure : String)
    (fallback : List (Record α) → Reply α × List (Record α)) :
    ((getCollection s w store).1 = true ∧
      (attempt store.documents).1 = some (orMemory s w store attempt failure fallback).1 ∧
        (orMemory s w store attempt failure fallback).2.documents = (attempt store.documents).2 ∧
        (orMemory s w store attempt failure fallback).2.memory = store.memory) ∨
      (((getCollection s w store).1 = false ∨ (attempt store.documents).1 = none) ∧
        (orMemory s w store attempt failure fallback).1 = (fallback store.memory).1 ∧
        (orMemory s w store attempt failure fallback).2.memory = (fallback store.memory).2 ∧
        (orMemory s w store attempt failure fallback).2.documents =
          if (getCollection s w store).1 then (attempt store.documents).2
            else store.documents) := by
  have documents := getCollection_documents s w store
  have memory := getCollection_memory s w store
  unfold orMemory
  generalize getCollection s w store = got at documents memory
  obtain ⟨reached, left⟩ := got
  dsimp only at documents memory
  rw [← documents, ← memory]
  cases reached with
  | false =>
    right
    simp only [lenient, Bool.false_eq_true, if_false, true_or, and_self]
  | true =>
    cases tried : (attempt left.documents).1 with
    | some reply =>
      have whole : attempt left.documents = (some reply, (attempt left.documents).2) :=
        Prod.ext tried rfl
      left
      dsimp only
      rw [whole]
      exact ⟨rfl, rfl, rfl, rfl⟩
    | none =>
      have whole : attempt left.documents = (none, (attempt left.documents).2) := Prod.ext tried rfl
      right
      dsimp only
      rw [whole]
      simp only [lenient, Bool.false_eq_true, if_false, if_true, or_true, degraded, and_self]

end Steps

section Turns

variable {α : Type*} {s : Settings} {cursor : Cursor α} {store : FeedbackStore α}
    {event : Call α × Weather}

/-- The ways in which a call changes the documents. -/
inductive DocumentsTurn (s : Settings) (store : FeedbackStore α) (event : Call α × Weather)
    (reply : Reply α) :
    Documents α → Prop where
  | kept : DocumentsTurn s store event reply store.documents
  | saved {record : Record α} (given : savedId event = some record.id)
    (fresh : record.id ∉ store.documents.keys) :
      DocumentsTurn s store event reply (store.documents.set record.id record)
  | triaged {id : String} {record : Record α} (found : store.documents.get? id = some record)
    (verdict : Verdict)
      (note : String) (now : ℤ) :
      DocumentsTurn s store event reply (store.documents.set id (record.triaged verdict note now))
  | erased {id : String} (gone : id ∈ store.documents.keys → erases s store event reply id) :
      DocumentsTurn s store event reply (store.documents.erase id)

/-- The ways in which a call changes the deque. -/
inductive MemoryTurn (store : FeedbackStore α) (event : Call α × Weather) (reply : Reply α) :
    List (Record α) → Prop where
  | kept : MemoryTurn store event reply store.memory
  | appended {record : Record α} (given : savedId event = some record.id) :
      MemoryTurn store event reply (append store.memory record)
  | triaged (id : String) (verdict : Verdict) (note : String) (now : ℤ) :
      MemoryTurn store event reply ((store.memory.reverse.replaceF fun r =>
        if r.id = id then some (r.triaged verdict note now) else none).reverse)
  | erased {id : String} (called : event.1 = .delete id) (gone : reply = .deleted true) :
      MemoryTurn store event reply (store.memory.eraseP (·.id == id))

theorem triageMongo_documents (w : Weather) (id : String) (verdict : Verdict)
    (note : String) (now : ℤ)
    (documents : Documents α) :
    (triageMongo w id verdict note now documents).2 = documents ∨
      ∃ record, documents.get? id = some record ∧
        (triageMongo w id verdict note now documents).2 = documents.set id
        (record.triaged verdict note now) := by
  unfold triageMongo
  split
  · exact .inl rfl
  · rename_i record found
    have there := (Option.filter_eq_some_iff.mp found).1
    cases w.first with
    | served => exact .inr ⟨record, there, rfl⟩
    | failed applied =>
      cases applied
      · exact .inl rfl
      · exact .inr ⟨record, there, rfl⟩

theorem triageMemory_memory (id : String) (verdict : Verdict) (note : String) (now : ℤ)
    (memory : List (Record α)) :
    (triageMemory id verdict note now memory).2 = memory ∨
      (triageMemory id verdict note now memory).2 = (memory.reverse.replaceF fun r =>
        if r.id = id then some (r.triaged verdict note now) else none).reverse := by
  unfold triageMemory
  split
  · exact .inl rfl
  · split
    · exact .inr rfl
    · exact .inl rfl

variable (s store) in
theorem saveResult_cases (w : Weather) (record : Record α)
    (fresh : record.id ∉ store.documents.keys) :
    ((saveResult s w store record).1 = .saved record.id true ∧
        (saveResult s w store record).2.documents = store.documents.set record.id record ∧
        (saveResult s w store record).2.memory = store.memory) ∨
      ((saveResult s w store record).1 = .saved record.id false ∧
        ((saveResult s w store record).2.documents = store.documents ∨
          (saveResult s w store record).2.documents = store.documents.set record.id record) ∧
        (saveResult s w store record).2.memory = append store.memory record) := by
  have documents := getCollection_documents s w store
  have memory := getCollection_memory s w store
  unfold saveResult
  generalize getCollection s w store = got at documents memory
  obtain ⟨reached, left⟩ := got
  dsimp only at documents memory
  rw [← documents, ← memory]
  rw [← documents] at fresh
  cases reached with
  | false =>
    right
    simp only [true_or, and_self]
  | true =>
    dsimp only
    rw [insertOne, if_neg fresh]
    cases w.first with
    | served =>
      left
      exact ⟨rfl, rfl, rfl⟩
    | failed applied =>
      right
      cases applied
      · simp only [if_true, degraded, true_or, and_self]
      · simp only [Outcome.failed.injEq, Bool.true_eq_false, if_false, degraded, or_true, and_self]

variable (cursor) in
theorem handle_documents (lenient : s.feedbackRequireDurable = false)
    (fresh : ∀ id, savedId event = some id → id ∉ store.documents.keys) :
    DocumentsTurn s store event (handle s cursor store event).1
      (handle s cursor store event).2.documents := by
  obtain ⟨call, w⟩ := event
  cases call with
  | saveResult id now status details =>
    have unused := fresh id rfl
    rcases saveResult_cases s store w ⟨id, now, status, none, none, details⟩ unused
      with ⟨-, documents, -⟩ | ⟨-, documents | documents, -⟩
    · exact documents ▸ .saved rfl unused
    · exact documents ▸ .kept
    · exact documents ▸ .saved rfl unused
  | recent limit =>
    have documents : (handle s cursor store (.recent limit, w)).2.documents = store.documents := by
      rcases orMemory_cases s w store lenient _ _ _ with ⟨-, -, documents, -⟩ | ⟨-, -, -, documents⟩
      · exact documents
      · exact documents.trans (ite_self _)
    exact documents ▸ .kept
  | triage id verdict note now =>
    have kept := triageMongo_documents w id verdict note now store.documents
    have documents : (handle s cursor store (.triage id verdict note now, w)).2.documents =
        store.documents ∨
        (handle s cursor store (.triage id verdict note now, w)).2.documents =
          (triageMongo w id verdict note now store.documents).2 := by
      rcases orMemory_cases s w store lenient _ _ _ with ⟨-, -, documents, -⟩ | ⟨-, -, -, documents⟩
      · exact .inr documents
      · split at documents
        · exact .inr documents
        · exact .inl documents
    rcases documents with documents | documents
    · exact documents ▸ .kept
    · rw [documents]
      rcases kept with same | ⟨record, found, updated⟩
      · rw [same]
        exact .kept
      · rw [updated]
        exact .triaged found verdict note now
  | delete id =>
    have cases_ := orMemory_cases s w store lenient
      (deleteMongo w id) "mongo feedback delete failed" (deleteMemory id)
    rw [← delete] at cases_
    rw [handle]
    dsimp only
    cases first : w.first with
    | served =>
      rw [deleteMongo, first] at cases_
      rcases cases_ with ⟨-, answer, documents, -⟩ | ⟨unanswered, -, -, documents⟩
      · rw [documents, ← Option.some.inj answer]
        exact .erased fun stored => ⟨rfl, .inl (decide_eq_true stored)⟩
      · have away : (getCollection s w store).1 = false := by
          rcases unanswered with away | impossible
          · exact away
          · cases impossible
        rw [documents, away]
        exact .kept
    | failed applied =>
      rw [deleteMongo, first] at cases_
      rcases cases_ with ⟨-, answer, -, -⟩ | ⟨-, reply, -, documents⟩
      · cases answer
      · rw [documents, reply]
        cases reached : (getCollection s w store).1 with
        | false => exact .kept
        | true =>
          cases applied with
          | false => exact .kept
          | true =>
            refine .erased fun _ => ?_
            rw [deleteMemory]
            split
            · exact ⟨rfl, .inr ⟨reached, first⟩⟩
            · exact ⟨rfl, .inr ⟨reached, first⟩⟩

variable (cursor) in
theorem handle_memory (lenient : s.feedbackRequireDurable = false)
    (fresh : ∀ id, savedId event = some id → id ∉ store.documents.keys) :
    MemoryTurn store event (handle s cursor store event).1
      (handle s cursor store event).2.memory := by
  obtain ⟨call, w⟩ := event
  cases call with
  | saveResult id now status details =>
    have unused := fresh id rfl
    rcases saveResult_cases s store w ⟨id, now, status, none, none, details⟩ unused
      with ⟨-, -, memory⟩ | ⟨-, -, memory⟩
    · exact memory ▸ .kept
    · exact memory ▸ .appended rfl
  | recent limit =>
    have memory : (handle s cursor store (.recent limit, w)).2.memory = store.memory := by
      rcases orMemory_cases s w store lenient _ _ _ with ⟨-, -, -, memory⟩ | ⟨-, -, memory, -⟩
      · exact memory
      · exact memory
    exact memory ▸ .kept
  | triage id verdict note now =>
    have cases_ := orMemory_cases s w store lenient (triageMongo w id verdict note now)
      "mongo feedback update failed"
      (triageMemory id verdict note now)
    rw [← triage] at cases_
    rw [handle]
    dsimp only
    rcases cases_ with ⟨-, -, -, memory⟩ | ⟨-, -, memory, -⟩
    · rw [memory]
      exact .kept
    · rw [memory]
      rcases triageMemory_memory id verdict note now store.memory with same | replaced
      · rw [same]
        exact .kept
      · rw [replaced]
        exact .triaged id verdict note now
  | delete id =>
    have cases_ := orMemory_cases s w store lenient
      (deleteMongo w id) "mongo feedback delete failed" (deleteMemory id)
    rw [← delete] at cases_
    rw [handle]
    dsimp only
    rcases cases_ with ⟨-, -, -, memory⟩ | ⟨-, reply, memory, -⟩
    · rw [memory]
      exact .kept
    · rw [memory, reply, deleteMemory]
      split
      · exact .erased rfl rfl
      · exact .kept

end Turns

section Kept

variable {α : Type*} {s : Settings} {cursor : Cursor α} {store : FeedbackStore α}
    {event : Call α × Weather}

/-- Documents lie under their ids, and the deque holds no id twice. -/
structure Sound (store : FeedbackStore α) : Prop where
  keyed : ∀ id record, store.documents.get? id = some record → record.id = id
  distinct : (store.memory.map (·.id)).Nodup

/-- The ids that are still to be given are not taken. -/
def Untaken (store : FeedbackStore α) (events : List (Call α × Weather)) : Prop :=
  ∀ id ∈ events.filterMap savedId, id ∉ store.documents.keys ∧ id ∉ store.memory.map (·.id)

theorem replaceF_ids (id : String) (verdict : Verdict) (note : String) (now : ℤ)
    (memory : List (Record α)) :
    (memory.replaceF fun r => if r.id = id then some (r.triaged verdict note now)
      else none).map (·.id) =
      memory.map (·.id) := by
  induction memory with
  | nil => rfl
  | cons record memory ih =>
    by_cases same : record.id = id
    · simp [List.replaceF, same, Record.triaged]
    · simp [List.replaceF, same, ih]

theorem triaged_ids (id : String) (verdict : Verdict) (note : String) (now : ℤ)
    (memory : List (Record α)) :
    ((memory.reverse.replaceF fun r => if r.id = id then some (r.triaged verdict note now)
      else none).reverse).map
      (·.id) = memory.map (·.id) := by
  rw [List.map_reverse, replaceF_ids, List.map_reverse, List.reverse_reverse]

theorem lookup_memory (id : String) :
    (∃ record, store.lookup .memory id = some record) ↔ id ∈ store.memory.map (·.id) := by
  simp only [FeedbackStore.lookup, ← Option.isSome_iff_exists, List.find?_isSome,
    List.mem_reverse, beq_iff_eq,
    List.mem_map]

theorem lookup_id (sound : Sound store) {home : Home} {id : String} {record : Record α}
    (found : store.lookup home id = some record) : record.id = id := by
  cases home with
  | mongo => exact sound.keyed id record found
  | memory =>
    have same : (record.id == id) = true :=
      List.find?_some (p := fun r : Record α => r.id == id) found
    exact eq_of_beq same

theorem ids_memory_after (lenient : s.feedbackRequireDurable = false)
    (room : store.memory.length < memoryCap)
    (fresh : ∀ id, savedId event = some id → id ∉ store.documents.keys) (id : String)
    (there : id ∈ (handle s cursor store event).2.memory.map (·.id)) :
    id ∈ store.memory.map (·.id) ∨ savedId event = some id := by
  have turn := handle_memory cursor lenient fresh
  generalize (handle s cursor store event).2.memory = memory at turn there
  cases turn with
  | kept => exact .inl there
  | @appended record given =>
    rw [append_roomy record room, List.map_append, List.mem_append] at there
    rcases there with early | new
    · exact .inl early
    · obtain rfl := List.mem_singleton.mp new
      exact .inr given
  | triaged key verdict note now =>
    rw [triaged_ids] at there
    exact .inl there
  | erased => exact .inl ((List.eraseP_sublist.map _).subset there)

theorem ids_documents_after (lenient : s.feedbackRequireDurable = false)
    (fresh : ∀ id, savedId event = some id → id ∉ store.documents.keys) (id : String)
    (there : id ∈ (handle s cursor store event).2.documents.keys) :
    id ∈ store.documents.keys ∨ savedId event = some id := by
  have turn := handle_documents cursor lenient fresh
  generalize (handle s cursor store event).2.documents = documents at turn there
  cases turn with
  | kept => exact .inl there
  | saved given =>
    rcases (Table.mem_keys_set _ _ _ _).mp there with rfl | before
    · exact .inr given
    · exact .inl before
  | triaged found =>
    rcases (Table.mem_keys_set _ _ _ _).mp there with rfl | before
    · exact .inl ((Table.mem_keys _ _).mpr ⟨_, found⟩)
    · exact .inl before
  | erased =>
    obtain ⟨record, found⟩ := (Table.mem_keys _ _).mp there
    exact .inl ((Table.mem_keys _ _).mpr ⟨record, ((Table.get?_erase _ _ _ _).mp found).1⟩)

theorem Sound.handle (sound : Sound store) (lenient : s.feedbackRequireDurable = false)
    (room : store.memory.length < memoryCap) {rest : List (Call α × Weather)}
    (untaken : Untaken store (event :: rest)) : Sound (handle s cursor store event).2 := by
  have fresh : ∀ id, savedId event = some id → id ∉ store.documents.keys ∧
      id ∉ store.memory.map (·.id) := by
    intro id given
    apply untaken id
    rw [List.filterMap_cons, given]
    exact List.mem_cons_self
  constructor
  · have turn := handle_documents cursor lenient fun id given => (fresh id given).1
    generalize (Fallback.handle s cursor store event).2.documents = documents at turn
    intro id record found
    cases turn with
    | kept => exact sound.keyed id record found
    | saved given =>
      rw [Table.get?_set] at found
      split at found
      · rename_i same
        rw [← Option.some.inj found, same]
      · exact sound.keyed id record found
    | @triaged key old before =>
      rw [Table.get?_set] at found
      split at found
      · rename_i same
        rw [← Option.some.inj found, same]
        exact sound.keyed key old before
      · exact sound.keyed id record found
    | erased => exact sound.keyed id record ((Table.get?_erase _ _ _ _).mp found).1
  · have turn := handle_memory cursor lenient fun id given => (fresh id given).1
    generalize (Fallback.handle s cursor store event).2.memory = memory at turn
    cases turn with
    | kept => exact sound.distinct
    | @appended record given =>
      rw [append_roomy record room, List.map_append, List.nodup_append]
      refine ⟨sound.distinct, List.nodup_singleton _, ?_⟩
      intro early member new last same
      obtain rfl := List.mem_singleton.mp last
      rw [same] at member
      exact (fresh record.id given).2 member
    | triaged =>
      rw [triaged_ids]
      exact sound.distinct
    | erased => exact sound.distinct.sublist (List.eraseP_sublist.map _)

theorem Untaken.handle {rest : List (Call α × Weather)} (untaken : Untaken store (event :: rest))
    (lenient : s.feedbackRequireDurable = false) (room : store.memory.length < memoryCap)
    (distinct : ((event :: rest).filterMap savedId).Nodup) :
    Untaken (handle s cursor store event).2 rest := by
  have fresh : ∀ id, savedId event = some id → id ∉ store.documents.keys := by
    intro id given
    apply (untaken id _).1
    rw [List.filterMap_cons, given]
    exact List.mem_cons_self
  intro id later
  have among := untaken id (((List.sublist_cons_self event rest).filterMap _).subset later)
  have other : savedId event ≠ some id := by
    intro given
    rw [List.filterMap_cons, given] at distinct
    exact (List.nodup_cons.mp distinct).1 later
  constructor
  · intro there
    exact (ids_documents_after lenient fresh id there).elim among.1 other
  · intro there
    exact (ids_memory_after lenient room fresh id there).elim among.2 other

/-- A record stays in its home through every call that does not erase it there. -/
theorem lookup_kept (lenient : s.feedbackRequireDurable = false)
    (room : store.memory.length < memoryCap)
    (fresh : ∀ id, savedId event = some id → id ∉ store.documents.keys) {home : Home} {id : String}
    (stored : ∃ record, store.lookup home id = some record)
    (untouched : ¬ erases s store event (handle s cursor store event).1 id) :
    ∃ record, (handle s cursor store event).2.lookup home id = some record := by
  cases home with
  | mongo =>
    obtain ⟨record, found⟩ := stored
    have turn := handle_documents cursor lenient fresh
    simp only [FeedbackStore.lookup] at found ⊢
    generalize (handle s cursor store event).2.documents = documents at turn
    generalize (handle s cursor store event).1 = reply at turn untouched
    cases turn with
    | kept => exact ⟨record, found⟩
    | saved given => 
      rw [Table.get?_set]
      split
      · exact ⟨_, rfl⟩
      · exact ⟨record, found⟩
    | triaged =>
      rw [Table.get?_set]
      split
      · exact ⟨_, rfl⟩
      · exact ⟨record, found⟩
    | erased gone =>
      refine ⟨record, (Table.get?_erase _ _ _ _).mpr ⟨found, ?_⟩⟩
      rintro rfl
      exact untouched (gone ((Table.mem_keys _ _).mpr ⟨record, found⟩))
  | memory =>
    rw [lookup_memory] at stored ⊢
    have turn := handle_memory cursor lenient fresh
    generalize (handle s cursor store event).2.memory = memory at turn
    generalize (handle s cursor store event).1 = reply at turn untouched
    cases turn with
    | kept => exact stored
    | appended =>
      rw [append_roomy _ room, List.map_append]
      exact List.mem_append_left _ stored
    | triaged =>
      rw [triaged_ids]
      exact stored
    | @erased key called gone =>
      have other : key ≠ id := by
        rintro rfl
        apply untouched
        unfold erases
        rw [called, gone]
        exact ⟨rfl, .inl rfl⟩
      obtain ⟨record, member, rfl⟩ := List.mem_map.mp stored
      refine List.mem_map.mpr ⟨record, ?_, rfl⟩
      apply (List.mem_eraseP_of_neg _).mpr member
      simpa using Ne.symm other

end Kept

end Metahumotonic.Feedback.Fallback
