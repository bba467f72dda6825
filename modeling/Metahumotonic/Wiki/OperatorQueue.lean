import Metahumotonic.Library.Lockstep
import Metahumotonic.Wiki.Agreement

/-! The operator's queue (`pending_outbox` and `resolve_outbox` of `app/wiki/memory.py` and
`app/wiki/postgres.py`), worked on while commands keep coming in. -/
namespace Metahumotonic.Wiki

open Library

namespace InMemoryWikiStore

/-- The records that `pending_outbox` cuts at its limit. -/
def queued (store : InMemoryWikiStore) (effectType : Option String) : List OutboxRecord :=
  store.outbox.values.filter fun record =>
    record.status = .pending ∧ (effectType = none ∨ some record.effect.effectType = effectType)

def pendingOutbox (store : InMemoryWikiStore) (limit : ℕ) (effectType : Option String) :
    List OutboxRecord :=
  (store.queued effectType).take limit

def resolveOutbox (store : InMemoryWikiStore) (effectId effectType : String)
    (resolvedAt : Instant) :
    Bool × InMemoryWikiStore :=
  match store.outbox.get? effectId with
  | none => (false, store)
  | some record =>
    if record.effect.effectType ≠ effectType then (false, store)
    else if record.status = .delivered then (true, store)
    else if record.status ∉ [OutboxStatus.pending, .failed] then (false, store)
    else (true, { store with
      outbox := store.outbox.set effectId
        { record with status := .delivered, deliveredAt := some resolvedAt } })

end InMemoryWikiStore

/-- `ORDER BY created_at ASC, effect_id ASC`; how ids are compared is left to the database. -/
structure QueueOrder where
  sort : List OutboxRecord → List OutboxRecord
  perm : ∀ records, (sort records).Perm records
  oldestFirst : ∀ records, (sort records).Pairwise fun a b => a.createdAt ≤ b.createdAt

namespace Tables

/-- The rows that `pending_outbox` cuts at its limit. No statement sets `next_attempt_at`. -/
def queued (order : QueueOrder) (tables : Tables) (effectType : Option String) :
    List OutboxRecord :=
  order.sort (tables.outbox.values.filter fun record =>
    record.status ∈ [OutboxStatus.pending, .failed] ∧
      (effectType = none ∨ some record.effect.effectType = effectType))

def pendingOutbox (order : QueueOrder) (tables : Tables) (limit : ℕ) (effectType : Option String) :
    Except Raised (List OutboxRecord) := do
  bindTexts effectType.toList
  return (tables.queued order effectType).take limit

/-- The conditional update; `COALESCE` keeps the time of the first delivery. -/
def resolveOutbox (tables : Tables) (effectId effectType : String) (resolvedAt : Instant) :
    Except Raised Bool × Tables :=
  match bindTexts [effectId, effectType] with
  | .error raised => (.error raised, tables)
  | .ok _ =>
    match tables.outbox.get? effectId with
    | none => (.ok false, tables)
    | some record =>
      if record.effect.effectType = effectType ∧
        record.status ∈ [OutboxStatus.pending, .failed, .delivered] then
        (.ok true, { tables with
          outbox := tables.outbox.set effectId
            { record with status := .delivered, deliveredAt :=
              record.deliveredAt.or (some resolvedAt) } })
      else (.ok false, tables)

end Tables

inductive DeskCall where
  | command (command : WikiCommand)
  | resolve (effectId effectType : String) (resolvedAt : Instant)

inductive DeskAnswer where
  | receipt (answer : Except Raised CommandReceipt)
  | resolved (answer : Except Raised Bool)

def InMemoryWikiStore.attend (lib : Stdlib) (store : InMemoryWikiStore) : DeskCall →
    DeskAnswer × InMemoryWikiStore
  | .command command => (.receipt (store.execute lib command).1, (store.execute lib command).2)
  | .resolve effectId effectType at_ =>
    (.resolved (.ok (store.resolveOutbox effectId effectType at_).1),
      (store.resolveOutbox effectId effectType at_).2)

def Tables.attend (lib : Stdlib) (tables : Tables) : DeskCall → DeskAnswer × Tables
  | .command command => (.receipt (tables.execute lib command).1, (tables.execute lib command).2)
  | .resolve effectId effectType at_ =>
    (.resolved (tables.resolveOutbox effectId effectType at_).1,
      (tables.resolveOutbox effectId effectType at_).2)

/-- What the queue is for: the effects of the accepted commands, and what was resolved when. -/
structure Desk where
  journal : Journal := []
  log : List (String × Instant) := []

namespace Desk

def attend (lib : Stdlib) (desk : Desk) : DeskCall → DeskAnswer × Desk
  | .command command =>
    (.receipt (desk.journal.execute lib command).1,
      { desk with journal := (desk.journal.execute lib command).2 })
  | .resolve effectId effectType at_ =>
    if ∃ record ∈ desk.journal.records, record.effect.effectId = effectId ∧
      record.effect.effectType = effectType then
      (.resolved (.ok true), { desk with log := desk.log ++ [(effectId, at_)] })
    else (.resolved (.ok false), desk)

/-- The effects that wait for the operator. -/
def waiting (desk : Desk) (effectType : Option String) : List OutboxRecord :=
  desk.journal.records.filter fun record => record.effect.effectId ∉ desk.log.map Prod.fst ∧
    (effectType = none ∨ some record.effect.effectType = effectType)

end Desk

/-- A record as the log leaves it: delivered when it was first resolved. -/
def mark (log : List (String × Instant)) (record : OutboxRecord) : OutboxRecord :=
  match log.lookup record.effect.effectId with
  | some at_ => { record with status := .delivered, deliveredAt := some at_ }
  | none => record

/-- The outbox of a desk is the one of its commands, marked by its log. -/
structure Marked (journal : Journal) (log : List (String × Instant))
    (base outbox : Table String OutboxRecord) : Prop where
  based : ∀ effectId record, base.get? effectId = some record ↔
    record ∈ journal.records ∧ record.effect.effectId = effectId
  held : ∀ effectId, outbox.get? effectId = (base.get? effectId).map (mark log)
  known : ∀ effectId ∈ log.map Prod.fst, ∃ record ∈ journal.records,
    record.effect.effectId = effectId

section Marks

variable {journal : Journal} {log : List (String × Instant)}
    {base outbox : Table String OutboxRecord}
  {effectId : String} {record : OutboxRecord} {at_ : Instant}

@[simp] theorem mark_effect : (mark log record).effect = record.effect := by
  unfold mark
  split <;> rfl

theorem lookup_log : log.lookup effectId = none ↔ effectId ∉ log.map Prod.fst := by
  simp only [List.lookup_eq_none_iff, bne_iff_ne, List.mem_map, not_exists, not_and]
  exact ⟨fun other entry member same => other entry member same.symm, fun other entry member same =>
    other entry member same.symm⟩

theorem mark_unlogged (unlogged : record.effect.effectId ∉ log.map Prod.fst) :
    mark log record = record := by
  rw [mark, lookup_log.mpr unlogged]

/-- Only the first resolution of a record counts. -/
theorem mark_snoc (log : List (String × Instant)) (effectId : String) (at_ : Instant)
    (record : OutboxRecord) :
    mark (log ++ [(effectId, at_)]) record =
    if record.effect.effectId = effectId ∧ effectId ∉ log.map Prod.fst then
      { record with status := .delivered, deliveredAt := some at_ }
    else mark log record := by
  rw [mark, mark, List.lookup_append]
  split_ifs with first
  · rw [first.1, lookup_log.mpr first.2, List.lookup_cons, beq_self_eq_true]
    rfl
  · cases logged : log.lookup record.effect.effectId with
    | some resolved => rfl
    | none =>
      have other : record.effect.effectId ≠ effectId :=
        fun same => first ⟨same, lookup_log.mp (same ▸ logged)⟩
      rw [List.lookup_cons, beq_eq_false_iff_ne.mpr other]
      rfl

theorem pending_of_records (member : record ∈ journal.records) : record.status = .pending ∧
    record.deliveredAt = none := by
  obtain ⟨entry, _, mine⟩ := Journal.mem_records.mp member
  obtain ⟨effect, _, rfl⟩ := List.mem_map.mp mine
  exact ⟨rfl, rfl⟩

theorem mark_status (member : record ∈ journal.records) :
    (mark log record).status = if record.effect.effectId ∈ log.map Prod.fst then .delivered
      else .pending := by
  split_ifs with logged
  · rw [mark]
    cases known : log.lookup record.effect.effectId with
    | some resolved => rfl
    | none => exact absurd logged (lookup_log.mp known)
  · rw [mark_unlogged logged]
    exact (pending_of_records member).1

/-- Whether a resolution meets a record of its type. -/
theorem Marked.asked_iff (marked : Marked journal log base outbox) {effectType : String}
    (found : base.get? effectId = some record) :
    (∃ other ∈ journal.records, other.effect.effectId = effectId ∧
      other.effect.effectType = effectType) ↔
      record.effect.effectType = effectType := by
  constructor
  · rintro ⟨other, member, id, type⟩
    have same : base.get? effectId = some other := (marked.based _ _).mpr ⟨member, id⟩
    rwa [Option.some.inj (found.symm.trans same)]
  · intro type
    obtain ⟨member, id⟩ := (marked.based _ _).mp found
    exact ⟨record, member, id, type⟩

/-- A record that is resolved once more. -/
theorem Marked.again (marked : Marked journal log base outbox)
    (logged : effectId ∈ log.map Prod.fst) :
    Marked journal (log ++ [(effectId, at_)]) base outbox where
  based := marked.based
  held id := by
    rw [marked.held]
    congr 1
    funext record
    rw [mark_snoc, if_neg fun first => first.2 logged]
  known id member := by
    rw [List.map_append, List.mem_append] at member
    rcases member with before | new
    · exact marked.known id before
    · obtain rfl := List.mem_singleton.mp new
      exact marked.known id logged

theorem Marked.resolve (marked : Marked journal log base outbox)
    (found : base.get? effectId = some record) (at_ : Instant) :
    Marked journal (log ++ [(effectId, at_)]) base
      (outbox.set effectId (mark (log ++ [(effectId, at_)]) record)) where
  based := marked.based
  held id := by
    rw [Table.get?_set]
    split_ifs with here
    · rw [here, found]
      rfl
    · rw [marked.held]
      cases present : base.get? id with
      | none => rfl
      | some other =>
        have its := ((marked.based _ _).mp present).2
        rw [Option.map_some, Option.map_some, mark_snoc, if_neg fun first =>
          here (its.symm.trans first.1)]
  known id member := by
    rw [List.map_append, List.mem_append] at member
    rcases member with before | new
    · exact marked.known id before
    · obtain rfl := List.mem_singleton.mp new
      obtain ⟨there, its⟩ := (marked.based _ _).mp found
      exact ⟨record, there, its⟩

/-- The log after a resolution. -/
def logged (journal : Journal) (log : List (String × Instant)) (effectId effectType : String)
    (at_ : Instant) :
    List (String × Instant) :=
  if ∃ record ∈ journal.records, record.effect.effectId = effectId ∧
    record.effect.effectType = effectType then
    log ++ [(effectId, at_)]
  else log

theorem InMemoryWikiStore.resolve_marked {store : InMemoryWikiStore}
    (marked : Marked journal log base store.outbox)
    (effectId effectType : String) (at_ : Instant) :
    (store.resolveOutbox effectId effectType at_).1 = decide (∃ record ∈ journal.records,
        record.effect.effectId = effectId ∧ record.effect.effectType = effectType) ∧
      ∃ outbox, (store.resolveOutbox effectId effectType at_).2 = { store with outbox := outbox } ∧
        Marked journal (logged journal log effectId effectType at_) base outbox := by
  rw [resolveOutbox, marked.held, logged]
  cases found : base.get? effectId with
  | none =>
    have missing : ¬ ∃ record ∈ journal.records, record.effect.effectId = effectId ∧
        record.effect.effectType = effectType := by
      rintro ⟨record, member, id, _⟩
      rw [(marked.based _ _).mpr ⟨member, id⟩] at found
      cases found
    rw [if_neg missing, decide_eq_false missing]
    exact ⟨rfl, store.outbox, rfl, marked⟩
  | some record =>
    obtain ⟨member, its⟩ := (marked.based _ _).mp found
    rw [Option.map_some]
    simp only [marked.asked_iff found, mark_effect, mark_status member, its]
    by_cases type : record.effect.effectType = effectType
    · rw [if_neg (not_not.mpr type), if_pos type, decide_eq_true type]
      by_cases done : effectId ∈ log.map Prod.fst
      · rw [if_pos done, if_pos rfl]
        exact ⟨rfl, store.outbox, rfl, marked.again done⟩
      · rw [if_neg done, if_neg (by decide), if_neg (by decide)]
        refine ⟨rfl, _, rfl, ?_⟩
        have marks := mark_snoc log effectId at_ record
        rw [if_pos ⟨its, done⟩] at marks
        rw [mark_unlogged (its.symm ▸ done), ← marks]
        exact marked.resolve found at_
    · rw [if_pos type, if_neg type, decide_eq_false type]
      exact ⟨rfl, store.outbox, rfl, marked⟩

theorem Tables.resolve_marked {tables : Tables} (marked : Marked journal log base tables.outbox)
    {effectId effectType : String} (nulFree : NulFree effectId ∧ NulFree effectType)
    (at_ : Instant) :
    (tables.resolveOutbox effectId effectType at_).1 = .ok (decide (∃ record ∈ journal.records,
        record.effect.effectId = effectId ∧ record.effect.effectType = effectType)) ∧
      ∃ outbox, (tables.resolveOutbox effectId effectType at_).2 =
        { tables with outbox := outbox } ∧
        Marked journal (logged journal log effectId effectType at_) base outbox := by
  have texts : bindTexts [effectId, effectType] = .ok () :=
      bindTexts_ok.mpr (by simpa using nulFree)
  rw [resolveOutbox, texts, marked.held, logged]
  cases found : base.get? effectId with
  | none =>
    have missing : ¬ ∃ record ∈ journal.records, record.effect.effectId = effectId ∧
        record.effect.effectType = effectType := by
      rintro ⟨record, member, id, _⟩
      rw [(marked.based _ _).mpr ⟨member, id⟩] at found
      cases found
    rw [if_neg missing, decide_eq_false missing]
    exact ⟨rfl, tables.outbox, rfl, marked⟩
  | some record =>
    obtain ⟨member, its⟩ := (marked.based _ _).mp found
    rw [Option.map_some]
    simp only [marked.asked_iff found, mark_effect, mark_status member, its]
    by_cases type : record.effect.effectType = effectType
    · have open_ : (if effectId ∈ log.map Prod.fst then OutboxStatus.delivered else .pending) ∈
          [OutboxStatus.pending, .failed, .delivered] := by split_ifs <;> decide
      rw [if_pos ⟨type, open_⟩, if_pos type, decide_eq_true type]
      refine ⟨rfl, _, rfl, ?_⟩
      convert marked.resolve found at_ using 2
      -- `COALESCE` takes the time that the log has first
      rw [mark_snoc]
      by_cases done : effectId ∈ log.map Prod.fst
      · rw [if_neg fun first => first.2 done, mark, its]
        cases known : log.lookup effectId with
        | some resolved => rfl
        | none => exact absurd done (lookup_log.mp known)
      · rw [if_pos ⟨its, done⟩, mark_unlogged (its.symm ▸ done), (pending_of_records member).2]
        rfl
    · rw [if_neg fun both => type both.1, if_neg type, decide_eq_false type]
      exact ⟨rfl, tables.outbox, rfl, marked⟩

theorem mem_queued (marked : Marked journal log base outbox) (effectType : Option String)
    (record : OutboxRecord) :
    (record ∈ outbox.values ∧ record.status = .pending ∧
        (effectType = none ∨ some record.effect.effectType = effectType)) ↔
      record ∈ Desk.waiting ⟨journal, log⟩ effectType := by
  simp only [Desk.waiting, List.mem_filter, decide_eq_true_eq, Table.mem_values, marked.held,
    Option.map_eq_some_iff]
  constructor
  · rintro ⟨⟨effectId, old, found, rfl⟩, pending, type⟩
    obtain ⟨member, _⟩ := (marked.based _ _).mp found
    have open_ : old.effect.effectId ∉ log.map Prod.fst := by
      intro done
      rw [mark_status member, if_pos done] at pending
      cases pending
    rw [mark_unlogged open_] at type ⊢
    exact ⟨member, open_, type⟩
  · rintro ⟨member, open_, type⟩
    exact ⟨⟨record.effect.effectId, record, (marked.based _ _).mpr ⟨member, rfl⟩,
      mark_unlogged open_⟩,
      (pending_of_records member).1, type⟩

/-- No status but these two ever occurs. -/
theorem Marked.status (marked : Marked journal log base outbox) (member : record ∈ outbox.values) :
    record.status = .pending ∨ record.status = .delivered := by
  obtain ⟨effectId, held⟩ := (Table.mem_values _ _).mp member
  rw [marked.held] at held
  obtain ⟨old, found, rfl⟩ := Option.map_eq_some_iff.mp held
  rw [mark_status ((marked.based _ _).mp found).1]
  split_ifs
  · exact .inr rfl
  · exact .inl rfl

theorem Marked.ids_nodup (marked : Marked journal log base outbox) :
    (outbox.values.map (·.effect.effectId)).Nodup := by
  have ids : outbox.values.map (·.effect.effectId) = outbox.keys := by
    rw [Table.values, Table.keys, List.map_map]
    refine List.map_congr_left fun entry member => ?_
    have held := (Table.mem_entries outbox entry.1 entry.2).mp member
    rw [marked.held] at held
    obtain ⟨old, found, same⟩ := Option.map_eq_some_iff.mp held
    rw [Function.comp_apply, ← same, mark_effect, ((marked.based _ _).mp found).2]
  rw [ids]
  exact outbox.keys_nodup

theorem Marked.queue (marked : Marked journal log base outbox) {later : Journal}
    {occurredAt : Instant}
    {effects : List OutboxEffect} (fresh : ∀ effect ∈ effects, effect.effectId ∉ log.map Prod.fst)
    (after : ∀ effectId record, (InMemoryWikiStore.queue occurredAt base effects).get? effectId =
      some record ↔
      record ∈ later.records ∧ record.effect.effectId = effectId)
    (more : ∀ record ∈ journal.records, record ∈ later.records) :
    Marked later log (InMemoryWikiStore.queue occurredAt base effects)
      (InMemoryWikiStore.queue occurredAt outbox effects) where
  based := after
  held := by
    have held := marked.held
    clear after marked
    unfold InMemoryWikiStore.queue
    induction effects generalizing base outbox with
    | nil => exact held
    | cons effect effects ih =>
      refine ih (fun other member => fresh other (List.mem_cons_of_mem _ member)) fun id => ?_
      rw [Table.get?_set, Table.get?_set]
      split_ifs
      · exact congrArg some (mark_unlogged (fresh effect List.mem_cons_self)).symm
      · exact held id
  known id member := by
    obtain ⟨record, there, its⟩ := marked.known id member
    exact ⟨record, more record there, its⟩

end Marks

section Commands

variable {lib : Stdlib} {commandIds : Set String} {journal : Journal}
    {log : List (String × Instant)}
  {command : WikiCommand}

theorem enters_of_decided {state : Option PageState} {decision : Decision}
    (prior : journal.find command.commandId = none) (now : journal.current command = .ok state)
    (decided : command.decide lib state = .ok decision) :
    ∃ entry page, entry.effects = decision.effects ∧
      Enters lib journal command entry state page := by
  have accepted := decide_ok decided
  obtain ⟨event, page, events, step⟩ := accepted.step
  obtain ⟨unclaimed, replayed⟩ := Journal.current_ok now
  have whole : decision = ⟨[event], decision.effects⟩ := by rw [← events]
  exact ⟨⟨intentFingerprint lib command, ⟨(journal.stream command.pageId).length + 1, event⟩,
    decision.effects⟩, page, rfl,
    prior, unclaimed, replayed, whole ▸ accepted, step, rfl, rfl⟩

/-- New effects have ids that no resolution has named. -/
theorem effects_unlogged {base outbox : Table String OutboxRecord}
    (recorded : Recorded lib commandIds journal)
    (distinct : StableIdsDistinct lib commandIds) (derived : RouterDerived lib command)
    (knownId : command.commandId ∈ commandIds) (marked : Marked journal log base outbox)
    {entry : Entry}
    {state : Option PageState} {page : PageState}
    (enters : Enters lib journal command entry state page) :
    ∀ effect ∈ entry.effects, effect.effectId ∉ log.map Prod.fst := by
  intro effect member done
  obtain ⟨old, there, its⟩ := marked.known _ done
  exact effect_fresh (.accept recorded derived knownId enters) distinct enters there
    (List.mem_map_of_mem member) its

theorem records_kept (journal : Journal) (lib : Stdlib) (command : WikiCommand) :
    ∀ record ∈ journal.records, record ∈ (journal.execute lib command).2.records := by
  intro record member
  obtain ⟨answer, next, same, response⟩ := journal.execute_response lib command
  rw [same]
  cases response with
  | refused _ => exact member
  | replayed _ _ _ => exact member
  | recorded entry state page enters =>
    rw [Journal.records, List.flatMap_append]
    exact List.mem_append_left _ member

/-- The outbox has no part in what a command does, but for the effects that it queues. -/
theorem InMemoryWikiStore.execute_outbox (lib : Stdlib) (command : WikiCommand)
    (store : InMemoryWikiStore)
    (base : Table String OutboxRecord) :
    (store.execute lib command).1 =
    (InMemoryWikiStore.execute lib { store with outbox := base } command).1 ∧
      ∃ effects, (store.execute lib command).2 =
          { (InMemoryWikiStore.execute lib { store with outbox := base } command).2 with
            outbox := queue command.occurredAt store.outbox effects } ∧
        (InMemoryWikiStore.execute lib { store with outbox := base } command).2.outbox =
          queue command.occurredAt base effects ∧
        (effects = [] ∨ ∃ state decision, store.receipts.get? command.commandId = none ∧
          store.current command = .ok state ∧ command.decide lib state = .ok decision ∧
            decision.effects = effects) := by
  have current : InMemoryWikiStore.current { store with outbox := base } command = store.current
    command := by
    cases command <;> rfl
  have idle (left : InMemoryWikiStore) :
      left = { left with outbox := queue command.occurredAt left.outbox [] } := rfl
  unfold execute
  rw [current]
  cases prior : store.receipts.get? command.commandId with
  | some receipt =>
    dsimp only
    split_ifs
    · exact ⟨rfl, [], idle store, rfl, .inl rfl⟩
    · exact ⟨rfl, [], idle store, rfl, .inl rfl⟩
  | none =>
    dsimp only
    cases now : store.current command with
    | error error => exact ⟨rfl, [], idle store, rfl, .inl rfl⟩
    | ok state =>
      dsimp only
      cases decided : command.decide lib state with
      | error error => exact ⟨rfl, [], idle store, rfl, .inl rfl⟩
      | ok decision =>
        dsimp only
        rcases appendEvents ((store.events.get? command.pageId).getD []).length state
          decision.events with
          error | ⟨_ | next, stored⟩
        · exact ⟨rfl, [], idle store, rfl, .inl rfl⟩
        · exact ⟨rfl, [], idle store, rfl, .inl rfl⟩
        · exact ⟨rfl, decision.effects, rfl, rfl, .inr ⟨state, decision, rfl, rfl, decided, rfl⟩⟩

/-- The in-memory store stands for a desk: without the resolutions it is the store of the journal.
-/
def InMemoryWikiStore.StandsFor (lib : Stdlib) (commandIds : Set String) (store : InMemoryWikiStore)
    (desk : Desk) : Prop :=
  ∃ base, Recorded lib commandIds desk.journal ∧
    Represents desk.journal { store with outbox := base } ∧
    Marked desk.journal desk.log base store.outbox

/-- A call of the router: a command with its derived ids, or a resolution. -/
def DeskCall.Routed (lib : Stdlib) (commandIds : Set String) : DeskCall → Prop
  | .command command => RouterDerived lib command ∧ command.commandId ∈ commandIds
  | .resolve _ _ _ => True

theorem memory_attends {store : InMemoryWikiStore} {desk : Desk} {call : DeskCall}
    (distinct : StableIdsDistinct lib commandIds) (routed : call.Routed lib commandIds)
    (related : store.StandsFor lib commandIds desk) :
    (store.attend lib call).1 = (desk.attend lib call).1 ∧
      (store.attend lib call).2.StandsFor lib commandIds (desk.attend lib call).2 := by
  obtain ⟨base, recorded, represents, marked⟩ := related
  cases call with
  | command command =>
    obtain ⟨derived, knownId⟩ := routed
    obtain ⟨answers, after⟩ := memory_step recorded distinct derived knownId represents
    obtain ⟨same, effects, left, queued, origin⟩ := store.execute_outbox lib command base
    have unlogged : ∀ effect ∈ effects, effect.effectId ∉ desk.log.map Prod.fst := by
      rcases origin with rfl | ⟨state, decision, receipt, now, decided, rfl⟩
      · exact List.forall_mem_nil _
      · have unused : desk.journal.find command.commandId = none := by
          have none_ := (represents.receipts command.commandId).symm.trans receipt
          exact Option.map_eq_none_iff.mp none_
        have read := (represents.current recorded distinct derived knownId unused).symm.trans
          (show InMemoryWikiStore.current { store with outbox := base } command = .ok state by
            rw [← now]; cases command <;> rfl)
        obtain ⟨entry, page, its, enters⟩ := enters_of_decided unused read decided
        rw [← its]
        exact effects_unlogged recorded distinct derived knownId marked enters
    refine ⟨congrArg DeskAnswer.receipt (same.trans answers),
      InMemoryWikiStore.queue command.occurredAt base effects,
      recorded.execute derived knownId, ?_, ?_⟩
    · have whole : { (store.execute lib command).2 with
          outbox := InMemoryWikiStore.queue command.occurredAt base effects } =
          (InMemoryWikiStore.execute lib { store with outbox := base } command).2 := by
        rw [left, ← queued]
      exact whole ▸ after
    · have kept : (store.execute lib command).2.outbox = InMemoryWikiStore.queue command.occurredAt
          store.outbox effects := by
        rw [left]
      change Marked _ _ _ (store.execute lib command).2.outbox
      rw [kept]
      exact marked.queue unlogged (queued ▸ after.outbox) (records_kept desk.journal lib command)
  | resolve effectId effectType at_ =>
    obtain ⟨answer, outbox, left, after⟩ := store.resolve_marked marked effectId effectType at_
    simp only [InMemoryWikiStore.attend, Desk.attend]
    rw [answer, left]
    unfold logged at after
    split_ifs at after ⊢ with asked
    · rw [decide_eq_true asked]
      exact ⟨rfl, base, recorded, represents, after⟩
    · rw [decide_eq_false asked]
      exact ⟨rfl, base, recorded, represents, after⟩

/-- The same rows but for the marks of the log. -/
structure Tables.Shadow (log : List (String × Instant)) (marked base : Tables) : Prop where
  pages : marked.pages = base.pages
  events : marked.events = base.events
  receipts : marked.receipts = base.receipts
  held : ∀ effectId, marked.outbox.get? effectId = (base.outbox.get? effectId).map (mark log)
  kept : ∀ effectId ∈ log.map Prod.fst, effectId ∈ base.outbox.keys

/-- What a statement returns beside the tables is the same. -/
def Tables.ShadowWith (α : Type) (log : List (String × Instant))
    (marked base : α × Tables) : Prop :=
  marked.1 = base.1 ∧ Tables.Shadow log marked.2 base.2

namespace Tables.Shadow

variable {t u : Tables}

theorem keys (shadow : Shadow log t u) (effectId : String) :
    effectId ∈ t.outbox.keys ↔ effectId ∈ u.outbox.keys := by
  simp only [Table.mem_keys, shadow.held, Option.map_eq_some_iff]
  exact ⟨fun ⟨_, old, found, _⟩ => ⟨old, found⟩, fun ⟨old, found⟩ => ⟨_, old, found, rfl⟩⟩

theorem unmarked (shadow : Shadow log t u) : { t with outbox := u.outbox } = u := by
  rw [shadow.pages, shadow.events, shadow.receipts]

theorem insertEvent (shadow : Shadow log t u) (row : StoredEvent) :
    Lockstep (Shadow log) (t.insertEvent row) (u.insertEvent row) := by
  obtain ⟨pages, events, receipts, held, kept⟩ := shadow
  unfold Tables.insertEvent
  rw [events]
  iterate 5 refine .after _ fun _ => ?_
  exact .pure ⟨pages, rfl, receipts, held, kept⟩

theorem insertPage (shadow : Shadow log t u) (page : PageState) :
    Lockstep (Shadow log) (t.insertPage page) (u.insertPage page) := by
  obtain ⟨pages, events, receipts, held, kept⟩ := shadow
  unfold Tables.insertPage
  rw [pages]
  iterate 5 refine .after _ fun _ => ?_
  exact .pure ⟨rfl, events, receipts, held, kept⟩

theorem updatePage (shadow : Shadow log t u) (page : PageState) (expectedVersion : Nat) :
    Lockstep (ShadowWith Nat log) (t.updatePage page expectedVersion)
      (u.updatePage page expectedVersion) := by
  unfold Tables.updatePage
  refine .after _ fun _ => .after _ fun contentHash => ?_
  rw [shadow.pages]
  cases u.pages.get? page.pageId with
  | none => exact .pure ⟨rfl, shadow⟩
  | some row =>
    dsimp only
    split_ifs
    · exact .after _ fun _ =>
        .pure ⟨rfl, rfl, shadow.events, shadow.receipts, shadow.held, shadow.kept⟩
    · exact .pure ⟨rfl, shadow⟩

/-- A new effect is not in the log. -/
theorem insertOutbox (shadow : Shadow log t u) (record : OutboxRecord) :
    Lockstep (Shadow log) (t.insertOutbox record) (u.insertOutbox record) := by
  unfold Tables.insertOutbox
  refine .after _ fun _ => .after _ fun _ => ?_
  simp only [shadow.keys]
  split_ifs with there
  · exact .pure shadow
  · refine .pure ⟨shadow.pages, shadow.events, shadow.receipts, fun effectId =>
      ?_, fun effectId member => ?_⟩
    · simp only [Table.get?_set]
      split_ifs
      · exact congrArg some (mark_unlogged fun logged => there (shadow.kept _ logged)).symm
      · exact shadow.held effectId
    · exact (Table.mem_keys_set _ _ _ _).mpr (.inr (shadow.kept effectId member))

theorem insertReceipt (shadow : Shadow log t u) (row : ReceiptRow) :
    Lockstep (Shadow log) (t.insertReceipt row) (u.insertReceipt row) := by
  obtain ⟨pages, events, receipts, held, kept⟩ := shadow
  unfold Tables.insertReceipt
  rw [receipts]
  iterate 3 refine .after _ fun _ => ?_
  exact .pure ⟨pages, events, rfl, held, kept⟩

theorem insertEvents (shadow : Shadow log t u) (state : Option PageState) (expectedVersion : Nat)
    (events : List WikiEvent) :
    Lockstep (ShadowWith (Option PageState) log) (t.insertEvents state expectedVersion events)
      (u.insertEvents state expectedVersion events) := by
  induction events generalizing t u state expectedVersion with
  | nil => exact .ok ⟨rfl, shadow⟩
  | cons event rest ih =>
    unfold Tables.insertEvents
    exact .after _ fun pageId => (shadow.insertEvent _).bind fun _ _ next =>
      .after _ fun page => ih next _ _

theorem createRow (shadow : Shadow log t u) (page : PageState) :
    Lockstep (Shadow log) (t.createRow page) (u.createRow page) := by
  have step := shadow.insertPage page
  unfold Tables.createRow
  generalize t.insertPage page = x at step ⊢
  generalize u.insertPage page = y at step ⊢
  cases step with
  | error e => split <;> exact .error _
  | ok next => exact .ok next

theorem updateRow (shadow : Shadow log t u) (page : PageState) (expectedVersion : Nat) :
    Lockstep (Shadow log) (t.updateRow page expectedVersion)
      (u.updateRow page expectedVersion) := by
  unfold Tables.updateRow
  refine (shadow.updatePage page expectedVersion).bind ?_
  rintro ⟨status, a⟩ ⟨_, b⟩ ⟨rfl, next⟩
  dsimp only
  split_ifs
  · exact .pure next
  · exact .error _

theorem writePage (shadow : Shadow log t u) (command : WikiCommand) (nextState : PageState)
    (expectedVersion : Nat) :
    Lockstep (Shadow log) (t.writePage command nextState expectedVersion)
      (u.writePage command nextState expectedVersion) := by
  unfold Tables.writePage
  refine .after _ fun pageId => .after _ fun headRevisionId => ?_
  cases command with
  | createPage c => exact shadow.createRow _
  | _ => exact shadow.updateRow _ _

theorem queue (shadow : Shadow log t u) (occurredAt : Instant) (effects : List OutboxEffect) :
    Lockstep (Shadow log) (t.queue occurredAt effects) (u.queue occurredAt effects) := by
  induction effects generalizing t u with
  | nil => exact .ok shadow
  | cons effect rest ih =>
    unfold Tables.queue
    exact (shadow.insertOutbox _).bind fun _ _ next => ih next

theorem record (shadow : Shadow log t u) (fingerprint : String) (command : WikiCommand)
    (state : Option PageState)
    (decision : Decision) : Lockstep (ShadowWith CommandReceipt log)
    (t.record fingerprint command state decision)
      (u.record fingerprint command state decision) := by
  unfold Tables.record
  refine (shadow.insertEvents _ _ _).bind ?_
  rintro ⟨nextState, a⟩ ⟨_, b⟩ ⟨rfl, next⟩
  cases nextState with
  | none => exact .error _
  | some nextState =>
    exact (next.writePage _ _ _).bind fun _ _ written => (written.queue _ _).bind fun _ _ sent =>
      .after _ fun pageId => (sent.insertReceipt _).bind fun _ _ last => .pure ⟨rfl, last⟩

theorem current (shadow : Shadow log t u) (command : WikiCommand) :
    t.current command = u.current command := by
  cases command <;> simp only [Tables.current, shadow.pages]

theorem transaction (shadow : Shadow log t u) (lib : Stdlib) (command : WikiCommand) :
    Lockstep (ShadowWith CommandReceipt log) (t.transaction lib command)
      (u.transaction lib command) := by
  unfold Tables.transaction
  refine .after _ fun _ => ?_
  rw [shadow.receipts]
  cases u.receipts.get? command.commandId with
  | some prior =>
    dsimp only
    split_ifs
    · exact .error _
    · exact .pure ⟨rfl, shadow⟩
  | none =>
    dsimp only
    rw [shadow.current]
    exact .after _ fun state => .after _ fun decision => shadow.record _ _ _ _

theorem execute (shadow : Shadow log t u) (lib : Stdlib) (command : WikiCommand) :
    (t.execute lib command).1 = (u.execute lib command).1 ∧
      Shadow log (t.execute lib command).2 (u.execute lib command).2 := by
  have step := shadow.transaction lib command
  unfold Tables.execute
  generalize t.transaction lib command = x at step ⊢
  generalize u.transaction lib command = y at step ⊢
  cases step with
  | error e => exact ⟨rfl, shadow⟩
  | @ok a b both =>
    obtain ⟨same, next⟩ := both
    have orphaned : a.2.orphaned ↔ b.2.orphaned := by
      rw [orphaned, orphaned, next.events, next.pages]
    simp only [orphaned]
    split_ifs
    · exact ⟨rfl, shadow⟩
    · exact ⟨congrArg Except.ok same, next⟩

end Tables.Shadow

theorem Marked.shadow {base : Table String OutboxRecord} {tables : Tables}
    (marked : Marked journal log base tables.outbox) :
    tables.Shadow log { tables with outbox := base } where
  pages := rfl
  events := rfl
  receipts := rfl
  held := marked.held
  kept effectId member := by
    obtain ⟨record, there, its⟩ := marked.known effectId member
    exact (Table.mem_keys _ _).mpr ⟨record, (marked.based _ _).mpr ⟨there, its⟩⟩

/-- The tables stand for a desk: without the resolutions they hold its journal. -/
def Tables.StandsFor (lib : Stdlib) (commandIds : Set String) (tables : Tables)
    (desk : Desk) : Prop :=
  ∃ base, Recorded lib commandIds desk.journal ∧ Holds desk.journal { tables with outbox := base } ∧
    Marked desk.journal desk.log base tables.outbox ∧
    ∀ pageId page, desk.journal.page pageId = .ok (some page) → Stored page

/-- The texts of a call are taken by the columns. -/
def DeskCall.Storable (lib : Stdlib) : DeskCall → Prop
  | .command command => Wiki.Storable lib command
  | .resolve effectId effectType _ => NulFree effectId ∧ NulFree effectType

theorem postgres_attends {tables : Tables} {desk : Desk} {call : DeskCall}
    (distinct : StableIdsDistinct lib commandIds)
    (documented : lib.Documented) (routed : call.Routed lib commandIds)
    (storable : call.Storable lib)
    (related : tables.StandsFor lib commandIds desk) :
    (tables.attend lib call).1 = (desk.attend lib call).1 ∧
      (tables.attend lib call).2.StandsFor lib commandIds (desk.attend lib call).2 := by
  obtain ⟨base, recorded, holds, marked, pages⟩ := related
  cases call with
  | command command =>
    obtain ⟨derived, knownId⟩ := routed
    obtain ⟨answers, after, fit⟩ :=
      storable_step recorded distinct documented derived knownId storable holds pages
    obtain ⟨same, shadow⟩ := marked.shadow.execute lib command
    refine ⟨congrArg DeskAnswer.receipt (same.trans answers), _, recorded.execute derived knownId,
      shadow.unmarked ▸ after,
      ⟨after.outbox, shadow.held, fun effectId member => ?_⟩, fit⟩
    obtain ⟨record, there, its⟩ := marked.known effectId member
    exact ⟨record, records_kept desk.journal lib command record there, its⟩
  | resolve effectId effectType at_ =>
    obtain ⟨answer, outbox, left, after⟩ := tables.resolve_marked marked storable at_
    simp only [Tables.attend, Desk.attend]
    rw [answer, left]
    unfold logged at after
    split_ifs at after ⊢ with asked
    · rw [decide_eq_true asked]
      exact ⟨rfl, base, recorded, holds, after, pages⟩
    · rw [decide_eq_false asked]
      exact ⟨rfl, base, recorded, holds, after, pages⟩

/-- The records of the accepted commands have one effect id each. -/
theorem records_nodup (recorded : Recorded lib commandIds journal)
    (distinct : StableIdsDistinct lib commandIds) :
    (journal.records.map (·.effect.effectId)).Nodup := by
  induction recorded with
  | empty => exact List.nodup_nil
  | @accept journal command entry state page past derived known enters ih =>
    have recorded : Recorded lib commandIds (journal ++ [entry]) :=
      .accept past derived known enters
    have single : (entry.records.map (·.effect.effectId)).Nodup := by
      rcases recorded.entry_records (List.mem_append_right _ List.mem_cons_self) with
        ⟨_, record, one, _⟩ | ⟨_, none⟩
      · rw [one]
        exact List.nodup_singleton _
      · rw [none]
        exact List.nodup_nil
    simp only [Journal.records, List.flatMap_append, List.flatMap_cons, List.flatMap_nil,
      List.append_nil,
      List.map_append]
    refine ih.append single fun effectId before new => ?_
    obtain ⟨old, hers, its⟩ := List.mem_map.mp before
    obtain ⟨record, mine, same⟩ := List.mem_map.mp new
    exact effect_fresh recorded distinct enters hers mine (its.trans same.symm)

/-- As many of the waiting records are shown as the limit lets through. -/
def Shows (limit : ℕ) (shown rest waiting : List OutboxRecord) : Prop :=
  (shown ++ rest).Perm waiting ∧ shown.length = min limit waiting.length

theorem shows_take {queue waiting : List OutboxRecord} (same : queue.Perm waiting) (limit : ℕ) :
    Shows limit (queue.take limit) (queue.drop limit) waiting :=
  ⟨(List.take_append_drop limit queue).symm ▸ same, by rw [List.length_take, same.length_eq]⟩

theorem waiting_perm {outbox : Table String OutboxRecord} {base : Table String OutboxRecord}
    {queue : List OutboxRecord}
    {effectType : Option String} (recorded : Recorded lib commandIds journal)
    (distinct : StableIdsDistinct lib commandIds)
    (marked : Marked journal log base outbox) (within : queue.Sublist outbox.values)
    (its : ∀ record, record ∈ queue ↔ record ∈ outbox.values ∧ record.status = .pending ∧
      (effectType = none ∨ some record.effect.effectType = effectType)) :
    queue.Perm (Desk.waiting ⟨journal, log⟩ effectType) := by
  refine (List.perm_ext_iff_of_nodup (marked.ids_nodup.of_map _ |>.sublist within) ?_).mpr
    fun record => ?_
  · exact ((records_nodup recorded distinct).of_map _).filter _
  · rw [its]
    exact mem_queued marked effectType record

theorem InMemoryWikiStore.StandsFor.queued {store : InMemoryWikiStore} {desk : Desk}
    (related : store.StandsFor lib commandIds desk) (distinct : StableIdsDistinct lib commandIds)
    (effectType : Option String) : (store.queued effectType).Perm (desk.waiting effectType) := by
  obtain ⟨base, recorded, _, marked⟩ := related
  refine waiting_perm recorded distinct marked List.filter_sublist fun record => ?_
  simp only [InMemoryWikiStore.queued, List.mem_filter, decide_eq_true_eq]

theorem Tables.StandsFor.queued {tables : Tables} {desk : Desk}
    (related : tables.StandsFor lib commandIds desk)
    (distinct : StableIdsDistinct lib commandIds) (order : QueueOrder)
    (effectType : Option String) :
    (tables.queued order effectType).Perm (desk.waiting effectType) := by
  obtain ⟨base, recorded, _, marked, _⟩ := related
  refine (order.perm _).trans
    (waiting_perm recorded distinct marked List.filter_sublist fun record => ?_)
  simp only [List.mem_filter, decide_eq_true_eq]
  constructor
  · rintro ⟨member, open_, type⟩
    rcases marked.status member with pending | delivered
    · exact ⟨member, pending, type⟩
    · rw [delivered] at open_
      cases open_ with | tail _ rest => cases rest with | tail _ none_ => cases none_
  · rintro ⟨member, pending, type⟩
    exact ⟨member, pending ▸ List.mem_cons_self, type⟩

end Commands

/-- The operator's queue is the same in both stores: every effect of an accepted command waits in it
once until it is resolved, and a resolution meets a record exactly if some accepted command has
queued it. The database shows the oldest first. -/
theorem operator_queue (lib : Stdlib) (documented : lib.Documented) (order : QueueOrder)
    (calls : List DeskCall)
    (routed : ∀ command, .command command ∈ calls → RouterDerived lib command)
    (distinct : StableIdsDistinct lib {id | ∃ command, .command command ∈ calls ∧
      command.commandId = id})
    (storable : ∀ call ∈ calls, call.Storable lib) :
    let desk := serve (Desk.attend lib) {} calls
    let memory := serve (InMemoryWikiStore.attend lib) {} calls
    let tables := serve (Tables.attend lib) {} calls
    memory.1 = desk.1 ∧ tables.1 = desk.1 ∧
      ∀ (limit : ℕ) (effectType : Option String), (∀ type ∈ effectType, NulFree type) →
        (∃ rest, Shows limit (memory.2.pendingOutbox limit effectType) rest
          (desk.2.waiting effectType)) ∧
        ∃ shown rest, tables.2.pendingOutbox order limit effectType = .ok shown ∧
          Shows limit shown rest (desk.2.waiting effectType) ∧
          (shown ++ rest).Pairwise fun a b => a.createdAt ≤ b.createdAt := by
  intro desk memory tables
  let commandIds : Set String := {id | ∃ command, .command command ∈ calls ∧ command.commandId = id}
  have known : ∀ call ∈ calls, call.Routed lib commandIds := by
    intro call member
    cases call with
    | command command => exact ⟨routed command member, command, member, rfl⟩
    | resolve _ _ _ => trivial
  obtain ⟨inMemory, standsM⟩ := serve_simulation (InMemoryWikiStore.attend lib) (Desk.attend lib)
    (fun call => call.Routed lib commandIds) (InMemoryWikiStore.StandsFor lib commandIds)
    (fun store desk call ok related => memory_attends distinct ok related) calls known {} {}
    ⟨.empty, .empty, empty_represents, ⟨empty_represents.outbox, fun _ => rfl, fun _ none_ =>
      nomatch none_⟩⟩
  obtain ⟨inTables, standsT⟩ := serve_simulation (Tables.attend lib) (Desk.attend lib)
    (fun call => call.Routed lib commandIds ∧ call.Storable lib) (Tables.StandsFor lib commandIds)
    (fun tables desk call ok related => postgres_attends distinct documented ok.1 ok.2 related)
      calls
    (fun call member => ⟨known call member, storable call member⟩) {} {}
    ⟨.empty, .empty, empty_holds, ⟨empty_holds.outbox, fun _ => rfl, fun _ none_ => nomatch none_⟩,
      fun pageId page none_ => nomatch none_⟩
  refine ⟨inMemory, inTables, fun limit effectType texts =>
    ⟨⟨_, shows_take (standsM.queued distinct effectType) limit⟩,
    _, _, ?_, shows_take (standsT.queued distinct order effectType) limit, ?_⟩⟩
  · have bound : bindTexts effectType.toList = .ok () :=
      bindTexts_ok.mpr fun value member => texts value (Option.mem_toList.mp member)
    rw [Tables.pendingOutbox, bound]
    rfl
  · rw [List.take_append_drop]
    exact order.oldestFirst _

/-- Two calls after the sample's commands: its review is resolved, and again. -/
def sampleDesk : List DeskCall := sampleCommands.map .command ++
  [.resolve "review:e6381718-83e6-51b0-90b1-4be2ccd5c3b3" "review_requested" 5,
    .resolve "review:e6381718-83e6-51b0-90b1-4be2ccd5c3b3" "review_requested" 6]

def byAge : QueueOrder where
  sort records := records.mergeSort fun a b => decide (a.createdAt ≤ b.createdAt)
  perm records := List.mergeSort_perm _ _
  oldestFirst records := by
    have sorted := @List.pairwise_mergeSort OutboxRecord
        (fun a b => decide (a.createdAt ≤ b.createdAt))
      (fun a b c first second =>
        decide_eq_true ((of_decide_eq_true first).trans (of_decide_eq_true second)))
      (fun a b => by simpa only [Bool.or_eq_true,
        decide_eq_true_eq] using le_total a.createdAt b.createdAt) records
    exact sorted.imp of_decide_eq_true

theorem operator_queue_sample :
    let desk := serve (Desk.attend sampleLib) {} sampleDesk
    let memory := serve (InMemoryWikiStore.attend sampleLib) {} sampleDesk
    let tables := serve (Tables.attend sampleLib) {} sampleDesk
    memory.1 = desk.1 ∧ tables.1 = desk.1 ∧
      (∃ rest, Shows 25 (memory.2.pendingOutbox 25 none) rest (desk.2.waiting none)) ∧
      ∃ shown rest, tables.2.pendingOutbox byAge 25 none = .ok shown ∧
        Shows 25 shown rest (desk.2.waiting none) ∧
        (shown ++ rest).Pairwise fun a b => a.createdAt ≤ b.createdAt := by
  have inSample : ∀ command, DeskCall.command command ∈ sampleDesk ↔ command ∈ sampleCommands := by
    intro command
    simp [sampleDesk]
  have all := operator_queue sampleLib sample_documented byAge sampleDesk
    (fun command member => sample_derived command ((inSample command).mp member))
    (by simpa only [inSample] using sample_distinct)
    (by
      intro call member
      cases call with
      | command command => exact sample_storable command ((inSample command).mp member)
      | resolve effectId effectType at_ =>
        simp only [sampleDesk, List.mem_append, List.mem_map, reduceCtorEq, and_false,
          exists_false, false_or,
          List.mem_cons, DeskCall.resolve.injEq, List.not_mem_nil, or_false] at member
        rcases member with ⟨rfl, rfl, _⟩ | ⟨rfl, rfl, _⟩ <;>
          exact ⟨by unfold NulFree; decide, by unfold NulFree; decide⟩)
  exact ⟨all.1, all.2.1, all.2.2 25 none (by simp)⟩

end Metahumotonic.Wiki
