import Metahumotonic.Feedback.Reachable
import Metahumotonic.Feedback.Submission
import Metahumotonic.Gate.Evaluate

/-! The gate over the feedback pipeline (`gates/feedback_durability.yaml`, `app/trace.py`,
`_vendor/ooptdd/backends/memory.py`): it is green for a record exactly if the database took the
record. -/
namespace Metahumotonic.Gate
open Metahumotonic.Library Metahumotonic.Feedback.Fallback

/-- What the memory store keeps of a shipped event: its list, the time, its number and the event. -/
structure Shipped where
  cid : Text
  storedUs : ℤ
  seq : ℕ
  event : Event

/-- `_STORE`, with its lists one after the other, and the next number of `_SEQ`. -/
structure TraceStore where
  shipped : List Shipped := []
  seq : ℕ := 0

/-- `ev.get("cid") or ev.get("correlation_id") or ev.get("cycle_id") or ""`. -/
def cidOf (ev : Event) : Text :=
  (([lit "cid", lit "correlation_id", lit "cycle_id"].filterMap fun key =>
    match Event.get ev key with
    | .text cid => if cid = [] then none else some cid
    | _ => none).head?).getD []

/-- `MemoryBackend.ship` of one event. -/
def TraceStore.ship (store : TraceStore) (ev : Event) (nowUs : ℤ) : TraceStore :=
  ⟨store.shipped ++ [⟨cidOf ev, nowUs, store.seq, ev⟩], store.seq + 1⟩

/-- An event as it is returned. -/
def Shipped.stamped (s : Shipped) : Event :=
  setEntry (lit "_seq") (.int s.seq) (setEntry (lit "_timestamp") (.int s.storedUs) s.event)

/-- `MemoryBackend.query`. -/
def TraceStore.query (store : TraceStore) (cid : Text) (sinceUs untilUs : ℤ) : List Event :=
  (store.shipped.filter fun s => s.cid == cid && decide (sinceUs ≤ s.storedUs) && decide
    (s.storedUs ≤ untilUs)).map
    Shipped.stamped

/-- The event of `trace.emit`. -/
def envelope (event cid : Text) (attrs : Members) : Event :=
  attrs.foldl (fun ev attr => setEntry attr.1 attr.2 ev)
    [(lit "cid", .text cid), (lit "correlation_id", .text cid), (lit "cycle_id", .text cid),
      (lit "service", .text (lit "mhb.web_back")), (lit "event", .text event)]

/-- The text of an identifier. -/
def idText (id : String) : Text := id.toList.map Char.toNat

/-- `default_lookback_s` in microseconds; the memory store has no future buffer. -/
def lookbackUs : ℤ := 3600 * 1000000

/-- `evaluate` against the memory store, which is always reached and never truncates. -/
def evaluate (same : Json → Json → Bool) (h : Hashing) (env : Environment) (spec : Spec)
    (store : TraceStore) (cid : Text)
    (nowUs : ℤ) : Option GateResult :=
  evaluateEvents same h env none spec (store.query cid (nowUs - lookbackUs) nowUs) true true

/-- `gates/feedback_durability.yaml`. -/
def durabilityGate : Spec where
  expect := [
    { matcher := { event := some (lit "feedback_received") }, op := lit "==", count := 1 },
    { matcher := { event := some (lit "feedback_durably_stored") }, op := lit "==", count := 1 }]

section Pipeline

variable {α : Type*} (s : Settings) (cursor : Cursor α) (kind : α → Text)

/-- The events of a call, in the order of their shipping; `kind` is `doc.get("type", "")`. -/
def emitted (store : FeedbackStore α) (event : Call α × Weather) (reply : Reply α) : List Event :=
  match event.1, reply with
  | .saveResult id _ _ details, .saved _ durable =>
    [envelope (lit "feedback_received") (idText id) [(lit "kind", .text (kind details))],
      if durable then envelope (lit "feedback_durably_stored") (idText id)
        [(lit "backend", .text (lit "mongo"))]
      else envelope (lit "feedback_stored_in_memory") (idText id)
        [(lit "backend", .text (lit "memory"))]]
  | .delete id, .deleted true =>
    [envelope (lit "feedback_deleted") (idText id)
      [(lit "backend", .text (if answeredBy s store event = .mongo then lit "mongo"
        else lit "memory"))]]
  | _, _ => []

/-- A call and the times at which its first and its second event are shipped. -/
structure Traced (α : Type*) where
  call : Call α × Weather
  firstUs : ℤ
  secondUs : ℤ

structure Pipeline (α : Type*) where
  store : FeedbackStore α := {}
  trace : TraceStore := {}

def Pipeline.step (p : Pipeline α) (c : Traced α) : Pipeline α :=
  let result := handle s cursor p.store c.call
  { store := result.2
    trace := ((emitted s kind p.store c.call result.1).zip [c.firstUs, c.secondUs]).foldl
      (fun trace shipment => trace.ship shipment.1 shipment.2) p.trace }

end Pipeline

theorem idText_injective : Function.Injective idText := by
  intro a b same
  have chars : Function.Injective Char.toNat := fun c d alike => by
    rw [← Char.ofNat_toNat c, alike, Char.ofNat_toNat]
  exact String.toList_injective (List.map_injective_iff.mpr chars same)

section Envelopes

variable {name cid : Text} {key : Text} {value : Text}

/-- What is read of an event of the service. -/
theorem envelope_lookup (k : Text) : List.lookup k (envelope name cid [(key, .text value)]) =
    if k = key then some (.text value) else if k = lit "cid" then some (.text cid)
    else if k = lit "correlation_id" then some (.text cid) else if k = lit "cycle_id"
      then some (.text cid)
    else if k = lit "service" then some (.text (lit "mhb.web_back")) else if k = lit "event"
      then some (.text name)
    else none := by
  rw [envelope, List.foldl_cons, List.foldl_nil, Event.lookup_setEntry]
  simp only [Event.lookup_cons_if, List.lookup_nil]

variable (attr : key = lit "kind" ∨ key = lit "backend")

include attr

theorem envelope_name : Event.name (envelope name cid [(key, .text value)]) = some name := by
  have other : lit "event" ≠ key := by rcases attr with rfl | rfl <;> decide
  have apart : lit "event" ≠ lit "cid" ∧ lit "event" ≠ lit "correlation_id" ∧
      lit "event" ≠ lit "cycle_id" ∧
      lit "event" ≠ lit "service" := by decide
  rw [Event.name, Event.get, envelope_lookup, if_neg other, if_neg apart.1, if_neg apart.2.1,
    if_neg apart.2.2.1,
    if_neg apart.2.2.2, if_pos rfl]
  rfl

theorem envelope_cid : cidOf (envelope name cid [(key, .text value)]) = cid := by
  have read : ∀ k ∈ [lit "cid", lit "correlation_id", lit "cycle_id"],
      Event.get (envelope name cid [(key, .text value)]) k = .text cid := by
    intro k member
    have other : k ≠ key := by
      rcases attr with rfl | rfl <;> rintro rfl <;> revert member <;> decide
    simp only [List.mem_cons, List.not_mem_nil, or_false] at member
    rw [Event.get, envelope_lookup, if_neg other]
    rcases member with rfl | rfl | rfl
    · rw [if_pos rfl]; rfl
    · rw [if_neg (by decide), if_pos rfl]; rfl
    · rw [if_neg (by decide), if_neg (by decide), if_pos rfl]; rfl
  rw [cidOf, List.filterMap_congr fun k member => by rw [read k member]]
  by_cases empty : cid = [] <;> simp [empty]

end Envelopes

/-- An event that the service emits, as the store keeps it. -/
def Shipped.Plain (shipped : Shipped) : Prop :=
  ∃ name key value, (key = lit "kind" ∨ key = lit "backend") ∧
    shipped.event = envelope name shipped.cid [(key, .text value)]

def within (sinceUs untilUs ts : ℤ) : Bool := decide (sinceUs ≤ ts) && decide (ts ≤ untilUs)

/-- How many events of a name a query finds. -/
def TraceStore.hits (store : TraceStore) (cid name : Text) (sinceUs untilUs : ℤ) : ℕ :=
  store.shipped.countP fun s => s.cid == cid && within sinceUs untilUs s.storedUs &&
    Event.name s.event == some name

section Shipping

variable {store : TraceStore} {cid name other key value : Text} {sinceUs untilUs nowUs : ℤ}

theorem hits_ship (attr : key = lit "kind" ∨ key = lit "backend") :
    (store.ship (envelope other cid [(key, .text value)]) nowUs).hits cid name sinceUs untilUs =
      store.hits cid name sinceUs untilUs + if within sinceUs untilUs nowUs = true ∧ other = name
        then 1 else 0 := by
  rw [TraceStore.hits, TraceStore.ship, List.countP_append, List.countP_singleton,
    envelope_cid attr, envelope_name attr]
  simp [TraceStore.hits]

theorem hits_ship_other {elsewhere : Text} (attr : key = lit "kind" ∨ key = lit "backend")
    (apart : elsewhere ≠ cid) :
    (store.ship (envelope other elsewhere [(key, .text value)]) nowUs).hits cid name
      sinceUs untilUs =
      store.hits cid name sinceUs untilUs := by
  rw [TraceStore.hits, TraceStore.ship, List.countP_append, List.countP_singleton,
    envelope_cid attr]
  simp [TraceStore.hits, apart]

theorem plain_ship (attr : key = lit "kind" ∨ key = lit "backend")
    (plain : ∀ s ∈ store.shipped, s.Plain) :
    ∀ s ∈ (store.ship (envelope other cid [(key, .text value)]) nowUs).shipped, s.Plain := by
  intro s member
  rcases List.mem_append.mp member with before | new
  · exact plain s before
  · obtain rfl := List.mem_singleton.mp new
    exact ⟨other, key, value, attr, by rw [envelope_cid attr]⟩

end Shipping

section Steps

variable {α : Type*} {s : Settings} {cursor : Cursor α} {kind : α → Text} {p : Pipeline α}
    {c : Traced α}
  {id : String} {name : Text} {sinceUs untilUs : ℤ}

theorem step_plain (plain : ∀ shipped ∈ p.trace.shipped, shipped.Plain) :
    ∀ shipped ∈ (p.step s cursor kind c).trace.shipped, shipped.Plain := by
  unfold Pipeline.step emitted
  dsimp only
  split
  · dsimp only [List.zip_cons_cons, List.zip_nil_left, List.foldl_cons, List.foldl_nil]
    split
    · exact plain_ship (.inr rfl) (plain_ship (.inl rfl) plain)
    · exact plain_ship (.inr rfl) (plain_ship (.inl rfl) plain)
  · exact plain_ship (.inr rfl) plain
  · exact plain

/-- Another call leaves what the gate counts for an identifier alone. -/
theorem step_hits_other (other : savedId c.call ≠ some id)
    (watched : name ≠ lit "feedback_deleted") :
    (p.step s cursor kind c).trace.hits (idText id) name sinceUs untilUs =
      p.trace.hits (idText id) name sinceUs untilUs := by
  unfold Pipeline.step emitted
  dsimp only
  split
  · rename_i saved now status details _ durable called _
    have apart : idText saved ≠ idText id := by
      intro same
      apply other
      rw [savedId, called, idText_injective same]
    dsimp only [List.zip_cons_cons, List.zip_nil_left, List.foldl_cons, List.foldl_nil]
    split
    · rw [hits_ship_other (.inr rfl) apart, hits_ship_other (.inl rfl) apart]
    · rw [hits_ship_other (.inr rfl) apart, hits_ship_other (.inl rfl) apart]
  · rename_i deleted _ _
    dsimp only [List.zip_cons_cons, List.zip_nil_left, List.foldl_cons, List.foldl_nil]
    by_cases same : deleted = id
    · rw [same, hits_ship (.inr rfl), if_neg fun both => watched both.2.symm]
      rfl
    · exact hits_ship_other (.inr rfl) fun alike => same (idText_injective alike)
  · rfl

theorem saveResult_saved (w : Weather) (store : FeedbackStore α) (record : Record α) :
    (saveResult s w store record).1 = .saved record.id (saveResult s w store record).1.durable := by
  unfold saveResult
  split
  · split <;> rfl
  · rfl

variable (s cursor kind p id sinceUs untilUs) in
/-- What a save adds to the two counts of the gate. -/
theorem step_hits_save (created : ℤ) (status : Option Feedback.FeedbackStatus) (details : α)
    (w : Weather)
    (firstUs secondUs : ℤ) :
    let next := p.step s cursor kind ⟨(.saveResult id created status details, w), firstUs, secondUs⟩
    next.trace.hits (idText id) (lit "feedback_received") sinceUs untilUs =
        p.trace.hits (idText id) (lit "feedback_received") sinceUs untilUs +
          (if within sinceUs untilUs firstUs = true then 1 else 0) ∧
      next.trace.hits (idText id) (lit "feedback_durably_stored") sinceUs untilUs =
        p.trace.hits (idText id) (lit "feedback_durably_stored") sinceUs untilUs +
          (if within sinceUs untilUs secondUs = true ∧
            (saveResult s w p.store ⟨id, created, status, none, none, details⟩).1.durable = true
              then 1 else 0) := by
  have differ : lit "feedback_received" ≠ lit "feedback_durably_stored" ∧
      lit "feedback_stored_in_memory" ≠ lit "feedback_received" ∧
      lit "feedback_stored_in_memory" ≠ lit "feedback_durably_stored" := by decide
  intro next
  have reply : (handle s cursor p.store (.saveResult id created status details, w)).1 =
      .saved id (saveResult s w p.store ⟨id, created, status, none, none, details⟩).1.durable :=
        saveResult_saved _ _ _
  simp only [next, Pipeline.step, emitted, reply, List.zip_cons_cons, List.zip_nil_left,
    List.foldl_cons, List.foldl_nil]
  cases (saveResult s w p.store ⟨id, created, status, none, none, details⟩).1.durable with
  | true =>
    rw [if_pos rfl, hits_ship (.inr rfl), hits_ship (.inl rfl), hits_ship (.inr rfl),
      hits_ship (.inl rfl)]
    simp [differ.1, differ.1.symm]
  | false =>
    rw [if_neg Bool.false_ne_true, hits_ship (.inr rfl), hits_ship (.inl rfl), hits_ship (.inr rfl),
      hits_ship (.inl rfl)]
    simp [differ.1, differ.2.1, differ.2.2]

/-- A call gives the documents no identifier but the one it saves. -/
theorem handle_keys {store : FeedbackStore α} {event : Call α × Weather}
    (there : id ∈ (handle s cursor store event).2.documents.keys) : id ∈ store.documents.keys ∨
      savedId event = some id := by
  have asked (attempt : Documents α → Option (Reply α) × Documents α) (failure : String)
      (fallback : List (Record α) → Reply α × List (Record α)) (w : Weather) :
      (orMemory s w store attempt failure fallback).2.documents = store.documents ∨
        (orMemory s w store attempt failure fallback).2.documents =
        (attempt store.documents).2 := by
    have documents := getCollection_documents s w store
    unfold orMemory
    generalize getCollection s w store = got at documents
    obtain ⟨reached, left⟩ := got
    dsimp only at documents
    rw [← documents]
    cases reached with
    | false => dsimp only; split <;> exact .inl rfl
    | true =>
      dsimp only
      split
      · rename_i whole
        exact .inr (by rw [whole])
      · rename_i whole
        right
        rw [whole]
        split <;> rfl
  obtain ⟨call, w⟩ := event
  cases call with
  | saveResult saved now status details =>
    have documents := getCollection_documents s w store
    change id ∈ (saveResult s w store
        ⟨saved, now, status, none, none, details⟩).2.documents.keys at there
    unfold saveResult at there
    generalize getCollection s w store = got at documents there
    obtain ⟨reached, left⟩ := got
    dsimp only at documents there
    rw [← documents]
    have inserted (documents : Documents α)
        (inside : id ∈ (insertOne w ⟨saved, now, status, none, none, details⟩ documents).2.keys) :
        id ∈ documents.keys ∨ savedId (Call.saveResult saved now status details, w) = some id := by
      unfold insertOne at inside
      split_ifs at inside with taken spared
      · exact .inl inside
      · exact .inl inside
      · exact ((Table.mem_keys_set _ _ _ _).mp inside).symm.imp_right fun same =>
          congrArg some same.symm
    cases reached with
    | false => exact .inl there
    | true =>
      apply inserted
      dsimp only at there
      split at there
      · rename_i whole
        rwa [whole]
      · rename_i whole
        rwa [whole]
  | recent limit =>
    have kept : (handle s cursor store (.recent limit, w)).2.documents = store.documents := 
      (asked _ _ _ w).elim (fun same => same) fun same => same
    exact .inl (kept ▸ there)
  | triage key verdict note now =>
    left
    rcases asked _ _ _ w with same | same
    · exact same ▸ there
    · have after : id ∈ (triageMongo w key verdict note now store.documents).2.keys := same ▸ there
      rcases triageMongo_documents w key verdict note now store.documents with
        kept | ⟨record, found, set⟩
      · rwa [kept] at after
      · rw [set] at after
        rcases (Table.mem_keys_set _ _ _ _).mp after with rfl | before
        · exact (Table.mem_keys _ _).mpr ⟨_, found⟩
        · exact before
  | delete key =>
    left
    rcases asked _ _ _ w with same | same
    · exact same ▸ there
    · have after : id ∈ (deleteMongo w key store.documents).2.keys := same ▸ there
      have erased (inside : id ∈ (store.documents.erase key).keys) : id ∈ store.documents.keys := by
        obtain ⟨record, found⟩ := (Table.mem_keys _ _).mp inside
        exact (Table.mem_keys _ _).mpr ⟨record, ((Table.get?_erase _ _ _ _).mp found).1⟩
      unfold deleteMongo at after
      split at after
      · exact erased after
      · split_ifs at after
        · exact erased after
        · exact after

/-- The pipeline after some calls. -/
def Pipeline.run (s : Settings) (cursor : Cursor α) (kind : α → Text) (p : Pipeline α)
    (calls : List (Traced α)) : Pipeline α :=
  calls.foldl (Pipeline.step s cursor kind) p

theorem run_plain (calls : List (Traced α)) (plain : ∀ shipped ∈ p.trace.shipped, shipped.Plain) :
    ∀ shipped ∈ (p.run s cursor kind calls).trace.shipped, shipped.Plain := by
  induction calls generalizing p with
  | nil => exact plain
  | cons c calls ih => exact ih (step_plain plain)

theorem run_hits_other {calls : List (Traced α)} (others : ∀ c ∈ calls, savedId c.call ≠ some id)
    (watched : name ≠ lit "feedback_deleted") :
    (p.run s cursor kind calls).trace.hits (idText id) name sinceUs untilUs =
      p.trace.hits (idText id) name sinceUs untilUs := by
  induction calls generalizing p with
  | nil => rfl
  | cons c calls ih =>
    exact (ih fun d member => others d (List.mem_cons_of_mem _ member)).trans
      (step_hits_other (others c List.mem_cons_self) watched)

theorem run_keys {calls : List (Traced α)} (others : ∀ c ∈ calls, savedId c.call ≠ some id)
    (fresh : id ∉ p.store.documents.keys) :
    id ∉ (p.run s cursor kind calls).store.documents.keys := by
  induction calls generalizing p with
  | nil => exact fresh
  | cons c calls ih =>
    refine ih (fun d member => others d (List.mem_cons_of_mem _ member)) fun there => ?_
    exact (handle_keys there).elim fresh (others c List.mem_cons_self)

end Steps

section Verdict

variable {same : Json → Json → Bool} {h : Hashing} {env : Environment} {store : TraceStore}
    {cid name : Text}
  {sinceUs untilUs : ℤ}

theorem stamped_lookup {k : Text} (shipped : Shipped) (seq : k ≠ lit "_seq")
    (timestamp : k ≠ lit "_timestamp") :
    List.lookup k shipped.stamped = List.lookup k shipped.event := by
  rw [Shipped.stamped, Event.lookup_setEntry, if_neg seq, Event.lookup_setEntry, if_neg timestamp]

theorem query_countP : (store.query cid sinceUs untilUs).countP
    (fun ev => Event.name ev == some name) =
    store.hits cid name sinceUs untilUs := by
  have named (shipped : Shipped) : Event.name shipped.stamped = Event.name shipped.event := by
    rw [Event.name, Event.get, stamped_lookup shipped (by decide) (by decide)]
    rfl
  rw [TraceStore.query, List.countP_map, List.countP_filter, TraceStore.hits]
  refine congrArg (List.countP · store.shipped) (funext fun shipped => ?_)
  simp only [Function.comp_apply, named, within]
  rw [Bool.and_comm, Bool.and_assoc (_ == _)]

/-- No event of the service has a level or names a tag. -/
theorem query_plain (plain : ∀ s ∈ store.shipped, s.Plain) {ev : Event}
    (found : ev ∈ store.query cid sinceUs untilUs) :
    Event.get ev (lit "level") = .null ∧ prevSig (unstamped ev) = none := by
  obtain ⟨shipped, inside, rfl⟩ := List.mem_map.mp found
  obtain ⟨other, key, value, attr, its⟩ := plain shipped (List.mem_of_mem_filter inside)
  have absent (k : Text)
      (missing : k ∉ [lit "_seq", lit "_timestamp", lit "kind", lit "backend", lit "cid",
      lit "correlation_id", lit "cycle_id", lit "service", lit "event"]) :
        List.lookup k shipped.stamped = none := by
    simp only [List.mem_cons, List.not_mem_nil, or_false, not_or] at missing
    obtain ⟨seq, timestamp, kind, backend, c, correlation, cycle, service, event⟩ := missing
    rw [stamped_lookup shipped seq timestamp, its, envelope_lookup, if_neg, if_neg c,
      if_neg correlation, if_neg cycle,
      if_neg service, if_neg event]
    rcases attr with rfl | rfl
    · exact kind
    · exact backend
  constructor
  · rw [Event.get, absent (lit "level") (by decide)]
    rfl
  · have gone : List.lookup (lit "prev_sig") (unstamped shipped.stamped) = none := by
      rw [List.lookup_eq_none_iff]
      intro entry member
      exact List.lookup_eq_none_iff.mp (absent (lit "prev_sig") (by decide)) entry
        (List.mem_of_mem_filter member)
    rw [prevSig, Event.get, gone]
    rfl

variable (same) in
theorem runCheck_once (name : Text) (events : List Event) :
    (runCheck same none durabilityGate events true
      { matcher := { event := some name }, op := lit "==", count := 1 }).map
      CheckResult.judged =
        some (decide (events.countP (fun ev => Event.name ev == some name) = 1), true) := by
  have compiled : compileCheck durabilityGate.indicators none durabilityGate.allowErrors
      { matcher := { event := some name }, op := lit "==", count := 1 } =
        some (.count (.init ⟨some name, []⟩ .eq 1)) := rfl
  obtain ⟨latched, fed⟩ := Monitor.fed_count same events 0 (.init ⟨some name, []⟩ .eq 1)
  have accepts : (Resolved.accepts same ⟨some name, []⟩) = fun ev =>
      Event.name ev == some name := by
    funext ev
    simp [Resolved.accepts]
  rw [runCheck, compiled, Option.map_some, Option.map_some, CheckResult.judged,
    Monitor.runMonitor_eq, Monitor.collapse, fed]
  simp [Monitor.passes, CountMonitor.passes, CountMonitor.init, Op.compare, accepts,
    CheckResult.gates, Monitor.tautological,
    CountMonitor.tautological]

/-- What the implicit check on errors compiles to. -/
def errorMonitor : AbsentMonitor where
  resolved := [⟨none, [(lit "level", .text (lit "ERROR"))]⟩,
    ⟨none, [(lit "level", .text (lit "CRITICAL"))]⟩]
  allow := []

/-- Events without a level are no errors. -/
theorem runCheck_forbid (nullText : ∀ t, same .null (.text t) = false) {events : List Event}
    (plain : ∀ ev ∈ events, Event.get ev (lit "level") = .null) :
    (runCheck same none durabilityGate events true (forbidRule [])).map CheckResult.judged =
      some (true, true) := by
  obtain ⟨latched, fed⟩ := Monitor.fed_absent same events 0 errorMonitor
  have compiled : compileCheck durabilityGate.indicators none durabilityGate.allowErrors
      (forbidRule []) =
      some (.absent errorMonitor) := rfl
  have none_offends : events.filter (errorMonitor.offends same) = [] := by
    rw [List.filter_eq_nil_iff]
    intro ev member
    simp [AbsentMonitor.offends, errorMonitor, Resolved.accepts, plain ev member, nullText]
  rw [runCheck, compiled, Option.map_some, Option.map_some, CheckResult.judged,
    Monitor.runMonitor_eq, Monitor.collapse,
    fed, none_offends]
  rfl

theorem judge_two (a b : Bool) (authenticated : Option Bool) :
    (judge env durabilityGate (true && true) ([(a, true), (b, true)] ++ if env.forbidErrors
      then [(true, true)] else [])
      authenticated).ok = true ↔ a = true ∧ b = true ∧ env.requireCorroboration = false ∧
        (env.requireSignature = true → authenticated = some true) := by
  have unset : durabilityGate.requireSignature.getD env.requireSignature = env.requireSignature :=
    rfl
  have free : durabilityGate.requireCorroboration.getD env.requireCorroboration =
      env.requireCorroboration := rfl
  rw [judge, unset, free]
  cases env.forbidErrors <;> simp [and_assoc, imp_iff_not_or]

/-- Records that name no tag are no chain. -/
theorem unsigned_refused (asked : env.requireSignature = true) {events : List Event}
    (some_event : events ≠ [])
    (unsigned : ∀ ev ∈ events, prevSig (unstamped ev) = none) :
    authenticate h env durabilityGate events true ≠ some (some true) := by
  obtain ⟨ev, rest, rfl⟩ := List.exists_cons_of_ne_nil some_event
  have first : prevSig (unstamped ev) ≠ some [] := by
    rw [unsigned ev List.mem_cons_self]
    exact (Option.some_ne_none []).symm
  simp only [authenticate, durabilityGate, Option.getD_none, asked, Bool.true_and, if_true]
  split_ifs with keyless
  · simp
  · rw [Hashing.verifyChain, List.map_cons, Hashing.verifyFrom, if_pos first]
    simp

/-- The gate is green when both counts are one, unless it is asked for a second source, which it
does not name, or for a chain, which the service does not write. -/
theorem durability_green (nullText : ∀ t, same .null (.text t) = false) {events : List Event}
    (plain : ∀ ev ∈ events, Event.get ev (lit "level") = .null ∧ prevSig (unstamped ev) = none) :
    (∃ result, evaluateEvents same h env none durabilityGate events true true = some result ∧
    result.ok = true) ↔
      events.countP (fun ev => Event.name ev == some (lit "feedback_received")) = 1 ∧
        events.countP (fun ev => Event.name ev == some (lit "feedback_durably_stored")) = 1 ∧
          env.requireCorroboration = false ∧ env.requireSignature = false := by
  have perm := StableOrder.sorted_perm streamKey events
  have sorted_plain : ∀ ev ∈ StableOrder.sorted streamKey events,
      Event.get ev (lit "level") = .null ∧ prevSig (unstamped ev) = none := fun ev member =>
    plain ev (perm.mem_iff.mp member)
  have received := runCheck_once same (lit "feedback_received")
      (StableOrder.sorted streamKey events)
  have stored := runCheck_once same (lit "feedback_durably_stored")
    (StableOrder.sorted streamKey events)
  have clean := runCheck_forbid nullText fun ev member => (sorted_plain ev member).1
  rw [perm.countP_eq] at received stored
  have judged := evaluate_judge same h env none durabilityGate events true true
  have checks : ((durabilityGate.rules env).mapM fun rule => (runCheck same none durabilityGate
      (StableOrder.sorted streamKey events) (true && true) rule).map CheckResult.judged) =
        some ([(decide (events.countP
          (fun ev => Event.name ev == some (lit "feedback_received")) = 1), true),
          (decide (events.countP (fun ev => Event.name ev == some (lit "feedback_durably_stored")) =
            1), true)] ++
          if env.forbidErrors then [(true, true)] else []) := by
    have unset : durabilityGate.forbidErrors.getD env.forbidErrors = env.forbidErrors := rfl
    rw [Spec.rules, unset]
    cases env.forbidErrors with
    | false =>
      rw [if_neg Bool.false_ne_true, if_neg Bool.false_ne_true]
      change List.mapM _ [_, _] = _
      simp only [Bool.and_self, List.mapM_cons, List.mapM_nil, received, stored]
      rfl
    | true =>
      rw [if_pos rfl, if_pos rfl]
      change List.mapM _ [_, _, forbidRule []] = _
      simp only [Bool.and_self, List.mapM_cons, List.mapM_nil, received, stored, clean]
      rfl
  rw [checks, Option.bind_some] at judged
  have green : (∃ result, evaluateEvents same h env none durabilityGate events true true =
      some result ∧ result.ok = true) ↔
      ∃ authenticated, authenticate h env durabilityGate (StableOrder.sorted streamKey events)
        true = some authenticated ∧
        events.countP (fun ev => Event.name ev == some (lit "feedback_received")) = 1 ∧
        events.countP (fun ev => Event.name ev == some (lit "feedback_durably_stored")) = 1 ∧
        env.requireCorroboration = false ∧
          (env.requireSignature = true → authenticated = some true) := by
    constructor
    · rintro ⟨result, its, ok⟩
      rw [its, Option.map_some] at judged
      obtain ⟨authenticated, found, verdict⟩ := Option.map_eq_some_iff.mp judged.symm
      obtain ⟨first, second, signed⟩ :=
        (judge_two _ _ authenticated).mp ((congrArg Judgement.ok verdict).trans ok)
      exact ⟨authenticated, found, of_decide_eq_true first, of_decide_eq_true second, signed⟩
    · rintro ⟨authenticated, found, first, second, signed⟩
      have told := judged.trans (congrArg (Option.map _) found)
      obtain ⟨result, its, verdict⟩ := Option.map_eq_some_iff.mp told
      refine ⟨result, its, (congrArg Judgement.ok verdict).trans ?_⟩
      exact (judge_two _ _ authenticated).mpr ⟨decide_eq_true first, decide_eq_true second, signed⟩
  rw [green]
  cases asked : env.requireSignature with
  | false =>
    constructor
    · rintro ⟨_, _, first, second, free, _⟩
      exact ⟨first, second, free, rfl⟩
    · rintro ⟨first, second, free, _⟩
      refine ⟨none, ?_, first, second, free, by simp⟩
      simp [authenticate, durabilityGate, asked]
  | true =>
    refine iff_of_false ?_ (by simp)
    rintro ⟨authenticated, found, first, _, _, proven⟩
    have some_event : StableOrder.sorted streamKey events ≠ [] := by
      intro empty
      rw [empty] at perm
      rw [← perm.countP_eq] at first
      cases first
    exact unsigned_refused asked some_event (fun ev member => (sorted_plain ev member).2)
      (proven rfl ▸ found)

end Verdict

/-- Whatever else happens before and after, the gate over a submission is green exactly if the
database took the record, both events are in the window, and neither a second source nor a chain is
asked for. -/
theorem durability_gate_iff {α : Type*} (s : Settings) (cursor : Cursor α) (kind : α → Text)
    (same : Json → Json → Bool) (nullText : ∀ t, same .null (.text t) = false) (h : Hashing)
    (env : Environment)
    (before after : List (Traced α)) (id : String) (created : ℤ)
    (status : Option Feedback.FeedbackStatus) (details : α) (w : Weather)
    (firstUs secondUs nowUs : ℤ) (unused : ∀ c ∈ before ++ after, savedId c.call ≠ some id) :
    let found := Pipeline.run s cursor kind {} before
    let left := Pipeline.run s cursor kind {}
      (before ++ ⟨(.saveResult id created status details, w), firstUs, secondUs⟩ :: after)
    (∃ result, evaluate same h env durabilityGate left.trace (idText id) nowUs = some result ∧
      result.ok = true) ↔
      Stores s w found.store ∧ within (nowUs - lookbackUs) nowUs firstUs = true ∧
        within (nowUs - lookbackUs) nowUs secondUs = true ∧ env.requireCorroboration = false ∧
          env.requireSignature = false := by
  intro found left
  have earlier : ∀ c ∈ before, savedId c.call ≠ some id := fun c member =>
    unused c (List.mem_append_left _ member)
  have later : ∀ c ∈ after, savedId c.call ≠ some id := fun c member =>
    unused c (List.mem_append_right _ member)
  have fresh : id ∉ found.store.documents.keys :=
    run_keys earlier (by simp [Table.keys, Table.empty])
  have plain : ∀ shipped ∈ left.trace.shipped, shipped.Plain := run_plain _ (List.forall_mem_nil _)
  have steps : left =
      (found.step s cursor kind ⟨(.saveResult id created status details, w), firstUs, secondUs⟩).run
        s cursor
      kind after := by
    simp only [left, found, Pipeline.run, List.foldl_append, List.foldl_cons]
  have counted (name : Text) (watched : name ≠ lit "feedback_deleted") :
      left.trace.hits (idText id) name (nowUs - lookbackUs) nowUs =
        (found.step s cursor kind ⟨(.saveResult id created status details, w), firstUs,
          secondUs⟩).trace.hits (idText id)
          name (nowUs - lookbackUs) nowUs ∧ found.trace.hits (idText id) name
            (nowUs - lookbackUs) nowUs = 0 := by
    refine ⟨?_, run_hits_other earlier watched⟩
    rw [steps]
    exact run_hits_other later watched
  obtain ⟨received, none_received⟩ := counted (lit "feedback_received") (by decide)
  obtain ⟨stored, none_stored⟩ := counted (lit "feedback_durably_stored") (by decide)
  obtain ⟨first, second⟩ := step_hits_save s cursor kind found id (nowUs - lookbackUs) nowUs created
    status details w
    firstUs secondUs
  have durable : (saveResult s w found.store ⟨id, created, status, none, none, details⟩).1.durable =
      true ↔
      Stores s w found.store := saveResult_durable fresh
  have one (P : Prop) [Decidable P] : (if P then 1 else 0) = 1 ↔ P := by
    split_ifs with holds <;> simp [holds]
  rw [evaluate, durability_green nullText fun ev => query_plain plain, query_countP, query_countP,
    received, stored, first,
    second, none_received, none_stored, Nat.zero_add, Nat.zero_add, one, one, durable]
  constructor
  · rintro ⟨sent, ⟨kept, stores⟩, unasked⟩
    exact ⟨stores, sent, kept, unasked⟩
  · rintro ⟨stores, sent, kept, unasked⟩
    exact ⟨sent, ⟨kept, stores⟩, unasked⟩

/-- A save during an outage, and one after it for which the gate is green. -/
def sampleCalls : List (Traced Unit) := [⟨(.saveResult "r1" 0 (some .new) (), outage 0), 10, 20⟩]

theorem durability_gate_iff_recovered :
    (∃ result, evaluate sameText sampleHashing {} durabilityGate
      (Pipeline.run sampleSettings stableCursor (fun _ => lit "bug") {}
        (sampleCalls ++ ⟨(.saveResult "r2" 0 (some .new) (), fair 40), 30, 40⟩ ::
          [⟨(.delete "r2", fair 50), 50, 50⟩])).trace
      (idText "r2") 60 = some result ∧ result.ok = true) ↔
      Stores sampleSettings (fair 40) (Pipeline.run sampleSettings stableCursor (fun _ => lit "bug")
        {} sampleCalls).store ∧
        within (60 - lookbackUs) 60 30 = true ∧ within (60 - lookbackUs) 60 40 = true ∧
          ({} : Environment).requireCorroboration = false ∧
          ({} : Environment).requireSignature = false := by
  refine durability_gate_iff sampleSettings stableCursor (fun _ => lit "bug") sameText
    (fun _ => rfl) sampleHashing {}
    sampleCalls [⟨(.delete "r2", fair 50), 50, 50⟩] "r2" 0 (some .new) () (fair 40) 30 40 60 ?_
  intro c member
  simp only [sampleCalls, List.cons_append, List.nil_append, List.mem_cons, List.not_mem_nil,
    or_false] at member
  rcases member with rfl | rfl <;> simp [savedId]

end Metahumotonic.Gate
