import Metahumotonic.Agent.Scheduler

/-! What holds in every state of a scheduler run, whichever way its fibers and its
coordinator interleave. -/
namespace Metahumotonic.Agent

open Library WorkGraph

variable {T : Type u} {A : Type v} {E : Type w} {job : Job T A} {s t : Sched T A E}

section Steps

/-- The steps of the coordinator, by what they do. -/
inductive Turn (job : Job T A) (s : Sched T A E) : Sched T A E → Prop where
  | planned (here : s.pc = .plan)
      (some_ : (job.graph.readySet s.state).take (job.concurrency - s.state.running.card) ≠ []) :
      Turn job s { s with
        pc := .mark ((job.graph.readySet s.state).take (job.concurrency - s.state.running.card)) }
  | idle (here : s.pc = .plan)
      (none_ : (job.graph.readySet s.state).take (job.concurrency - s.state.running.card) = []) :
      Turn job s { s with pc := .check }
  | marked (ready : List NodeId) (here : s.pc = .mark ready) :
      Turn job s { s with
        state := { s.state with running := s.state.running ∪ ready.toFinset }
        pc := .start ready }
  | started (node : WorkNode T) (todo : List NodeId) (here : s.pc = .start (node.id :: todo))
      (stored : node ∈ job.graph.nodes.values) :
      Turn job s { fork job s node with pc := .start todo }
  | measured (here : s.pc = .start []) :
      Turn job s { s with peak := max s.peak s.state.running.card, pc := .plan }
  | stopping (here : s.pc = .check) (none_ : s.state.running = ∅) :
    Turn job s { s with pc := .joinAll }
  | waiting (here : s.pc = .check) (some_ : s.state.running ≠ ∅) :
      Turn job s { s with pc := .join s.live.head? }
  | joined (fiber : Option Nat) (here : s.pc = .join fiber)
      (ended : ∀ key, fiber = some key → s.alive key = false) :
      Turn job s { s with live := s.live.tail, pc := .plan }
  | left (here : s.pc = .joinAll) (ended : ∀ key ∈ s.live, s.alive key = false) :
      Turn job s { s with pc := .finished }

theorem coordinate_turn (moved : coordinate job s = some t) : Turn job s t := by
  unfold coordinate at moved
  split at moved
  · rename_i here
    simp only at moved
    split at moved
    · rename_i ready
      cases moved
      exact .planned here ready.2
    · rename_i none_
      cases moved
      refine .idle here ?_
      by_cases slots : 0 < job.concurrency - s.state.running.card
      · exact Decidable.not_not.mp fun some_ => none_ ⟨slots, some_⟩
      · rw [Nat.eq_zero_of_not_pos slots, List.take_zero]
  · rename_i ready here
    cases moved
    exact .marked ready here
  · rename_i id todo here
    split at moved
    · rename_i node found
      cases moved
      have home := job.graph.named id node found
      subst home
      exact .started node todo here (mem_values.mpr found)
    · cases moved
  · rename_i here
    cases moved
    exact .measured here
  · rename_i here
    cases moved
    split
    · rename_i none_
      exact .stopping here none_
    · rename_i some_
      exact .waiting here some_
  · rename_i here
    cases moved
    exact .joined none here nofun
  · rename_i key here
    split at moved
    · cases moved
    · rename_i ended
      cases moved
      refine .joined (some key) here fun other same => ?_
      cases same
      exact Bool.not_eq_true _ ▸ ended
  · rename_i here
    split at moved
    · cases moved
    · rename_i ended
      cases moved
      refine .left here fun key member => ?_
      have none_ := List.any_eq_false.mp (Bool.not_eq_true _ ▸ ended) key member
      exact Bool.not_eq_true _ ▸ none_
  · cases moved

/-- What the end of a fiber does to the run. -/
structure Ended (graph : WorkGraph T) (s : Sched T A E) (fiber : Fiber T A) (result : Except E A)
    (t : Sched T A E) : Prop where
  split : ∃ before after, s.active = before ++ fiber :: after ∧ t.active = before ++ after
  results : t.results = s.results ++ [(fiber.node.id, result)]
  starts : t.starts = s.starts
  live : t.live = s.live
  peak : t.peak = s.peak
  pc : t.pc = s.pc
  running : t.state.running = s.state.running.erase fiber.node.id
  done : ∀ id, id ∈ t.state.done ↔ id ∈ s.state.done ∨ id = fiber.node.id ∧
    ∃ value, result = .ok value
  blocked : ∀ id, id ∈ t.state.blocked ↔ id ∈ s.state.blocked ∨
    (∃ error, result = .error error) ∧
      (id = fiber.node.id ∨ Ancestor graph fiber.node.id id ∧ id ∉ s.state.done)
  values : ∀ id value, t.values.get? id = some value ↔
    id = fiber.node.id ∧ result = .ok value ∨
      s.values.get? id = some value ∧ (id = fiber.node.id → ∃ error, result = .error error)
  outcomes : ∀ id outcome, t.outcomes.get? id = some outcome ↔
    id = fiber.node.id ∧ outcome = .ofResult result ∨
    id ≠ fiber.node.id ∧ (s.outcomes.get? id = some outcome ∨
      s.outcomes.get? id = none ∧ outcome = .blocked fiber.node.id ∧
        (∃ error, result = .error error) ∧
        Ancestor graph fiber.node.id id ∧ id ∉ s.state.done ∧ id ∉ s.state.blocked)

/-- The nodes of a cascade that have no outcome yet are blocked. -/
theorem cascade_get (ids : List NodeId) (id other : NodeId)
    (outcomes : Table NodeId (Outcome A E)) :
    (ids.foldl (fun next blockedId =>
      if (next.get? blockedId).isSome then next else next.set blockedId (.blocked id))
        outcomes).get? other =
      match outcomes.get? other with
      | some outcome => some outcome
      | none => if other ∈ ids then some (.blocked id) else none := by
  induction ids generalizing outcomes with
  | nil =>
    rw [List.foldl_nil]
    cases outcomes.get? other with
    | none => simp
    | some outcome => rfl
  | cons head rest ih =>
    rw [List.foldl_cons, ih]
    by_cases same : other = head
    · subst same
      cases found : outcomes.get? other with
      | none => simp
      | some outcome => simp [found]
    · have kept : (if (outcomes.get? head).isSome then outcomes else
          outcomes.set head (.blocked id)).get? other = outcomes.get? other := by
        split
        · rfl
        · exact Table.get?_set_ne _ _ same
      simp only [kept, List.mem_cons, same, false_or]

theorem markFailed_outcomes {graph : WorkGraph T} {id other : NodeId} {error : E}
    {outcome : Outcome A E} :
    (markFailed graph s id error).outcomes.get? other = some outcome ↔
      other = id ∧ outcome = .failed error ∨
      other ≠ id ∧ (s.outcomes.get? other = some outcome ∨
        s.outcomes.get? other = none ∧ outcome = .blocked id ∧
          Ancestor graph id other ∧ other ∉ s.state.done ∧ other ∉ s.state.blocked) := by
  have inCascade : other ∈ graph.ids.filter (· ∈ graph.newlyBlocked s.state id) ↔
      Ancestor graph id other ∧ other ∉ s.state.done ∧ other ∉ s.state.blocked := by
    rw [List.mem_filter, decide_eq_true_eq, mem_newlyBlocked]
    refine ⟨And.right, fun way => ⟨?_, way⟩⟩
    obtain ⟨_, edge, _⟩ := Relation.TransGen.head'_iff.mp way.1
    exact dependsOn_ids edge
  simp only [markFailed, cascade_get, Table.get?_set]
  by_cases same : other = id
  · simp [same, eq_comm]
  · rw [if_neg same]
    cases s.outcomes.get? other with
    | some old => simp [same]
    | none =>
      rw [← inCascade]
      by_cases way : other ∈ graph.ids.filter (· ∈ graph.newlyBlocked s.state id)
      · simp only [same, way, if_true, Option.some.injEq, false_and, false_or, ne_eq,
          not_false_eq_true,
          true_and, and_true, reduceCtorEq, eq_comm]
      · simp only [same, way, if_false, reduceCtorEq, false_and, and_false, or_self]

theorem settle_active {key : Nat} {fiber : Fiber T A}
    (found : s.active.find? (·.key == key) = some fiber)
    (result : Except E A) : ∃ before after, s.active = before ++ fiber :: after ∧
      (settle s fiber result).active = before ++ after := by
  obtain ⟨keyed, before, after, split, others⟩ := List.find?_eq_some_iff_append.mp found
  have same : fiber.key = key := eq_of_beq keyed
  refine ⟨before, after, split, ?_⟩
  simp only [settle, split, same]
  rw [List.eraseP_append_right _ (fun other member => by simpa using others other member),
    List.eraseP_cons_of_pos (by simpa using same)]

theorem finish_ended {graph : WorkGraph T} {key : Nat} {result : Except E A}
    (moved : finish graph s key result = some t) :
    ∃ fiber, s.active.find? (·.key == key) = some fiber ∧ Ended graph s fiber result t := by
  unfold finish at moved
  cases found : s.active.find? (·.key == key) with
  | none =>
    rw [found] at moved
    cases moved
  | some fiber =>
    rw [found] at moved
    refine ⟨fiber, rfl, ?_⟩
    cases result with
    | ok value =>
      cases moved
      refine ⟨settle_active found (.ok value), rfl, rfl, rfl, rfl, rfl, rfl, fun id =>
        ?_, fun id => ?_,
        fun id other => ?_, fun id outcome => ?_⟩
      · simp [markCompleted, settle, or_comm]
      · simp [markCompleted, settle]
      · by_cases same : id = fiber.node.id <;> simp [markCompleted, settle, same]
      · by_cases same : id = fiber.node.id <;>
          simp [markCompleted, settle, same, Outcome.ofResult, eq_comm]
    | error error =>
      cases moved
      refine ⟨settle_active found (.error error), rfl, rfl, rfl, rfl, rfl, rfl, fun id =>
        ?_, fun id => ?_,
        fun id value => ?_, fun id outcome => ?_⟩
      · simp [markFailed, settle]
      · simp only [markFailed, settle, Finset.mem_union, Finset.mem_insert, mem_newlyBlocked]
        by_cases old : id ∈ s.state.blocked <;> simp [old]
      · simp [markFailed, settle]
      · rw [markFailed_outcomes]
        simp [settle, Outcome.ofResult]

end Steps

section Invariant

/-- The nodes that are marked but not yet forked. -/
def Sched.todo (s : Sched T A E) : List NodeId :=
  match s.pc with
  | .start todo => todo
  | _ => []

theorem active_id {fiber : Fiber T A} (active : fiber ∈ s.active) :
    fiber.node.id ∈ s.active.map (·.node.id) :=
  List.mem_map_of_mem (f := fun fiber : Fiber T A => fiber.node.id) active

/-- Every node that was ever marked running. -/
def Sched.begun (s : Sched T A E) : List NodeId := s.starts ++ s.todo

def Sched.Completed (s : Sched T A E) (id : NodeId) : Prop := ∃ value, (id, .ok value) ∈ s.results

def Sched.Failed (s : Sched T A E) (id : NodeId) : Prop := ∃ error, (id, .error error) ∈ s.results

/-- Nodes that may be marked running together. -/
structure Batch (job : Job T A) (state : RunState) (ready : List NodeId) : Prop where
  nonempty : ready ≠ []
  nodup : ready.Nodup
  startable : ∀ id ∈ ready, Startable job.graph state id
  apart : ∀ a ∈ ready, ∀ b ∈ ready, a ≠ b →
    Disjoint (job.graph.writeSetOf a).toFinset (job.graph.writeSetOf b).toFinset
  room : state.running.card + ready.length ≤ job.concurrency

/-- The invariant of a run. -/
structure Safe (job : Job T A) (s : Sched T A E) : Prop where
  fresh : s.begun.Nodup
  inside : ∀ id ∈ s.begun, id ∈ job.graph.ids
  deps : ∀ id ∈ s.begun, ∀ dep, DependsOn job.graph id dep → dep ∈ s.state.done
  fates : (s.results.map (·.1) ++ s.active.map (·.node.id)).Perm s.starts
  done : ∀ id, id ∈ s.state.done ↔ s.Completed id
  blocked : ∀ id, id ∈ s.state.blocked ↔ ∃ f, s.Failed f ∧ (id = f ∨ Ancestor job.graph f id)
  running : ∀ id, id ∈ s.state.running ↔ id ∈ s.active.map (·.node.id) ∨ id ∈ s.todo
  leases : ∀ a ∈ s.state.running, ∀ b ∈ s.state.running, a ≠ b →
    Disjoint (job.graph.writeSetOf a).toFinset (job.graph.writeSetOf b).toFinset
  slots : s.state.running.card ≤ job.concurrency
  peak : s.peak ≤ job.concurrency
  queued : ∀ fiber ∈ s.active, fiber.key ∈ s.live
  batch : ∀ ready, s.pc = .mark ready → Batch job s.state ready
  waits : ∀ fiber, s.pc = .join fiber → ∃ key rest, fiber = some key ∧ s.live = key :: rest
  rest : s.pc = .joinAll ∨ s.pc = .finished → s.state.running = ∅

theorem Safe.initial (job : Job T A) : Safe job ({} : Sched T A E) where
  fresh := List.nodup_nil
  inside := nofun
  deps := nofun
  fates := .nil
  done id := by simp [initialRunState, Sched.Completed]
  blocked id := by simp [initialRunState, Sched.Failed]
  running id := by simp [initialRunState, Sched.todo]
  leases := nofun
  slots := Nat.zero_le _
  peak := Nat.zero_le _
  queued := nofun
  batch := nofun
  waits := nofun
  rest _ := rfl

namespace Safe

/-- A node ends at most once, and not while its fiber is active. -/
theorem once (safe : Safe job s) : (s.results.map (·.1) ++ s.active.map (·.node.id)).Nodup :=
  safe.fates.nodup_iff.mpr (List.Nodup.of_append_left safe.fresh)

theorem of_result (safe : Safe job s) {id : NodeId} {result : Except E A}
    (ended : (id, result) ∈ s.results) : id ∈ s.starts :=
  safe.fates.mem_iff.mp (List.mem_append_left _ (List.mem_map_of_mem (f := (·.1)) ended))

theorem of_active (safe : Safe job s) {id : NodeId} (active : id ∈ s.active.map (·.node.id)) :
    id ∈ s.starts := safe.fates.mem_iff.mp (List.mem_append_right _ active)

theorem of_done (safe : Safe job s) {id : NodeId} (done : id ∈ s.state.done) : id ∈ s.starts := by
  obtain ⟨value, ended⟩ := (safe.done id).mp done
  exact safe.of_result ended

theorem of_running (safe : Safe job s) {id : NodeId} (running : id ∈ s.state.running) :
    id ∈ s.begun := by
  rcases (safe.running id).mp running with active | marked
  · exact List.mem_append_left _ (safe.of_active active)
  · exact List.mem_append_right _ marked

/-- `done` is closed under dependencies. -/
theorem closed (safe : Safe job s) {id dep : NodeId} (done : id ∈ s.state.done)
    (edge : DependsOn job.graph id dep) : dep ∈ s.state.done :=
  safe.deps id (List.mem_append_left _ (safe.of_done done)) dep edge

theorem ancestor_done (safe : Safe job s) {ancestor id : NodeId}
    (deps : ∀ dep, DependsOn job.graph id dep → dep ∈ s.state.done)
    (path : Ancestor job.graph ancestor id) : ancestor ∈ s.state.done := by
  induction path with
  | single edge => exact deps _ edge
  | tail _ edge ih => exact safe.closed ih edge

/-- What is running has not ended. -/
theorem not_ended (safe : Safe job s) {id : NodeId} (running : id ∈ s.state.running)
    {result : Except E A} (ended : (id, result) ∈ s.results) : False := by
  rcases (safe.running id).mp running with active | marked
  · have apart := (List.nodup_append.mp safe.once).2.2
    exact apart id (List.mem_map_of_mem (f := (·.1)) ended) id active rfl
  · have apart := (List.nodup_append.mp safe.fresh).2.2
    exact apart id (safe.of_result ended) id marked rfl

theorem done_not_failed (safe : Safe job s) {id : NodeId} (done : id ∈ s.state.done) :
    ¬ s.Failed id := by
  rintro ⟨error, failed⟩
  obtain ⟨value, completed⟩ := (safe.done id).mp done
  have distinct := List.Nodup.of_append_left safe.once
  have same := List.inj_on_of_nodup_map distinct completed failed rfl
  cases same

theorem done_running (safe : Safe job s) : Disjoint s.state.done s.state.running := by
  rw [Finset.disjoint_left]
  intro id done running
  obtain ⟨value, ended⟩ := (safe.done id).mp done
  exact safe.not_ended running ended

theorem done_blocked (safe : Safe job s) : Disjoint s.state.done s.state.blocked := by
  rw [Finset.disjoint_left]
  intro id done blocked
  obtain ⟨f, failed, rfl | path⟩ := (safe.blocked id).mp blocked
  · exact safe.done_not_failed done failed
  · exact safe.done_not_failed (safe.ancestor_done (fun _ => safe.closed done) path) failed

theorem running_blocked (safe : Safe job s) : Disjoint s.state.running s.state.blocked := by
  rw [Finset.disjoint_left]
  intro id running blocked
  obtain ⟨f, failed, rfl | path⟩ := (safe.blocked id).mp blocked
  · obtain ⟨error, ended⟩ := failed
    exact safe.not_ended running ended
  · exact safe.done_not_failed
      (safe.ancestor_done (safe.deps id (safe.of_running running)) path) failed

/-- A node that may start was never started. -/
theorem startable_fresh (safe : Safe job s) {id : NodeId} (startable :
    Startable job.graph s.state id) :
    id ∉ s.begun := by
  intro begun
  rcases List.mem_append.mp begun with started | marked
  · rcases List.mem_append.mp (safe.fates.mem_iff.mpr started) with ended | active
    · obtain ⟨⟨other, result⟩, member, same⟩ := List.mem_map.mp ended
      cases same
      cases result with
      | ok value => exact startable.notDone ((safe.done other).mpr ⟨value, member⟩)
      | error error => exact startable.notBlocked ((safe.blocked other).mpr
        ⟨other, ⟨error, member⟩, .inl rfl⟩)
    · exact startable.notRunning ((safe.running id).mpr (.inl active))
  · exact startable.notRunning ((safe.running id).mpr (.inr marked))

/-- Two ready nodes may be in one batch, and any prefix of them that fits the slots is one. -/
theorem plan_batch (job : Job T A) (state : RunState) {slots : Nat}
    (room : slots ≤ job.concurrency - state.running.card)
    (some_ : (job.graph.readySet state).take slots ≠ []) :
    Batch job state ((job.graph.readySet state).take slots) where
  nonempty := some_
  nodup := readySet_nodup.sublist (List.take_sublist _ _)
  startable id member := readySet_startable (List.mem_of_mem_take member)
  apart a ha b hb other := readySet_disjoint (List.mem_of_mem_take ha)
    (List.mem_of_mem_take hb) other
  room := by
    have short : ((job.graph.readySet state).take slots).length ≤ slots := List.length_take_le _ _
    have positive : 0 < ((job.graph.readySet state).take slots).length :=
      List.length_pos_iff.mpr some_
    omega

/-- Ready nodes that are marked together keep their write-sets apart. -/
theorem leases_marked (safe : Safe job s) {ready : List NodeId} (batch : Batch job s.state ready) :
    ∀ a ∈ s.state.running ∪ ready.toFinset, ∀ b ∈ s.state.running ∪ ready.toFinset, a ≠ b →
      Disjoint (job.graph.writeSetOf a).toFinset (job.graph.writeSetOf b).toFinset := by
  intro a ha b hb other
  rcases Finset.mem_union.mp ha with aRuns | aReady
  · rcases Finset.mem_union.mp hb with bRuns | bReady
    · exact safe.leases a aRuns b bRuns other
    · exact ((batch.startable b (List.mem_toFinset.mp bReady)).free a aRuns).symm
  · have mine := List.mem_toFinset.mp aReady
    rcases Finset.mem_union.mp hb with bRuns | bReady
    · exact (batch.startable a mine).free b bRuns
    · exact batch.apart a mine b (List.mem_toFinset.mp bReady) other

theorem marked (safe : Safe job s) {ready : List NodeId} (here : s.pc = .mark ready) :
    Safe job { s with
      state := { s.state with running := s.state.running ∪ ready.toFinset }
      pc := .start ready } := by
  have batch := safe.batch ready here
  have begun : s.begun = s.starts := by simp only [Sched.begun, Sched.todo, here, List.append_nil]
  have fresh := fun id member => safe.startable_fresh (batch.startable id member)
  refine ⟨?_, ?_, ?_, safe.fates, safe.done, safe.blocked, ?_, safe.leases_marked batch,
    ?_, safe.peak,
    safe.queued, nofun, nofun, fun ending => ?_⟩
  · refine List.nodup_append.mpr ⟨List.Nodup.of_append_left safe.fresh, batch.nodup, ?_⟩
    intro old started new member same
    subst same
    exact fresh old member (List.mem_append_left _ started)
  · intro id member
    rcases List.mem_append.mp member with started | new
    · exact safe.inside id (List.mem_append_left _ started)
    · exact (batch.startable id new).inside
  · intro id member
    rcases List.mem_append.mp member with started | new
    · exact safe.deps id (List.mem_append_left _ started)
    · exact (batch.startable id new).deps
  · intro id
    have before := safe.running id
    simp only [Sched.todo, here, List.not_mem_nil, or_false] at before
    simp only [Finset.mem_union, List.mem_toFinset, before, Sched.todo]
  · have size := Finset.card_union_le s.state.running ready.toFinset
    have short := List.toFinset_card_le ready
    have room := batch.room
    simp only
    omega
  · rcases ending with ending | ending <;> cases ending

theorem started (safe : Safe job s) {node : WorkNode T} {todo : List NodeId}
    (here : s.pc = .start (node.id :: todo)) :
    Safe job { fork job s node with pc := .start todo } := by
  have begun : ({ fork job s node with pc := .start todo } : Sched T A E).begun = s.begun := by
    simp only [Sched.begun, Sched.todo, here, fork, List.append_assoc, List.cons_append,
      List.nil_append]
  refine ⟨begun ▸ safe.fresh, begun ▸ safe.inside, begun ▸ safe.deps, ?_, safe.done,
    safe.blocked, ?_,
    safe.leases, safe.slots, safe.peak, ?_, nofun, nofun, fun ending => ?_⟩
  · simp only [fork, List.map_append, List.map_cons, List.map_nil, ← List.append_assoc]
    exact safe.fates.append_right _
  · intro id
    have before := safe.running id
    simp only [Sched.todo, here, List.mem_cons] at before
    simp only [fork, Sched.todo, List.map_append, List.map_cons, List.map_nil, List.mem_append,
      List.mem_singleton, before, or_assoc]
  · intro fiber member
    rcases List.mem_append.mp member with old | new
    · exact List.mem_append_left _ (safe.queued fiber old)
    · cases List.mem_singleton.mp new
      exact List.mem_append_right _ List.mem_cons_self
  · rcases ending with ending | ending <;> cases ending

/-- A step that only moves on keeps the invariant. -/
theorem moved (safe : Safe job s) {live : List Nat} {peak : Nat} {pc : Pc}
    (queued : ∀ fiber ∈ s.active, fiber.key ∈ live) (bounded : peak ≤ job.concurrency)
    (todo : s.todo = ({ s with live := live, peak := peak, pc := pc } : Sched T A E).todo)
    (batch : ∀ ready, pc = .mark ready → Batch job s.state ready)
    (waits : ∀ fiber, pc = .join fiber → ∃ key rest, fiber = some key ∧ live = key :: rest)
    (rest : pc = .joinAll ∨ pc = .finished → s.state.running = ∅) :
    Safe job { s with live := live, peak := peak, pc := pc } := by
  have begun : s.begun = ({ s with live := live, peak := peak, pc := pc } : Sched T A E).begun := by
    unfold Sched.begun
    rw [todo]
  exact ⟨begun ▸ safe.fresh, begun ▸ safe.inside, begun ▸ safe.deps, safe.fates, safe.done,
    safe.blocked,
    todo ▸ safe.running, safe.leases, safe.slots, bounded, queued, batch, waits, rest⟩

/-- While nodes are running and none is left to fork, the queue is not empty. -/
theorem queue_nonempty (safe : Safe job s) (todo : s.todo = []) (some_ : s.state.running ≠ ∅) :
    ∃ key rest, s.live = key :: rest := by
  obtain ⟨id, running⟩ := Finset.nonempty_iff_ne_empty.mpr some_
  have active := (safe.running id).mp running
  rw [todo] at active
  obtain ⟨fiber, member, _⟩ := List.mem_map.mp (active.resolve_right List.not_mem_nil)
  exact List.exists_cons_of_ne_nil (List.ne_nil_of_mem (safe.queued fiber member))

/-- Every fiber stays in the queue when one that has ended leaves its head. -/
theorem joined (safe : Safe job s) {key : Nat} {rest : List Nat} (queue : s.live = key :: rest)
    (ended : s.alive key = false) : ∀ fiber ∈ s.active, fiber.key ∈ rest := by
  intro fiber active
  have member := safe.queued fiber active
  rw [queue] at member
  rcases List.mem_cons.mp member with same | later
  · have none_ := List.any_eq_false.mp ended fiber active
    exact absurd same (by simpa using none_)
  · exact later

/-- A step of the coordinator keeps the invariant. -/
theorem turn (safe : Safe job s) (turned : Turn job s t) : Safe job t := by
  have ending : ∀ {pc : Pc}, pc ≠ .joinAll → pc ≠ .finished →
      (pc = .joinAll ∨ pc = .finished → s.state.running = ∅) :=
    fun notAll notOver which => (which.elim notAll notOver).elim
  cases turned with
  | planned here some_ =>
    refine safe.moved safe.queued safe.peak (by simp only [Sched.todo, here]) ?_
      nofun (ending nofun nofun)
    rintro ready ⟨⟩
    exact plan_batch job s.state (Nat.le_refl _) some_
  | idle here none_ =>
    exact safe.moved safe.queued safe.peak (by simp only [Sched.todo, here]) nofun nofun
      (ending nofun nofun)
  | marked ready here => exact safe.marked here
  | started node todo here stored => exact safe.started here
  | measured here =>
    exact safe.moved safe.queued (Nat.max_le.mpr ⟨safe.peak, safe.slots⟩)
      (by simp only [Sched.todo, here]) nofun nofun (ending nofun nofun)
  | stopping here none_ =>
    exact safe.moved safe.queued safe.peak (by simp only [Sched.todo, here]) nofun nofun fun _ =>
      none_
  | waiting here some_ =>
    have todo : s.todo = [] := by simp only [Sched.todo, here]
    obtain ⟨key, rest, queue⟩ := safe.queue_nonempty todo some_
    refine safe.moved safe.queued safe.peak todo nofun ?_ (ending nofun nofun)
    rintro fiber ⟨⟩
    exact ⟨key, rest, by rw [queue, List.head?_cons], queue⟩
  | joined fiber here ended =>
    obtain ⟨key, rest, rfl, queue⟩ := safe.waits fiber here
    have later := safe.joined queue (ended key rfl)
    exact safe.moved (by rwa [queue]) safe.peak (by simp only [Sched.todo, here]) nofun nofun
      (ending nofun nofun)
  | left here ended =>
    exact safe.moved safe.queued safe.peak (by simp only [Sched.todo, here]) nofun nofun
      fun _ => safe.rest (.inl here)

/-- The end of a fiber keeps the invariant. -/
theorem ended (safe : Safe job s) {fiber : Fiber T A} {result : Except E A}
    (ending : Ended job.graph s fiber result t) : Safe job t := by
  obtain ⟨before, after, split, left⟩ := ending.split
  have active : fiber.node.id ∈ s.active.map (·.node.id) :=
    active_id (split ▸ List.mem_append_right _ List.mem_cons_self)
  have running : fiber.node.id ∈ s.state.running := (safe.running _).mpr (.inl active)
  have todo : t.todo = s.todo := by simp only [Sched.todo, ending.pc]
  have begun : t.begun = s.begun := by rw [Sched.begun, ending.starts, todo, Sched.begun]
  have kept : ∀ id ∈ s.state.done, id ∈ t.state.done := fun id done =>
    (ending.done id).mpr (.inl done)
  have deps := safe.deps fiber.node.id (safe.of_running running)
  have notDone : fiber.node.id ∉ s.state.done := Finset.disjoint_right.mp safe.done_running running
  have fewer : t.state.running ⊆ s.state.running := ending.running ▸ Finset.erase_subset _ _
  have failed : ∀ id, t.Failed id ↔ s.Failed id ∨ id = fiber.node.id ∧
      ∃ error, result = .error error := by
    intro id
    simp only [Sched.Failed, ending.results, List.mem_append, List.mem_singleton, Prod.mk.injEq,
      exists_or, exists_and_left, eq_comm]
  refine ⟨begun ▸ safe.fresh, begun ▸ safe.inside, ?_, ?_, ?_, ?_, ?_, ?_, ?_,
    ending.peak ▸ safe.peak, ?_,
    ?_, ?_, ?_⟩
  · intro id member dep edge
    exact kept dep (safe.deps id (begun ▸ member) dep edge)
  · have moved : (s.results.map (·.1) ++ s.active.map (·.node.id)).Perm
        (t.results.map (·.1) ++ t.active.map (·.node.id)) := by
      rw [split, left, ending.results]
      simp only [List.map_append, List.map_cons, List.map_nil, List.append_assoc, List.cons_append,
        List.nil_append]
      exact List.Perm.append_left _ List.perm_middle
    rw [ending.starts]
    exact moved.symm.trans safe.fates
  · intro id
    rw [ending.done, safe.done]
    simp only [Sched.Completed, ending.results, List.mem_append, List.mem_singleton, Prod.mk.injEq,
      exists_or, exists_and_left, eq_comm]
  · intro id
    rw [ending.blocked, safe.blocked]
    constructor
    · rintro (⟨f, old, way⟩ | ⟨error, rfl | ⟨path, _⟩⟩)
      · exact ⟨f, (failed f).mpr (.inl old), way⟩
      · exact ⟨_, (failed _).mpr (.inr ⟨rfl, error⟩), .inl rfl⟩
      · exact ⟨_, (failed _).mpr (.inr ⟨rfl, error⟩), .inr path⟩
    · rintro ⟨f, new, way⟩
      rcases (failed f).mp new with old | ⟨rfl, error⟩
      · exact .inl ⟨f, old, way⟩
      · refine .inr ⟨error, way.imp_right fun path => ⟨path, fun done => ?_⟩⟩
        exact notDone (safe.ancestor_done (fun _ => safe.closed done) path)
  · intro id
    have before_ := safe.running id
    have distinct : ((before ++ fiber :: after).map (·.node.id)).Nodup :=
      split ▸ (List.nodup_append.mp safe.once).2.1
    have single : fiber.node.id ∉ (before ++ after).map (·.node.id) := by
      rw [List.map_append, List.map_cons] at distinct
      rw [List.map_append]
      exact (List.nodup_cons.mp (List.nodup_middle.mp distinct)).1
    have unmarked : fiber.node.id ∉ s.todo := by
      intro marked
      exact (List.nodup_append.mp safe.fresh).2.2 _ (safe.of_active active) _ marked rfl
    rw [ending.running, Finset.mem_erase, before_, todo, left, split]
    simp only [List.map_append, List.map_cons, List.mem_append, List.mem_cons] at single ⊢
    by_cases same : id = fiber.node.id
    · subst same
      simp only [ne_eq, not_true_eq_false, false_and, false_iff, not_or]
      exact ⟨not_or.mp single, unmarked⟩
    · simp only [ne_eq, same, not_false_eq_true, true_and, false_or]
  · intro a ha b hb other
    exact safe.leases a (fewer ha) b (fewer hb) other
  · exact (Finset.card_le_card fewer).trans safe.slots
  · intro other member
    rw [ending.live]
    refine safe.queued other (split ▸ ?_)
    rw [left] at member
    rcases List.mem_append.mp member with first | second
    · exact List.mem_append_left _ first
    · exact List.mem_append_right _ (List.mem_cons_of_mem _ second)
  · intro ready here
    have batch := safe.batch ready (ending.pc ▸ here)
    refine ⟨batch.nonempty, batch.nodup, fun id member => ?_, batch.apart, ?_⟩
    · have startable := batch.startable id member
      refine ⟨⟨startable.inside, ?_, fun runs => startable.notRunning (fewer runs), ?_,
        fun dep edge => kept dep (startable.deps dep edge)⟩, fun other runs =>
          startable.free other (fewer runs)⟩
      · intro done
        rcases (ending.done id).mp done with old | ⟨rfl, _⟩
        · exact startable.notDone old
        · exact startable.notRunning running
      · intro blocked
        rcases (ending.blocked id).mp blocked with old | ⟨_, rfl | ⟨path, _⟩⟩
        · exact startable.notBlocked old
        · exact startable.notRunning running
        · exact notDone (safe.ancestor_done startable.deps path)
    · have room := batch.room
      have fits := Finset.card_le_card fewer
      omega
  · intro waited here
    rw [ending.live]
    exact safe.waits waited (ending.pc ▸ here)
  · intro which
    have none_ := safe.rest (ending.pc ▸ which)
    rw [none_] at running
    exact absurd running (Finset.notMem_empty _)

theorem step (safe : Safe job s) {event : Event A E} (moved : Step job s event t) : Safe job t := by
  cases event with
  | coordinate => exact safe.turn (coordinate_turn moved)
  | finish key result =>
    obtain ⟨fiber, _, ending⟩ := finish_ended moved
    exact safe.ended ending

theorem reachable {events : List (Event A E)} (path : Path (Step job) {} events s) : Safe job s :=
  path.invariant (Safe job) (fun _ _ _ moved safe => safe.step moved) (Safe.initial job)

end Safe

end Invariant

/-- What no state of a run may break. -/
structure RunStateSafety (job : Job T A) (s : Sched T A E) : Prop where
  doneRunning : Disjoint s.state.done s.state.running
  doneBlocked : Disjoint s.state.done s.state.blocked
  runningBlocked : Disjoint s.state.running s.state.blocked
  leases : ∀ a ∈ s.state.running, ∀ b ∈ s.state.running, a ≠ b →
    Disjoint (job.graph.writeSetOf a).toFinset (job.graph.writeSetOf b).toFinset
  runningDeps : ∀ id ∈ s.state.running, ∀ dep, DependsOn job.graph id dep → dep ∈ s.state.done
  doneDeps : ∀ id ∈ s.state.done, ∀ dep, DependsOn job.graph id dep → dep ∈ s.state.done
  blocked : ∀ id, id ∈ s.state.blocked ↔ ∃ f, s.Failed f ∧ (id = f ∨ Ancestor job.graph f id)
  startedOnce : s.starts.Nodup
  slots : s.state.running.card ≤ job.concurrency
  peak : (report s).peakConcurrency ≤ job.concurrency

/-- Every state that a run can reach is safe, whatever the order of its steps. -/
theorem run_state_safe (job : Job T A) (acyclic : Acyclic job.graph)
    (free : DanglingFree job.graph) :
    ∃ initial : Sched T A E, launch job = .ok initial ∧
      ∀ events s, Path (Step job) initial events s → RunStateSafety job s := by
  refine ⟨{}, launch_ok acyclic free, fun events s path => ?_⟩
  have safe := Safe.reachable path
  exact
    { doneRunning := safe.done_running
      doneBlocked := safe.done_blocked
      runningBlocked := safe.running_blocked
      leases := safe.leases
      runningDeps := fun id running => safe.deps id (safe.of_running running)
      doneDeps := fun _ done _ edge => safe.closed done edge
      blocked := safe.blocked
      startedOnce := List.Nodup.of_append_left safe.fresh
      slots := safe.slots
      peak := safe.peak }

section Sample

/-- Two writers of one resource below a common dependency; one names it twice. -/
def sampleGraph : WorkGraph Nat := .fromNodes
  [⟨"b", 2, ["a"], ["r", "r"]⟩, ⟨"a", 1, [], []⟩, ⟨"c", 3, ["a"], ["r"]⟩, ⟨"d", 4, ["b", "c"], []⟩]

def sampleJob : Job Nat Nat := ⟨sampleGraph, 2, fun _ => true⟩

theorem sample_acyclic : Acyclic sampleGraph :=
  acyclic_of_values (fun id => if id = "a" then 0 else if id = "d" then 2 else 1) (by decide)

theorem sample_danglingFree : DanglingFree sampleGraph := danglingEdges_nil.mp (by decide)

theorem run_state_safe_sample : ∃ initial : Sched Nat Nat String, launch sampleJob = .ok initial ∧
    ∀ events s, Path (Step sampleJob) initial events s → RunStateSafety sampleJob s :=
  run_state_safe sampleJob sample_acyclic sample_danglingFree

end Sample

end Metahumotonic.Agent
