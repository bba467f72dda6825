import Metahumotonic.Agent.SchedulerSafety

/-! What the coordinator waits for. It joins the oldest fiber of its queue, so another
fiber that ends in the meantime may free a slot or unlock a node that nobody starts. -/
namespace Metahumotonic.Agent

open Library WorkGraph

variable {T : Type u} {A : Type v} {E : Type w} {job : Job T A} {s t : Sched T A E}

/-- The coordinator is in a join whose fiber has not ended. -/
def Suspended (s : Sched T A E) : Prop := ∃ key, s.pc = .join (some key) ∧ s.alive key = true

/-- While the coordinator is suspended, only the number of slots keeps a node from starting. -/
def Conserves (job : Job T A) (s : Sched T A E) : Prop :=
  Suspended s → ∀ id, Startable job.graph s.state id → s.state.running.card = job.concurrency

/-- The run state once a running node has ended. -/
def RunState.afterEnd (graph : WorkGraph T) (state : RunState) (id : NodeId) : Except E A → RunState
  | .ok _ =>
    { done := insert id state.done
      running := state.running.erase id
      blocked := state.blocked }
  | .error _ =>
    { done := state.done
      running := state.running.erase id
      blocked := insert id state.blocked ∪ graph.newlyBlocked state id }

/-- The wait begins while nothing can be started, and until the fiber that is waited for
has ended no other fiber ends in a way that makes a node ready. -/
def Undisturbed (job : Job T A) (s : Sched T A E) : Event A E → Prop
  | .coordinate => s.pc = .check → ∀ oldest, s.live.head? = some oldest → s.alive oldest = true →
      (job.graph.readySet s.state).take (job.concurrency - s.state.running.card) = []
  | .finish key result => ∀ awaited, s.pc = .join (some awaited) → s.alive awaited = true →
      awaited ≠ key → ∀ fiber, s.active.find? (·.key == key) = some fiber →
        job.graph.readySet (s.state.afterEnd job.graph fiber.node.id result) = []

section Keys

/-- Fibers are told apart by their keys. -/
structure Keyed (s : Sched T A E) : Prop where
  nodup : (s.active.map (·.key)).Nodup
  bounded : ∀ fiber ∈ s.active, fiber.key < s.starts.length

theorem Keyed.initial : Keyed ({} : Sched T A E) := ⟨List.nodup_nil, nofun⟩

theorem Keyed.step (keyed : Keyed s) {event : Event A E} (moved : Step job s event t) :
    Keyed t := by
  cases event with
  | coordinate =>
    cases coordinate_turn moved with
    | started node todo here _ =>
      refine ⟨?_, fun fiber member => ?_⟩
      · simp only [fork, List.map_append, List.map_cons, List.map_nil]
        refine List.nodup_append.mpr ⟨keyed.nodup, List.nodup_singleton _, ?_⟩
        intro old oldKey new newKey same
        obtain ⟨fiber, member, rfl⟩ := List.mem_map.mp oldKey
        have below := keyed.bounded fiber member
        rw [same, List.mem_singleton.mp newKey] at below
        exact Nat.lt_irrefl _ below
      · simp only [fork, List.length_append, List.length_cons, List.length_nil]
        rcases List.mem_append.mp member with old | new
        · exact (keyed.bounded fiber old).trans (Nat.lt_succ_self _)
        · cases List.mem_singleton.mp new
          exact Nat.lt_succ_self _
    | planned | idle | marked | measured | stopping | waiting | joined | left =>
      exact ⟨keyed.nodup, keyed.bounded⟩
  | finish key result =>
    obtain ⟨fiber, _, ending⟩ := finish_ended moved
    obtain ⟨before, after, split, left⟩ := ending.split
    have fewer : t.active.Sublist s.active := by
      rw [split, left]
      exact (List.Sublist.refl before).append (List.sublist_cons_self fiber after)
    refine ⟨keyed.nodup.sublist (fewer.map _), fun other member => ?_⟩
    rw [ending.starts]
    exact keyed.bounded other (fewer.subset member)

/-- When a fiber has ended, exactly the others are alive. -/
theorem alive_ended (keyed : Keyed s) {fiber : Fiber T A} {result : Except E A}
    (ending : Ended job.graph s fiber result t) (key : Nat) :
    t.alive key = true ↔ s.alive key = true ∧ key ≠ fiber.key := by
  obtain ⟨before, after, split, left⟩ := ending.split
  have distinct := keyed.nodup
  rw [split, List.map_append, List.map_cons, List.nodup_middle, List.nodup_cons, List.mem_append,
    List.mem_map, List.mem_map] at distinct
  simp only [Sched.alive, List.any_eq_true, beq_iff_eq, split, left, List.mem_append, List.mem_cons]
  constructor
  · rintro ⟨other, member, rfl⟩
    refine ⟨⟨other, member.imp_right .inr, rfl⟩, fun same => distinct.1 ?_⟩
    exact member.imp (⟨other, ·, same⟩) (⟨other, ·, same⟩)
  · rintro ⟨⟨other, first | rfl | last, rfl⟩, differs⟩
    · exact ⟨other, .inl first, rfl⟩
    · exact absurd rfl differs
    · exact ⟨other, .inr last, rfl⟩

end Keys

section Steps

theorem finish_state {key : Nat} {result : Except E A} {fiber : Fiber T A}
    (found : s.active.find? (·.key == key) = some fiber)
    (moved : finish job.graph s key result = some t) :
    t.state = s.state.afterEnd job.graph fiber.node.id result := by
  simp only [finish, found] at moved
  cases result with
  | ok value =>
    cases moved
    rfl
  | error error =>
    cases moved
    rfl

/-- The wait is entered with work conserved exactly if the plan of that moment is empty. -/
theorem conserves_coordinate (safe : Safe job s) (moved : Step job s .coordinate t) :
    Conserves job t ↔ Undisturbed job s .coordinate := by
  cases coordinate_turn moved with
  | waiting here some_ =>
    constructor
    · intro conserves _ oldest head alive
      have suspended : Suspended ({ s with pc := .join s.live.head? } : Sched T A E) :=
        ⟨oldest, by rw [head], alive⟩
      by_contra ready
      obtain ⟨id, member⟩ := List.exists_mem_of_ne_nil _ ready
      have full := conserves suspended id (readySet_startable (List.mem_of_mem_take member))
      simp only [full, Nat.sub_self, List.take_zero, not_true_eq_false] at ready
    · rintro undisturbed ⟨key, waits, alive⟩ id startable
      have none_ := undisturbed here key (Pc.join.inj waits) alive
      rcases List.take_eq_nil_iff.mp none_ with full | quiet
      · have slots := safe.slots
        simp only
        omega
      · exact absurd startable (readySet_nil quiet id)
  | stopping here none_ =>
    refine ⟨fun _ _ oldest _ alive => ?_, fun _ suspended => ?_⟩
    · obtain ⟨fiber, active, _⟩ := List.any_eq_true.mp alive
      have running := (safe.running fiber.node.id).mpr (.inl (active_id active))
      exact absurd (none_ ▸ running) (Finset.notMem_empty _)
    · obtain ⟨_, there, _⟩ := suspended
      cases there
  | planned here | idle here | marked _ here | started _ _ here | measured here | joined _ here | left here =>
    refine ⟨fun _ there => absurd (here.symm.trans there) nofun, fun _ suspended => ?_⟩
    obtain ⟨_, there, _⟩ := suspended
    cases there

/-- A fiber that ends keeps work conserved exactly if it is waited for or makes no node ready. -/
theorem conserves_finish (safe : Safe job s) (keyed : Keyed s) {key : Nat} {result : Except E A}
    (moved : Step job s (.finish key result) t) :
    Conserves job t ↔ Undisturbed job s (.finish key result) := by
  obtain ⟨fiber, found, ending⟩ := finish_ended moved
  have state := finish_state found moved
  have named : fiber.key = key := by simpa using List.find?_some found
  have active := List.mem_of_find?_eq_some found
  have running : fiber.node.id ∈ s.state.running := (safe.running _).mpr (.inl (active_id active))
  have free : t.state.running.card < job.concurrency := by
    rw [ending.running]
    exact (Finset.card_erase_lt_of_mem running).trans_le safe.slots
  constructor
  · intro conserves awaited here alive other fiber' found'
    cases found.symm.trans found'
    rw [← state]
    have suspended : Suspended t :=
      ⟨awaited, ending.pc.trans here, (alive_ended keyed ending awaited).mpr ⟨alive, named ▸ other⟩⟩
    by_contra ready
    obtain ⟨id, member⟩ := List.exists_mem_of_ne_nil _ ready
    exact free.ne (conserves suspended id (readySet_startable member))
  · rintro undisturbed ⟨awaited, there, aliveT⟩ id startable
    obtain ⟨alive, other⟩ := (alive_ended keyed ending awaited).mp aliveT
    have quiet := undisturbed awaited (ending.pc.symm.trans there) alive (named ▸ other) fiber found
    exact absurd startable (readySet_nil (state ▸ quiet) id)

end Steps

/-- The states of a run conserve work exactly if no wait of the run is disturbed. -/
theorem work_conserved_iff (job : Job T A) (acyclic : Acyclic job.graph)
    (free : DanglingFree job.graph) :
    ∃ initial : Sched T A E, launch job = .ok initial ∧ Conserves job initial ∧
      ∀ events s, Path (Step job) initial events s →
        (Path (fun s event t => Step job s event t ∧ Conserves job t) initial events s ↔
          Path (fun s event t => Step job s event t ∧ Undisturbed job s event) initial
            events s) := by
  refine ⟨{}, launch_ok acyclic free, ?_, fun events s _ => ?_⟩
  · rintro ⟨_, there, _⟩
    cases there
  · have each : ∀ a (event : Event A E) b, Safe job a ∧ Keyed a → Step job a event b →
        (Conserves job b ↔ Undisturbed job a event) := by
      rintro a event b ⟨safe, keyed⟩ moved
      cases event with
      | coordinate => exact conserves_coordinate safe moved
      | finish key result => exact conserves_finish safe keyed moved
    have kept : ∀ a (event : Event A E) b, Step job a event b → Safe job a ∧ Keyed a →
        Safe job b ∧ Keyed b :=
      fun _ _ _ moved known => ⟨known.1.step moved, known.2.step moved⟩
    constructor
    · intro path
      exact path.mono_of_invariant (fun a => Safe job a ∧ Keyed a)
        (fun a e b step => kept a e b step.1)
        (fun a e b known step => ⟨step.1, (each a e b known step.1).mp step.2⟩)
          ⟨Safe.initial job, .initial⟩
    · intro path
      exact path.mono_of_invariant (fun a => Safe job a ∧ Keyed a)
        (fun a e b step => kept a e b step.1)
        (fun a e b known step => ⟨step.1, (each a e b known step.1).mpr step.2⟩)
          ⟨Safe.initial job, .initial⟩

section Sample

theorem work_conserved_sample : ∃ initial : Sched Nat Nat String, launch sampleJob = .ok initial ∧
    Conserves sampleJob initial ∧ ∀ events s, Path (Step sampleJob) initial events s →
      (Path (fun s event t => Step sampleJob s event t ∧ Conserves sampleJob t) initial events s ↔
        Path (fun s event t => Step sampleJob s event t ∧ Undisturbed sampleJob s event) initial
          events s) :=
  work_conserved_iff sampleJob sample_acyclic sample_danglingFree

/-- Three nodes that could all run, and two slots. -/
def slowGraph : WorkGraph Nat := .fromNodes [⟨"a", 1, [], []⟩, ⟨"b", 2, [], []⟩, ⟨"c", 3, [], []⟩]

def slowJob : Job Nat Nat := ⟨slowGraph, 2, fun _ => true⟩

/-- The second node completes while the first one, which is slow, is waited for. -/
def slowEvents : List (Event Nat String) :=
  [.coordinate, .coordinate, .coordinate, .coordinate, .coordinate, .coordinate, .coordinate,
    .finish 1 (.ok 2)]

theorem slow_run : ∃ s, Path (Step slowJob) {} slowEvents s ∧ s.pc = .join (some 0) ∧
    s.alive 0 = true ∧ slowGraph.readySet s.state = ["c"] ∧ s.state.running.card = 1 := by
  have computed : (follow (advance slowJob) {} slowEvents).map (fun s => (s.pc, s.alive 0,
      slowGraph.readySet s.state, s.state.running.card)) = some (.join (some 0), true,
        ["c"], 1) := by
    decide
  obtain ⟨s, run, seen⟩ := Option.map_eq_some_iff.mp computed
  simp only [Prod.mk.injEq] at seen
  exact ⟨s, path_iff_follow _ |>.mpr run, seen⟩

theorem slow_acyclic : Acyclic slowGraph := acyclic_of_values (fun _ => 0) (by decide)

theorem slow_danglingFree : DanglingFree slowGraph := danglingEdges_nil.mp (by decide)

/-- A slot may be free and a node ready while the coordinator waits for one slow fiber. -/
theorem a_slot_may_idle : Acyclic slowGraph ∧ DanglingFree slowGraph ∧ 1 ≤ slowJob.concurrency ∧
    launch slowJob = .ok ({} : Sched Nat Nat String) ∧
    ¬ ∀ events (s : Sched Nat Nat String), Path (Step slowJob) {} events s →
      Conserves slowJob s := by
  refine ⟨slow_acyclic, slow_danglingFree, by decide, launch_ok slow_acyclic slow_danglingFree,
    fun all => ?_⟩
  obtain ⟨s, path, here, alive, ready, one⟩ := slow_run
  have startable : Startable slowGraph s.state "c" :=
    readySet_startable (ready ▸ List.mem_cons_self)
  have full := all slowEvents s path ⟨0, here, alive⟩ "c" startable
  rw [one] at full
  exact absurd full (by decide)

end Sample

end Metahumotonic.Agent
