import Metahumotonic.Agent.SchedulerOutcome

/-! What a node is given when it starts: the values of its proper ancestors, each the one
with which the ancestor completed, and nothing else. -/
namespace Metahumotonic.Agent

open Library WorkGraph

variable {T : Type u} {A : Type v} {E : Type w} {job : Job T A} {s t : Sched T A E}

section Walk

variable {values : Table NodeId A}

/-- The search for ancestors, between two turns: what is on the stack and what was found are
ancestors, and the dependencies of both the node and what was found are found or pending. -/
structure Collecting (job : Job T A) (values : Table NodeId A) (node : WorkNode T)
    (stack : List NodeId)
    (seen : Table NodeId A) : Prop where
  pending : ∀ id ∈ stack, Ancestor job.graph id node.id
  found : ∀ id value, seen.get? id = some value → Ancestor job.graph id node.id ∧
    values.get? id = some value
  direct : ∀ dep, DependsOn job.graph node.id dep → dep ∈ stack ∨
    ∃ value, seen.get? dep = some value
  closed : ∀ id value, seen.get? id = some value → ∀ dep, DependsOn job.graph id dep →
    dep ∈ stack ∨ ∃ value, seen.get? dep = some value

theorem mem_collect {seen : Table NodeId A} {id dep : NodeId} (new : seen.get? id = none) :
    dep ∈ (collect job values seen id).2 ↔ DependsOn job.graph id dep := by
  unfold collect DependsOn
  rw [new]
  cases job.graph.nodes.get? id <;> simp

theorem collect_known {seen : Table NodeId A} {id : NodeId} {value : A}
    (known : seen.get? id = some value) :
    collect job values seen id = (seen, []) := by
  simp [collect, known]

theorem collect_value {seen : Table NodeId A} {id : NodeId} {value : A} (new : seen.get? id = none)
    (held : values.get? id = some value) (defined : job.defined value = true) :
    (collect job values seen id).1 = seen.set id value := by
  simp [collect, new, held, defined]

theorem Collecting.turn {node : WorkNode T} {stack : List NodeId} {seen : Table NodeId A}
    {id : NodeId}
    (all : ∀ id, Ancestor job.graph id node.id → ∃ value, values.get? id = some value ∧
      job.defined value = true)
    (before : Collecting job values node (id :: stack) seen) :
    Collecting job values node ((collect job values seen id).2.reverse ++ stack)
      (collect job values seen id).1 := by
  have here := before.pending id List.mem_cons_self
  cases known : seen.get? id with
  | some value =>
    have still : ∀ dep, dep ∈ id :: stack ∨ (∃ value, seen.get? dep = some value) →
        dep ∈ stack ∨ ∃ value, seen.get? dep = some value := by
      rintro dep (waiting | found)
      · rcases List.mem_cons.mp waiting with rfl | later
        · exact .inr ⟨value, known⟩
        · exact .inl later
      · exact .inr found
    rw [collect_known known]
    exact ⟨fun dep member => before.pending dep (List.mem_cons_of_mem _ member), before.found,
      fun dep edge => still dep (before.direct dep edge),
      fun other held found dep edge => still dep (before.closed other held found dep edge)⟩
  | none =>
    obtain ⟨value, held, defined⟩ := all id here
    have pushed : ∀ dep, dep ∈ (collect job values seen id).2.reverse ++ stack ↔
        DependsOn job.graph id dep ∨ dep ∈ stack := by
      intro dep
      rw [List.mem_append, List.mem_reverse, mem_collect known]
    have still : ∀ dep, dep ∈ id :: stack ∨ (∃ value, seen.get? dep = some value) →
        dep ∈ (collect job values seen id).2.reverse ++ stack ∨
          ∃ value, (collect job values seen id).1.get? dep = some value := by
      rw [collect_value known held defined]
      rintro dep (waiting | ⟨other, found⟩)
      · rcases List.mem_cons.mp waiting with rfl | later
        · exact .inr ⟨value, Table.get?_set_self _ _ _⟩
        · exact .inl ((pushed dep).mpr (.inr later))
      · refine .inr ⟨if dep = id then value else other, ?_⟩
        rw [Table.get?_set]
        split <;> simp [found]
    refine ⟨fun dep member => ?_, fun other old found => ?_, fun dep edge =>
      still dep (before.direct dep edge),
      fun other old found dep edge => ?_⟩
    · rcases (pushed dep).mp member with edge | later
      · exact Relation.TransGen.tail here edge
      · exact before.pending dep (List.mem_cons_of_mem _ later)
    · rw [collect_value known held defined, Table.get?_set] at found
      split at found
      · rename_i same
        cases found
        exact same ▸ ⟨here, held⟩
      · exact before.found other old found
    · rw [collect_value known held defined, Table.get?_set] at found
      split at found
      · rename_i same
        exact .inl ((pushed dep).mpr (.inl (same ▸ edge)))
      · exact still dep (before.closed other old found dep edge)

theorem Collecting.initial {node : WorkNode T} (stored : node ∈ job.graph.nodes.values) :
    Collecting job values node node.dependsOn.reverse .empty where
  pending id member := .single ((dependsOn_value stored id).mpr (List.mem_reverse.mp member))
  found id value found := by cases found
  direct dep edge := .inl (List.mem_reverse.mpr ((dependsOn_value stored dep).mp edge))
  closed id value found := by cases found

theorem breadth_le {id : NodeId} {node : WorkNode T} (found : job.graph.nodes.get? id = some node) :
    node.dependsOn.length ≤ job.graph.breadth := by
  have member : node ∈ job.graph.nodes.values := (Table.mem_values _ _).mpr ⟨id, found⟩
  unfold WorkGraph.breadth
  generalize job.graph.nodes.values = nodes at member
  induction nodes with
  | nil => cases member
  | cons head rest ih =>
    rcases List.mem_cons.mp member with rfl | later
    · exact le_max_left _ _
    · exact (ih later).trans (le_max_right _ _)

theorem collect_short (seen : Table NodeId A) (id : NodeId) :
    (collect job values seen id).2.length ≤ job.graph.breadth := by
  unfold collect
  split
  · exact Nat.zero_le _
  · cases found : job.graph.nodes.get? id with
    | none => exact Nat.zero_le _
    | some node => exact breadth_le found

/-- The search ends on every acyclic graph without dangling dependencies, whatever values there are.
-/
theorem upstreamOf_ends (acyclic : Acyclic job.graph) (free : DanglingFree job.graph)
    (values : Table NodeId A)
    {node : WorkNode T} (stored : node ∈ job.graph.nodes.values) :
    WorkEnds (collect job values) node.dependsOn.reverse .empty (upstreamOf job values node) := by
  obtain ⟨rank, bounded, lower⟩ := acyclic.rank
  let weight := fun ids : List NodeId => (ids.map fun id => (job.graph.breadth + 1) ^ rank id).sum
  refine work_ends (fun _ _ => True) (fun stack _ => weight stack) (fun _ _ _ _ => trivial) ?_ _ _
    _ trivial ?_
  · intro id stack seen _
    have split : ∀ ids : List NodeId, weight (ids.reverse ++ stack) = weight ids +
        weight stack := by
      intro ids
      simp [weight]
    have pushed : weight (collect job values seen id).2 < (job.graph.breadth + 1) ^ rank id :=
      weights_lt (collect_short seen id) ?_
    · rw [split]
      simpa [weight] using pushed
    · intro dep member
      cases known : seen.get? id with
      | some value =>
        rw [collect_known known] at member
        cases member
      | none =>
        have edge := (mem_collect known).mp member
        exact lower id dep edge (free id dep edge)
  · have short : node.dependsOn.reverse.length ≤ job.graph.breadth := by
      rw [List.length_reverse]
      exact breadth_le (mem_values.mp stored)
    exact (weights_lt short fun id _ => Nat.lt_succ_of_le (bounded id)).le

/-- Where every ancestor has its value, the search finds the ancestors with their values. -/
theorem upstreamOf_exact (acyclic : Acyclic job.graph) (free : DanglingFree job.graph)
    {node : WorkNode T}
    (stored : node ∈ job.graph.nodes.values)
    (all : ∀ id, Ancestor job.graph id node.id → ∃ value, values.get? id = some value ∧
      job.defined value = true)
    (id : NodeId) (value : A) :
    (upstreamOf job values node).get? id = some value ↔
      Ancestor job.graph id node.id ∧ values.get? id = some value := by
  have final := (upstreamOf_ends acyclic free values stored).invariant
    (I := Collecting job values node)
    (fun _ _ _ before => before.turn all) (Collecting.initial stored)
  have reached : ∀ id, Ancestor job.graph id node.id →
      ∃ other, (upstreamOf job values node).get? id = some other := by
    intro id path
    induction path with
    | single edge => exact (final.direct _ edge).resolve_left List.not_mem_nil
    | tail _ edge ih =>
      obtain ⟨other, found⟩ := ih
      exact (final.closed _ other found _ edge).resolve_left List.not_mem_nil
  refine ⟨final.found id value, fun ⟨path, held⟩ => ?_⟩
  obtain ⟨other, found⟩ := reached id path
  have same := (final.found id other found).2
  rw [held] at same
  cases same
  exact found

end Walk

section Run

/-- No execution ends with the value `undefined`. -/
def DefinedValue (job : Job T A) (event : Event A E) : Prop :=
  ∀ key value, event = .finish key (.ok value) → job.defined value = true

/-- What the running fibers were given, and the values that there are to give. -/
structure Given (job : Job T A) (s : Sched T A E) : Prop where
  active : ∀ fiber ∈ s.active, ∀ id value, fiber.upstream.get? id = some value ↔
    Ancestor job.graph id fiber.node.id ∧ (id, .ok value) ∈ s.results
  defined : ∀ id value, (id, .ok value) ∈ s.results → job.defined value = true

theorem Given.turn (acyclic : Acyclic job.graph) (free : DanglingFree job.graph)
    (given : Given job s)
    (safe : Safe job s) (told : Told job s) (turned : Turn job s t) : Given job t := by
  cases turned with
  | started node todo here stored =>
    refine ⟨fun fiber member id value => ?_, given.defined⟩
    rcases List.mem_append.mp member with old | new
    · exact given.active fiber old id value
    · cases List.mem_singleton.mp new
      have begun : node.id ∈ s.begun := by
        rw [Sched.begun, Sched.todo, here]
        exact List.mem_append_right _ List.mem_cons_self
      have all : ∀ id, Ancestor job.graph id node.id →
          ∃ value, s.values.get? id = some value ∧ job.defined value = true := by
        intro id path
        obtain ⟨value, ended⟩ :=
          (safe.done id).mp (safe.ancestor_done (safe.deps node.id begun) path)
        exact ⟨value, (told.values id value).mpr ended, given.defined id value ended⟩
      exact (upstreamOf_exact acyclic free stored all id value).trans
        (and_congr_right' (told.values id value))
  | planned | idle | marked | measured | stopping | waiting | joined | left =>
    exact ⟨given.active, given.defined⟩

/-- A fiber that ends is an ancestor of no running one, so nobody's upstream was short of it. -/
theorem Given.ended (given : Given job s) (safe : Safe job s) {fiber : Fiber T A}
    {result : Except E A}
    (active : fiber ∈ s.active) (defined : ∀ value, result = .ok value → job.defined value = true)
    (ending : Ended job.graph s fiber result t) : Given job t := by
  obtain ⟨before, after, split, left⟩ := ending.split
  have running : fiber.node.id ∈ s.state.running := (safe.running _).mpr (.inl (active_id active))
  refine ⟨fun other member id value => ?_, fun id value member => ?_⟩
  · have old : other ∈ s.active := by
      rw [left] at member
      rw [split]
      rcases List.mem_append.mp member with first | second
      · exact List.mem_append_left _ first
      · exact List.mem_append_right _ (List.mem_cons_of_mem _ second)
    rw [given.active other old id value, ending.results, List.mem_append, List.mem_singleton]
    refine and_congr_right fun path => ⟨.inl, fun now => now.resolve_right fun new => ?_⟩
    have begun := List.mem_append_left s.todo (safe.of_active (active_id old))
    have done := safe.ancestor_done (safe.deps other.node.id begun) path
    rw [(Prod.mk.inj new).1] at done
    exact Finset.disjoint_left.mp safe.done_running done running
  · rw [ending.results, List.mem_append, List.mem_singleton] at member
    rcases member with old | new
    · exact given.defined id value old
    · exact defined value (Prod.mk.inj new).2.symm

theorem Given.step (acyclic : Acyclic job.graph) (free : DanglingFree job.graph)
    (given : Given job s)
    (safe : Safe job s) (told : Told job s) {event : Event A E} (moved : Step job s event t)
    (defined : DefinedValue job event) : Given job t := by
  cases event with
  | coordinate => exact given.turn acyclic free safe told (coordinate_turn moved)
  | finish key result =>
    obtain ⟨fiber, found, ending⟩ := finish_ended moved
    exact given.ended safe (List.mem_of_find?_eq_some found)
      (fun value same => defined key value (by rw [same])) ending

theorem Given.reachable (acyclic : Acyclic job.graph) (free : DanglingFree job.graph)
    {events : List (Event A E)}
    (path : Path (fun s event t => Step job s event t ∧ DefinedValue job event) {} events s) :
    Safe job s ∧ Told job s ∧ Given job s := by
  refine path.invariant (fun s => Safe job s ∧ Told job s ∧ Given job s) ?_
    ⟨Safe.initial job, Told.initial job, nofun, nofun⟩
  rintro s event t ⟨moved, defined⟩ ⟨safe, told, given⟩
  exact ⟨safe.step moved, told.step safe moved, given.step acyclic free safe told moved defined⟩

/-- The step that starts a node leaves its fiber behind, with what it was given. -/
theorem started_active {event : Event A E} (moved : Step job s event t) {id : NodeId}
    (now : id ∈ t.starts)
    (new : id ∉ s.starts) : ∃ fiber ∈ t.active, fiber.node.id = id := by
  cases event with
  | coordinate =>
    cases coordinate_turn moved with
    | started node todo here stored =>
      rcases List.mem_append.mp now with old | started
      · exact absurd old new
      · cases List.mem_singleton.mp started
        exact ⟨_, List.mem_append_right _ (List.mem_singleton_self _), rfl⟩
    | planned | idle | marked | measured | stopping | waiting | joined | left =>
      exact absurd now new
  | finish key result =>
    obtain ⟨fiber, _, ending⟩ := finish_ended moved
    rw [ending.starts] at now
    exact absurd now new

end Run

/-- Whatever the order of completions and failures, a started node is given its proper
ancestors, each with the value of its outcome, by a search that ends. -/
theorem upstream_exact (job : Job T A) (acyclic : Acyclic job.graph)
    (free : DanglingFree job.graph) :
    (∀ (values : Table NodeId A), ∀ node ∈ job.graph.nodes.values,
      WorkEnds (collect job values) node.dependsOn.reverse .empty (upstreamOf job values node)) ∧
    ∃ initial : Sched T A E, launch job = .ok initial ∧
      ∀ events s, Path (fun s event t => Step job s event t ∧ DefinedValue job event)
        initial events s →
        (∀ fiber ∈ s.active,
          (∀ id, id ∈ fiber.upstream.keys ↔ Ancestor job.graph id fiber.node.id) ∧
          ∀ id value, fiber.upstream.get? id = some value →
            s.outcomes.get? id = some (.completed value)) ∧
        ∀ event t, Step job s event t → ∀ id ∈ t.starts, id ∉ s.starts → ∃ fiber ∈ t.active,
          fiber.node.id = id := by
  refine ⟨fun values node stored => upstreamOf_ends acyclic free values stored, {},
    launch_ok acyclic free, ?_⟩
  intro events s path
  obtain ⟨safe, told, given⟩ := Given.reachable acyclic free path
  refine ⟨fun fiber active => ⟨fun id => ?_, fun id value found => ?_⟩,
    fun event t moved id now new =>
    started_active moved now new⟩
  · rw [Table.mem_keys]
    constructor
    · rintro ⟨value, found⟩
      exact ((given.active fiber active id value).mp found).1
    · intro path
      have begun := List.mem_append_left s.todo (safe.of_active (active_id active))
      obtain ⟨value, ended⟩ := (safe.done id).mp (safe.ancestor_done (safe.deps _ begun) path)
      exact ⟨value, (given.active fiber active id value).mpr ⟨path, ended⟩⟩
  · exact (told.ended id (.ok value)).mpr ((given.active fiber active id value).mp found).2

section Sample

theorem upstream_exact_sample : (∀ (values : Table NodeId Nat), ∀ node ∈ sampleGraph.nodes.values,
      WorkEnds (collect sampleJob values) node.dependsOn.reverse .empty
        (upstreamOf sampleJob values node)) ∧
    ∃ initial : Sched Nat Nat String, launch sampleJob = .ok initial ∧
      ∀ events s, Path (fun s event t => Step sampleJob s event t ∧ DefinedValue sampleJob event)
        initial events s →
        (∀ fiber ∈ s.active,
          (∀ id, id ∈ fiber.upstream.keys ↔ Ancestor sampleGraph id fiber.node.id) ∧
          ∀ id value, fiber.upstream.get? id = some value →
            s.outcomes.get? id = some (.completed value)) ∧
        ∀ event t, Step sampleJob s event t → ∀ id ∈ t.starts, id ∉ s.starts →
          ∃ fiber ∈ t.active, fiber.node.id = id :=
  upstream_exact sampleJob sample_acyclic sample_danglingFree

end Sample

end Metahumotonic.Agent
