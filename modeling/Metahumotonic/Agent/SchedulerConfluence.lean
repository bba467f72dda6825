import Metahumotonic.Agent.SchedulerSettled

/-! What a run reports does not depend on the order in which its fibers end, nor on the
number of them that may run at once. -/
namespace Metahumotonic.Agent

open Library WorkGraph

variable {T : Type u} {A : Type v} {E : Type w} {job : Job T A} {s t : Sched T A E}

/-- The execution of a node depends on the node and on the upstream it is given. -/
def Computed (exec : WorkNode T → Table NodeId A → Except E A) (s : Sched T A E)
    (event : Event A E) : Prop :=
  ∀ key result, event = .finish key result →
    ∀ fiber, s.active.find? (·.key == key) = some fiber → result = exec fiber.node fiber.upstream

section Upstream

/-- The fibers got, and the results came from, the values that the ancestors still have. -/
structure Fed (job : Job T A) (exec : WorkNode T → Table NodeId A → Except E A)
    (s : Sched T A E) : Prop where
  active : ∀ fiber ∈ s.active, fiber.node ∈ job.graph.nodes.values ∧
    fiber.upstream = upstreamOf job s.values fiber.node
  results : ∀ id result, (id, result) ∈ s.results → ∃ node ∈ job.graph.nodes.values, node.id = id ∧
    result = exec node (upstreamOf job s.values node)

variable {exec : WorkNode T → Table NodeId A → Except E A}

theorem Fed.initial (job : Job T A) : Fed job exec ({} : Sched T A E) := ⟨nofun, nofun⟩

theorem Fed.turn (fed : Fed job exec s) (turned : Turn job s t) : Fed job exec t := by
  cases turned with
  | started node todo here stored =>
    refine ⟨fun fiber member => ?_, fed.results⟩
    rcases List.mem_append.mp member with old | new
    · exact fed.active fiber old
    · cases List.mem_singleton.mp new
      exact ⟨stored, rfl⟩
  | planned | idle | marked | measured | stopping | waiting | joined | left =>
    exact ⟨fed.active, fed.results⟩

/-- The end of a fiber leaves the upstream of every started node as it was. -/
theorem upstreamOf_ended (safe : Safe job s) {fiber : Fiber T A} {result : Except E A}
    (active : fiber ∈ s.active) (ending : Ended job.graph s fiber result t) {node : WorkNode T}
    (stored : node ∈ job.graph.nodes.values) (started : node.id ∈ s.starts) :
    upstreamOf job t.values node = upstreamOf job s.values node := by
  refine upstreamOf_congr stored fun id path => Option.ext fun value => ?_
  have done := safe.ancestor_done (safe.deps _ (List.mem_append_left _ started)) path
  have running : fiber.node.id ∈ s.state.running :=
    (safe.running _).mpr (.inl (active_id active))
  have other : id ≠ fiber.node.id := by
    rintro rfl
    exact Finset.disjoint_left.mp safe.done_running done running
  rw [ending.values]
  simp only [other, false_and, false_or, false_implies, and_true]

theorem Fed.ended (fed : Fed job exec s) (safe : Safe job s) {fiber : Fiber T A}
    {result : Except E A}
    (active : fiber ∈ s.active) (computed : result = exec fiber.node fiber.upstream)
    (ending : Ended job.graph s fiber result t) : Fed job exec t := by
  have still : ∀ node ∈ job.graph.nodes.values, node.id ∈ s.starts →
      upstreamOf job t.values node = upstreamOf job s.values node :=
    fun _ stored begun => upstreamOf_ended safe active ending stored begun
  obtain ⟨before, after, split, left⟩ := ending.split
  have started : ∀ other ∈ s.active, other.node.id ∈ s.starts :=
    fun _ member => safe.of_active (active_id member)
  refine ⟨fun other member => ?_, fun id result' member => ?_⟩
  · have old : other ∈ s.active := by
      rw [left] at member
      rw [split]
      rcases List.mem_append.mp member with first | second
      · exact List.mem_append_left _ first
      · exact List.mem_append_right _ (List.mem_cons_of_mem _ second)
    obtain ⟨stored, given⟩ := fed.active other old
    exact ⟨stored, by rw [still _ stored (started other old), given]⟩
  · rw [ending.results] at member
    rcases List.mem_append.mp member with old | new
    · obtain ⟨node, stored, rfl, same⟩ := fed.results id result' old
      exact ⟨node, stored, rfl, by rw [still _ stored (safe.of_result old), same]⟩
    · cases List.mem_singleton.mp new
      obtain ⟨stored, given⟩ := fed.active fiber active
      exact ⟨fiber.node, stored,
        rfl, by rw [still _ stored (started fiber active), computed, given]⟩

theorem Fed.step (fed : Fed job exec s) (safe : Safe job s) {event : Event A E}
    (moved : Step job s event t) (computed : Computed exec s event) : Fed job exec t := by
  cases event with
  | coordinate => exact fed.turn (coordinate_turn moved)
  | finish key result =>
    obtain ⟨fiber, found, ending⟩ := finish_ended moved
    exact fed.ended safe (List.mem_of_find?_eq_some found)
      (computed key result rfl fiber found) ending

end Upstream

section Confluence

variable {exec : WorkNode T → Table NodeId A → Except E A}

/-- A run that is over, timely and computed by a function of node and upstream. -/
structure Complete (job : Job T A) (exec : WorkNode T → Table NodeId A → Except E A)
    (s : Sched T A E) :
    Prop where
  safe : Safe job s
  told : Told job s
  fed : Fed job exec s
  all : ∀ id ∈ job.graph.ids, id ∈ s.state.done ∨ id ∈ s.state.blocked

theorem Complete.of_path (acyclic : Acyclic job.graph) (free : DanglingFree job.graph)
    {events : List (Event A E)}
    (path : Path (fun s event t => Timely job s event t ∧ Computed exec s event) {} events s)
    (ending : s.pc = .finished) : Complete job exec s := by
  have timely : Path (Timely job) {} events s := path.mono fun _ _ _ step => step.1
  have kept := path.invariant (fun m => (Safe job m ∧ Told job m) ∧ Fed job exec m)
    (fun _ _ _ moved kept => ⟨⟨kept.1.1.step moved.1.1, kept.1.2.step kept.1.1 moved.1.1⟩,
      kept.2.step kept.1.1 moved.1.1 moved.2⟩) ⟨⟨Safe.initial job, Told.initial job⟩,
        Fed.initial job⟩
  exact ⟨kept.1.1, kept.1.2, kept.2, all_ended kept.1.1 acyclic free (kept.1.1.rest (.inr ending))
    (timely_rest timely (.inr ending))⟩

variable {concurrency : Nat}

/-- When two runs agree on the ancestors of a node, what the node ended with in one it
ended with in the other. -/
theorem Complete.carried (first : Complete job exec s)
    (second : Complete { job with concurrency := concurrency } exec t) {id : NodeId}
    (same : ∀ a, Ancestor job.graph a id → ∀ result, (a, result) ∈ s.results ↔
      (a, result) ∈ t.results)
    {result : Except E A} (ended : (id, result) ∈ s.results) : (id, result) ∈ t.results := by
  obtain ⟨node, stored, rfl, computed⟩ := first.fed.results id result ended
  have started := List.mem_append_left s.todo (first.safe.of_result ended)
  have upstream : upstreamOf job s.values node = upstreamOf job t.values node := by
    refine upstreamOf_congr stored fun a path => Option.ext fun value => ?_
    rw [first.told.values, second.told.values]
    exact same a path (.ok value)
  have equal : ∀ other, (node.id, other) ∈ t.results → other = result := by
    intro other member
    obtain ⟨inner, there, named, value⟩ := second.fed.results node.id other member
    have one : inner = node := by
      have found := mem_values.mp there
      rw [named, mem_values.mp stored] at found
      exact (Option.some.inj found).symm
    subst one
    rw [value, computed, upstream]
    rfl
  have healthy : ∀ f, Ancestor job.graph f node.id → ¬ t.Failed f := by
    rintro f path ⟨error, failed⟩
    have done := first.safe.ancestor_done (first.safe.deps _ started) path
    exact first.safe.done_not_failed done ⟨error, (same f path _).mpr failed⟩
  rcases second.all node.id (first.safe.inside _ started) with done | blocked
  · obtain ⟨value, member⟩ := (second.safe.done node.id).mp done
    exact equal _ member ▸ member
  · obtain ⟨f, failed, rfl | path⟩ := (second.safe.blocked node.id).mp blocked
    · obtain ⟨error, member⟩ := failed
      exact equal _ member ▸ member
    · exact absurd failed (healthy f path)

/-- Two complete runs ended every node alike. -/
theorem Complete.same_results (acyclic : Acyclic job.graph) (free : DanglingFree job.graph)
    (first : Complete job exec s) (second : Complete { job with concurrency := concurrency } exec t)
    (id : NodeId) : ∀ result, (id, result) ∈ s.results ↔ (id, result) ∈ t.results := by
  have upTo := acyclic.induction
    (P := fun id => ∀ a, a = id ∨ Ancestor job.graph a id →
      ∀ result, (a, result) ∈ s.results ↔ (a, result) ∈ t.results) ?_ id
  · exact upTo id (.inl rfl)
  · intro id deps
    have above : ∀ a, Ancestor job.graph a id →
        ∀ result, (a, result) ∈ s.results ↔ (a, result) ∈ t.results := by
      intro a path
      obtain ⟨dep, edge, rest⟩ := Relation.TransGen.head'_iff.mp path
      refine deps dep edge (free id dep edge) a ?_
      exact (Relation.reflTransGen_iff_eq_or_transGen.mp rest)
    rintro a (rfl | path)
    · intro result
      exact ⟨first.carried second above,
        second.carried first fun a path result => (above a path result).symm⟩
    · exact above a path

/-- Two reports tell the same of every node, but for which failure blocked it. -/
structure SameFates (first second : RunReport A E) : Prop where
  completed : ∀ id, id ∈ first.completed ↔ id ∈ second.completed
  failed : ∀ id, id ∈ first.failed ↔ id ∈ second.failed
  blocked : ∀ id, id ∈ first.blocked ↔ id ∈ second.blocked
  values : ∀ id value, first.outcomes.get? id = some (.completed value) ↔
    second.outcomes.get? id = some (.completed value)

theorem Complete.same_fates (acyclic : Acyclic job.graph) (free : DanglingFree job.graph)
    (first : Complete job exec s)
    (second : Complete { job with concurrency := concurrency } exec t) :
    SameFates (report s) (report t) := by
  have same := first.same_results acyclic free second
  have failed : ∀ id, id ∈ (report s).failed ↔ id ∈ (report t).failed := by
    intro id
    rw [first.told.mem_failed, second.told.mem_failed]
    exact exists_congr fun error => same id _
  refine ⟨fun id => ?_, failed, fun id => ?_, fun id value => ?_⟩
  · rw [first.told.mem_completed, second.told.mem_completed]
    exact exists_congr fun value => same id _
  · rw [(settled_of_all first.safe first.told first.all).blocked,
      (settled_of_all second.safe second.told second.all).blocked]
    exact exists_congr fun f => and_congr_left fun _ => failed f
  · exact (first.told.ended id (.ok value)).trans
      ((same id _).trans (second.told.ended id (.ok value)).symm)

end Confluence

/-- A run is bounded and never stuck. Once over, every node has its outcome exactly if
the run was timely, and the order of completions and the concurrency do not matter. -/
theorem scheduler_outcomes (job : Job T A) (acyclic : Acyclic job.graph)
    (free : DanglingFree job.graph) :
    ∃ initial : Sched T A E, launch job = .ok initial ∧
      (∀ events s, Path (Step job) initial events s →
        events.length ≤ 10 * job.graph.ids.length + 3 ∧
        (s.pc = .finished ∨ (∃ t, Step job s .coordinate t) ∨
          ∃ fiber ∈ s.active, ∀ result, ∃ t, Step job s (.finish fiber.key result) t) ∧
        (s.pc = .finished → (Settled job s ↔ Path (Timely job) initial events s))) ∧
      ∀ (concurrency : Nat) (exec : WorkNode T → Table NodeId A → Except E A) events s others t,
        Path (fun s event t => Timely job s event t ∧ Computed exec s event) initial events s →
        Path (fun s event t => Timely { job with concurrency := concurrency } s event t ∧
          Computed exec s event) initial others t →
        s.pc = .finished → t.pc = .finished → SameFates (report s) (report t) := by
  refine ⟨{}, launch_ok acyclic free, fun events s path => ?_, ?_⟩
  · exact ⟨run_bounded path, step_possible (Safe.reachable path),
      settled_iff_timely acyclic free path⟩
  · intro concurrency exec events s others t first second overS overT
    have one := Complete.of_path acyclic free first overS
    have two : Complete { job with concurrency := concurrency } exec t :=
      Complete.of_path acyclic free second overT
    exact one.same_fates acyclic free two

section Sample

theorem scheduler_outcomes_sample : ∃ initial : Sched Nat Nat String,
    launch sampleJob = .ok initial ∧
    (∀ events s, Path (Step sampleJob) initial events s →
      events.length ≤ 10 * sampleGraph.ids.length + 3 ∧
      (s.pc = .finished ∨ (∃ t, Step sampleJob s .coordinate t) ∨
        ∃ fiber ∈ s.active, ∀ result, ∃ t, Step sampleJob s (.finish fiber.key result) t) ∧
      (s.pc = .finished → (Settled sampleJob s ↔ Path (Timely sampleJob) initial events s))) ∧
    ∀ (concurrency : Nat) (exec : WorkNode Nat → Table NodeId Nat → Except String Nat)
      events s others t,
      Path (fun s event t => Timely sampleJob s event t ∧ Computed exec s event) initial events s →
      Path (fun s event t => Timely { sampleJob with concurrency := concurrency } s event t ∧
        Computed exec s event) initial others t →
      s.pc = .finished → t.pc = .finished → SameFates (report s) (report t) :=
  scheduler_outcomes sampleJob sample_acyclic sample_danglingFree

/-- A node and one that waits for it. -/
def raceGraph : WorkGraph Nat := .fromNodes [⟨"a", 1, [], []⟩, ⟨"b", 2, ["a"], []⟩]

def raceJob : Job Nat Nat := ⟨raceGraph, 1, fun _ => true⟩

/-- The first node completes between the two reads of the state. -/
def raceEvents : List (Event Nat String) :=
  [.coordinate, .coordinate, .coordinate, .coordinate, .coordinate, .finish 0 (.ok 1), .coordinate,
    .coordinate]

theorem race_acyclic : Acyclic raceGraph :=
  acyclic_of_values (fun id => if id = "a" then 0 else 1) (by decide)

theorem race_danglingFree : DanglingFree raceGraph := danglingEdges_nil.mp (by decide)

theorem race_run : ∃ s, Path (Step raceJob) {} raceEvents s ∧ s.pc = .finished ∧
    s.outcomes.get? "b" = none := by
  have computed : (follow (advance raceJob) {} raceEvents).map
      (fun s => (s.pc, s.outcomes.get? "b")) = some (.finished, none) := by decide
  obtain ⟨s, run, seen⟩ := Option.map_eq_some_iff.mp computed
  exact ⟨s, path_iff_follow _ |>.mpr run, congrArg Prod.fst seen, congrArg Prod.snd seen⟩

/-- A run that is over may have left a node without an outcome. -/
theorem outcome_may_be_missing : Acyclic raceGraph ∧ DanglingFree raceGraph ∧
    1 ≤ raceJob.concurrency ∧
    launch raceJob = .ok ({} : Sched Nat Nat String) ∧
    ¬ ∀ events (s : Sched Nat Nat String), Path (Step raceJob) {} events s → s.pc = .finished →
      Settled raceJob s := by
  refine ⟨race_acyclic, race_danglingFree, Nat.le_refl 1, launch_ok race_acyclic race_danglingFree,
    fun all => ?_⟩
  obtain ⟨s, path, ending, missing⟩ := race_run
  obtain ⟨outcome, found⟩ := ((all raceEvents s path ending).every "b").mpr (by decide)
  rw [report, missing] at found
  cases found

end Sample

end Metahumotonic.Agent
