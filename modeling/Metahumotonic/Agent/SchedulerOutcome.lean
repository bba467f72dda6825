import Metahumotonic.Agent.SchedulerSafety

/-! What a run reports: when it ends, and the outcome of every node. -/
namespace Metahumotonic.Agent

open Library WorkGraph

variable {T : Type u} {A : Type v} {E : Type w} {job : Job T A} {s t : Sched T A E}

section Told

/-- A step of the coordinator ends nothing and reports nothing. -/
theorem turn_frame (turned : Turn job s t) :
    t.outcomes = s.outcomes ∧ t.values = s.values ∧ t.results = s.results ∧
      t.state.done = s.state.done ∧ t.state.blocked = s.state.blocked := by
  cases turned <;> exact ⟨rfl, rfl, rfl, rfl, rfl⟩

/-- The outcomes and the values say what became of the nodes. -/
structure Told (job : Job T A) (s : Sched T A E) : Prop where
  values : ∀ id value, s.values.get? id = some value ↔ (id, .ok value) ∈ s.results
  ended : ∀ id result, s.outcomes.get? id = some (.ofResult result) ↔ (id, result) ∈ s.results
  blockedBy : ∀ id f, s.outcomes.get? id = some (.blocked f) → s.Failed f ∧ Ancestor job.graph f id
  told : ∀ id, (∃ outcome, s.outcomes.get? id = some outcome) ↔ id ∈ s.state.done ∨
    id ∈ s.state.blocked

theorem ofResult_injective {a b : Except E A} (same : Outcome.ofResult a = Outcome.ofResult b) :
    a = b := by
  cases a with
  | ok value =>
    cases b with
    | ok other => exact congrArg Except.ok (Outcome.completed.inj same)
    | error _ => cases same
  | error error =>
    cases b with
    | ok _ => cases same
    | error other => exact congrArg Except.error (Outcome.failed.inj same)

theorem ofResult_ne_blocked (result : Except E A) (f : NodeId) :
    Outcome.ofResult result ≠ .blocked f := by
  cases result <;> nofun

namespace Told

theorem initial (job : Job T A) : Told job ({} : Sched T A E) where
  values id value := by simp
  ended id result := by simp
  blockedBy id f found := by cases found
  told id := by simp [initialRunState]

theorem turn (told : Told job s) (turned : Turn job s t) : Told job t := by
  obtain ⟨outcomes, values, results, done, blocked⟩ := turn_frame turned
  refine ⟨?_, ?_, ?_, ?_⟩
  · rw [values, results]
    exact told.values
  · rw [outcomes, results]
    exact told.ended
  · unfold Sched.Failed
    rw [outcomes, results]
    exact told.blockedBy
  · rw [outcomes, done, blocked]
    exact told.told

theorem ended_ (told : Told job s) (safe : Safe job s) {fiber : Fiber T A} {result : Except E A}
    (active : fiber.node.id ∈ s.active.map (·.node.id))
    (ending : Ended job.graph s fiber result t) :
    Told job t := by
  have running : fiber.node.id ∈ s.state.running := (safe.running _).mpr (.inl active)
  have never : ∀ other, (fiber.node.id, other) ∉ s.results :=
    fun other ended => safe.not_ended running ended
  have failed : ∀ f, s.Failed f → t.Failed f := by
    rintro f ⟨error, member⟩
    exact ⟨error, ending.results ▸ List.mem_append_left _ member⟩
  refine ⟨fun id value => ?_, fun id other => ?_, fun id f found => ?_, fun id => ?_⟩
  · rw [ending.values, ending.results, List.mem_append, List.mem_singleton, Prod.mk.injEq]
    constructor
    · rintro (⟨same, ok⟩ | ⟨found, _⟩)
      · exact .inr ⟨same, ok.symm⟩
      · exact .inl ((told.values id value).mp found)
    · rintro (old | ⟨same, ok⟩)
      · exact .inr ⟨(told.values id value).mpr old, fun same => absurd old (same ▸ never _)⟩
      · exact .inl ⟨same, ok.symm⟩
  · rw [ending.outcomes, ending.results, List.mem_append, List.mem_singleton, Prod.mk.injEq]
    constructor
    · rintro (⟨same, ok⟩ | ⟨_, found | ⟨_, blocked, _⟩⟩)
      · exact .inr ⟨same, ofResult_injective ok⟩
      · exact .inl ((told.ended id other).mp found)
      · exact absurd blocked (ofResult_ne_blocked other _)
    · rintro (old | ⟨same, rfl⟩)
      · exact .inr ⟨fun same => never other (same ▸ old), .inl ((told.ended id other).mpr old)⟩
      · exact .inl ⟨same, rfl⟩
  · rcases (ending.outcomes id _).mp found with
      ⟨_, same⟩ | ⟨_, old | ⟨_, same, ⟨error, rfl⟩, path, _⟩⟩
    · exact absurd same.symm (ofResult_ne_blocked result f)
    · obtain ⟨fails, path⟩ := told.blockedBy id f old
      exact ⟨failed f fails, path⟩
    · cases same
      exact ⟨⟨error, ending.results ▸ List.mem_append_right _ List.mem_cons_self⟩, path⟩
  · rw [ending.done, ending.blocked]
    simp only [ending.outcomes]
    have before := told.told id
    constructor
    · rintro ⟨outcome, ⟨same, _⟩ | ⟨_, found | ⟨_, _, error, path, notDone, _⟩⟩⟩
      · cases result with
        | ok value => exact .inl (.inr ⟨same, value, rfl⟩)
        | error error => exact .inr (.inr ⟨⟨error, rfl⟩, .inl same⟩)
      · exact (before.mp ⟨outcome, found⟩).imp .inl .inl
      · exact .inr (.inr ⟨error, .inr ⟨path, notDone⟩⟩)
    · intro which
      by_cases same : id = fiber.node.id
      · exact ⟨_, .inl ⟨same, rfl⟩⟩
      · cases found : s.outcomes.get? id with
        | some outcome => exact ⟨outcome, .inr ⟨same, .inl rfl⟩⟩
        | none =>
          have open_ : ¬ (id ∈ s.state.done ∨ id ∈ s.state.blocked) := by
            rw [← before, found]
            simp
          obtain ⟨notDone, notBlocked⟩ := not_or.mp open_
          rcases which with (old | ⟨here, _⟩) | (old | ⟨error, here | ⟨path, _⟩⟩)
          · exact absurd old notDone
          · exact absurd here same
          · exact absurd old notBlocked
          · exact absurd here same
          · exact ⟨_, .inr ⟨same, .inr ⟨rfl, rfl, error, path, notDone, notBlocked⟩⟩⟩

theorem step (told : Told job s) (safe : Safe job s) {event : Event A E}
    (moved : Step job s event t) :
    Told job t := by
  cases event with
  | coordinate => exact told.turn (coordinate_turn moved)
  | finish key result =>
    obtain ⟨fiber, found, ending⟩ := finish_ended moved
    exact told.ended_ safe (active_id (List.mem_of_find?_eq_some found)) ending

/-- Only nodes of the graph have outcomes. -/
theorem inside (told : Told job s) (safe : Safe job s) {id : NodeId} {outcome : Outcome A E}
    (found : s.outcomes.get? id = some outcome) : id ∈ job.graph.ids := by
  rcases (told.told id).mp ⟨outcome, found⟩ with done | blocked
  · exact safe.inside id (List.mem_append_left _ (safe.of_done done))
  · obtain ⟨f, ⟨error, failed⟩, rfl | path⟩ := (safe.blocked id).mp blocked
    · exact safe.inside id (List.mem_append_left _ (safe.of_result failed))
    · obtain ⟨_, edge, _⟩ := Relation.TransGen.head'_iff.mp path
      exact dependsOn_ids edge

theorem reachable {events : List (Event A E)} (path : Path (Step job) {} events s) :
    Safe job s ∧ Told job s :=
  path.invariant (fun s => Safe job s ∧ Told job s)
    (fun _ _ _ moved kept => ⟨kept.1.step moved, kept.2.step kept.1 moved⟩)
    ⟨Safe.initial job, Told.initial job⟩

end Told

end Told

section Progress

def Pc.weight : Pc → Nat
  | .plan => 3
  | .mark _ => 2
  | .start [] => 4
  | .start (_ :: _) => 1
  | .check => 2
  | .join _ => 1
  | .joinAll => 1
  | .finished => 0

/-- How many steps are left at most. -/
def Sched.remaining (job : Job T A) (s : Sched T A E) : Nat :=
  10 * (job.graph.ids.length - s.starts.length) + 5 * s.live.length + s.active.length + s.pc.weight

/-- Every step lowers the number of steps that are left. -/
theorem step_remaining (safe : Safe job s) {event : Event A E} (moved : Step job s event t) :
    t.remaining job < s.remaining job := by
  cases event with
  | finish key result =>
    obtain ⟨fiber, _, ending⟩ := finish_ended moved
    obtain ⟨before, after, split, left⟩ := ending.split
    simp only [Sched.remaining, ending.starts, ending.live, ending.pc, split, left,
      List.length_append,
      List.length_cons]
    omega
  | coordinate =>
    cases coordinate_turn moved with
    | planned here _ =>
      simp only [Sched.remaining, here, Pc.weight]
      omega
    | idle here _ =>
      simp only [Sched.remaining, here, Pc.weight]
      omega
    | marked ready here =>
      obtain ⟨first, rest, some_⟩ := List.exists_cons_of_ne_nil (safe.batch ready here).nonempty
      simp only [Sched.remaining, here, some_, Pc.weight]
      omega
    | started node todo here _ =>
      have fits : s.begun.length ≤ job.graph.ids.length :=
        (List.subperm_of_subset safe.fresh safe.inside).length_le
      simp only [Sched.begun, Sched.todo, here, List.length_append, List.length_cons] at fits
      have bounded : (Pc.start todo).weight ≤ 4 := by
        cases todo <;> simp [Pc.weight]
      simp only [Sched.remaining, fork, here, List.length_append, List.length_cons, List.length_nil]
      have one : (Pc.start (node.id :: todo)).weight = 1 := rfl
      omega
    | measured here =>
      simp only [Sched.remaining, here, Pc.weight]
      omega
    | stopping here _ =>
      simp only [Sched.remaining, here, Pc.weight]
      omega
    | waiting here _ =>
      simp only [Sched.remaining, here, Pc.weight]
      omega
    | joined fiber here _ =>
      obtain ⟨key, rest, _, queue⟩ := safe.waits fiber here
      simp only [Sched.remaining, here, queue, List.tail_cons, List.length_cons, Pc.weight]
      omega
    | left here _ =>
      simp only [Sched.remaining, here, Pc.weight]
      omega

theorem finish_active {fiber : Fiber T A} (active : fiber ∈ s.active) (result : Except E A) :
    ∃ t, Step job s (.finish fiber.key result) t := by
  have some_ : (s.active.find? (·.key == fiber.key)).isSome := by
    rw [List.find?_isSome]
    exact ⟨fiber, active, beq_self_eq_true _⟩
  obtain ⟨first, found⟩ := Option.isSome_iff_exists.mp some_
  cases result with
  | ok value => exact ⟨_, by simp only [Step, advance, finish, found]; rfl⟩
  | error error => exact ⟨_, by simp only [Step, advance, finish, found]; rfl⟩

/-- A run that is not over can go on: the coordinator moves, or a fiber can end. -/
theorem step_possible (safe : Safe job s) : s.pc = .finished ∨ (∃ t, Step job s .coordinate t) ∨
    ∃ fiber ∈ s.active, ∀ result : Except E A, ∃ t, Step job s (.finish fiber.key result) t := by
  have alive : ∀ key, s.alive key = true → ∃ fiber ∈ s.active, ∀ result : Except E A,
      ∃ t, Step job s (.finish fiber.key result) t := by
    intro key some_
    obtain ⟨fiber, active, _⟩ := List.any_eq_true.mp some_
    exact ⟨fiber, active, finish_active active⟩
  cases here : s.pc with
  | plan =>
    refine .inr (.inl ?_)
    simp only [Step, advance, coordinate, here]
    split
    · exact ⟨_, rfl⟩
    · exact ⟨_, rfl⟩
  | mark ready => exact .inr (.inl ⟨_, by simp only [Step, advance, coordinate, here]; rfl⟩)
  | start todo =>
    refine .inr (.inl ?_)
    cases todo with
    | nil => exact ⟨_, by simp only [Step, advance, coordinate, here]; rfl⟩
    | cons id rest =>
      have inside := safe.inside id (by
        simp only [Sched.begun, Sched.todo, here]
        exact List.mem_append_right _ List.mem_cons_self)
      obtain ⟨node, found⟩ := mem_ids.mp inside
      exact ⟨_, by simp only [Step, advance, coordinate, here, found]; rfl⟩
  | check => exact .inr (.inl ⟨_, by simp only [Step, advance, coordinate, here]; rfl⟩)
  | join fiber =>
    obtain ⟨key, rest, rfl, _⟩ := safe.waits fiber here
    cases waits : s.alive key with
    | true => exact .inr (.inr (alive key waits))
    | false => exact .inr (.inl ⟨_, by simp only [Step, advance, coordinate, here, waits]; rfl⟩)
  | joinAll =>
    cases waits : s.live.any s.alive with
    | true =>
      obtain ⟨key, _, some_⟩ := List.any_eq_true.mp waits
      exact .inr (.inr (alive key some_))
    | false => exact .inr (.inl ⟨_, by simp only [Step, advance, coordinate, here, waits]; rfl⟩)
  | finished => exact .inl rfl

/-- No run is longer than ten steps for each node, and three. -/
theorem run_bounded {events : List (Event A E)} (path : Path (Step job) {} events s) :
    events.length ≤ 10 * job.graph.ids.length + 3 := by
  have bound := path.length_add_le (Safe job) (fun _ _ _ moved safe => safe.step moved)
    (Sched.remaining job)
    (fun _ _ _ moved safe => step_remaining safe moved) (Safe.initial job)
  simp only [Sched.remaining, List.length_nil, Pc.weight] at bound
  omega

end Progress

end Metahumotonic.Agent
