import Metahumotonic.Agent.SchedulerOutcome

/-! The outcome theorem of the scheduler. The loop is left when its second read of the
state finds nothing running; a completion that lands between the two reads may have
made a node ready that is then never started. -/
namespace Metahumotonic.Agent

open Library WorkGraph

variable {T : Type u} {A : Type v} {E : Type w} {job : Job T A} {s t : Sched T A E}

/-- The loop is left only when no node is ready in the state it is left in. -/
def Prompt (job : Job T A) (s : Sched T A E) : Prop :=
  s.pc = .check → s.state.running = ∅ → job.graph.readySet s.state = []

def Timely (job : Job T A) (s : Sched T A E) (event : Event A E) (t : Sched T A E) : Prop :=
  Step job s event t ∧ (event = .coordinate → Prompt job s)

/-- Every node has its outcome. -/
structure Settled (job : Job T A) (s : Sched T A E) : Prop where
  every : ∀ id, (∃ outcome, (report s).outcomes.get? id = some outcome) ↔ id ∈ job.graph.ids
  failed : ∀ id, id ∈ (report s).failed ↔ id ∈ s.starts ∧ s.Failed id
  blocked : ∀ id, id ∈ (report s).blocked ↔ ∃ f ∈ (report s).failed, Ancestor job.graph f id
  by_ : ∀ id f, (report s).outcomes.get? id = some (.blocked f) →
    f ∈ (report s).failed ∧ Ancestor job.graph f id
  completed : ∀ id ∈ job.graph.ids, id ∉ (report s).failed → id ∉ (report s).blocked →
    id ∈ (report s).completed

section Report

theorem mem_completed {id : NodeId} :
    id ∈ (report s).completed ↔ ∃ value, s.outcomes.get? id = some (.completed value) := by
  rw [report, mem_pick]
  constructor
  · rintro ⟨outcome, found, tagged⟩
    cases outcome with
    | completed value => exact ⟨value, found⟩
    | failed _ => cases tagged
    | blocked _ => cases tagged
  · rintro ⟨value, found⟩
    exact ⟨_, found, rfl⟩

theorem mem_failed {id : NodeId} :
    id ∈ (report s).failed ↔ ∃ error, s.outcomes.get? id = some (.failed error) := by
  rw [report, mem_pick]
  constructor
  · rintro ⟨outcome, found, tagged⟩
    cases outcome with
    | completed _ => cases tagged
    | failed error => exact ⟨error, found⟩
    | blocked _ => cases tagged
  · rintro ⟨error, found⟩
    exact ⟨_, found, rfl⟩

theorem mem_blocked {id : NodeId} :
    id ∈ (report s).blocked ↔ ∃ f, s.outcomes.get? id = some (.blocked f) := by
  rw [report, mem_pick]
  constructor
  · rintro ⟨outcome, found, tagged⟩
    cases outcome with
    | completed _ => cases tagged
    | failed _ => cases tagged
    | blocked f => exact ⟨f, found⟩
  · rintro ⟨f, found⟩
    exact ⟨_, found, rfl⟩

theorem Told.mem_failed (told : Told job s) {id : NodeId} : id ∈ (report s).failed ↔
    s.Failed id := by
  rw [Agent.mem_failed]
  exact exists_congr fun error => told.ended id (.error error)

theorem Told.mem_completed (told : Told job s) {id : NodeId} :
    id ∈ (report s).completed ↔ s.Completed id := by
  rw [Agent.mem_completed]
  exact exists_congr fun value => told.ended id (.ok value)

end Report

section Ending

/-- Once the loop is left the run state stays as it is. -/
theorem after_loop {events : List (Event A E)} (path : Path (Step job) s events t)
    (safe : Safe job s)
    (ending : s.pc = .joinAll ∨ s.pc = .finished) : t.state = s.state := by
  have kept := path.invariant
    (fun m => Safe job m ∧ (m.pc = .joinAll ∨ m.pc = .finished) ∧ m.state = s.state) ?_
      ⟨safe, ending, rfl⟩
  · exact kept.2.2
  · rintro a event b moved ⟨safeA, overA, same⟩
    refine ⟨safeA.step moved, ?_⟩
    cases event with
    | finish key result =>
      obtain ⟨fiber, found, _⟩ := finish_ended moved
      have active := active_id (List.mem_of_find?_eq_some found)
      have running := (safeA.running fiber.node.id).mpr (.inl active)
      rw [safeA.rest overA] at running
      exact absurd running (Finset.notMem_empty _)
    | coordinate =>
      rcases overA with here | here
      · simp only [Step, advance, coordinate, here] at moved
        split at moved
        · cases moved
        · cases moved
          exact ⟨.inr rfl, same⟩
      · simp only [Step, advance, coordinate, here] at moved
        cases moved

/-- In a timely run no node is left ready. -/
theorem timely_rest {events : List (Event A E)} (path : Path (Timely job) {} events s) :
    s.pc = .joinAll ∨ s.pc = .finished → job.graph.readySet s.state = [] := by
  have kept := path.invariant
    (fun m => Safe job m ∧ (m.pc = .joinAll ∨ m.pc = .finished → job.graph.readySet m.state = []))
      ?_
    ⟨Safe.initial job, fun ending => by rcases ending with ending | ending <;> cases ending⟩
  · exact kept.2
  · rintro a event b ⟨moved, prompt⟩ ⟨safe, quiet⟩
    refine ⟨safe.step moved, fun ending => ?_⟩
    by_cases before : a.pc = .joinAll ∨ a.pc = .finished
    · have same := after_loop (.cons moved (.nil b)) safe before
      rw [same]
      exact quiet before
    · obtain ⟨notAll, notOver⟩ := not_or.mp before
      cases event with
      | finish key result =>
        obtain ⟨_, _, ended⟩ := finish_ended moved
        exact absurd (ended.pc ▸ ending) before
      | coordinate =>
        cases coordinate_turn moved with
        | stopping here none_ => exact prompt rfl here none_
        | left here _ => exact absurd here notAll
        | planned | idle | marked | started | measured | waiting | joined =>
          rcases ending with ending | ending <;> cases ending

/-- With nothing running and nothing ready, every node is done or blocked. -/
theorem all_ended (safe : Safe job s) (acyclic : Acyclic job.graph) (free : DanglingFree job.graph)
    (idle : s.state.running = ∅) (quiet : job.graph.readySet s.state = []) (id : NodeId) :
    id ∈ job.graph.ids → id ∈ s.state.done ∨ id ∈ s.state.blocked := by
  refine acyclic.induction (P := fun id => id ∈ job.graph.ids → id ∈ s.state.done ∨
    id ∈ s.state.blocked)
    (fun id deps inside => ?_) id
  by_contra neither
  obtain ⟨notDone, notBlocked⟩ := not_or.mp neither
  have notRunning : id ∉ s.state.running := idle ▸ Finset.notMem_empty id
  have ready : ∀ dep, DependsOn job.graph id dep → dep ∈ s.state.done := by
    intro dep edge
    have home := free id dep edge
    refine (deps dep edge home home).resolve_right fun blocked => notBlocked ?_
    obtain ⟨f, failed, rfl | path⟩ := (safe.blocked dep).mp blocked
    · exact (safe.blocked id).mpr ⟨_, failed, .inr (.single edge)⟩
    · exact (safe.blocked id).mpr ⟨f, failed, .inr (Relation.TransGen.head edge path)⟩
  have free_ : ∀ other ∈ s.state.running, Disjoint (job.graph.writeSetOf id).toFinset
      (job.graph.writeSetOf other).toFinset :=
    fun other running => absurd (idle ▸ running) (Finset.notMem_empty other)
  exact readySet_nil quiet id ⟨⟨inside, notDone, notRunning, notBlocked, ready⟩, free_⟩

/-- When every node is done or blocked, the report says so of each. -/
theorem settled_of_all (safe : Safe job s) (told : Told job s)
    (all : ∀ id ∈ job.graph.ids, id ∈ s.state.done ∨ id ∈ s.state.blocked) : Settled job s := by
  have ancestors : ∀ f id, s.Failed f → Ancestor job.graph f id → id ∈ (report s).blocked := by
    intro f id failed path
    have blocked := (safe.blocked id).mpr ⟨f, failed, .inr path⟩
    obtain ⟨outcome, found⟩ := (told.told id).mpr (.inr blocked)
    cases outcome with
    | completed value =>
      have done := (safe.done id).mpr ⟨value, (told.ended id (.ok value)).mp found⟩
      exact absurd blocked (Finset.disjoint_left.mp safe.done_blocked done)
    | failed error =>
      have started := safe.of_result ((told.ended id (.error error)).mp found)
      have deps := safe.deps id (List.mem_append_left _ started)
      exact absurd failed (safe.done_not_failed (safe.ancestor_done deps path))
    | blocked by_ => exact mem_blocked.mpr ⟨by_, found⟩
  refine ⟨fun id => ?_, fun id => ?_, fun id => ?_, fun id f found => ?_,
    fun id inside notFailed notBlocked => ?_⟩
  · exact ⟨fun ⟨_, found⟩ => told.inside safe found, fun inside =>
      (told.told id).mpr (all id inside)⟩
  · rw [told.mem_failed]
    exact ⟨fun failed => ⟨safe.of_result failed.choose_spec, failed⟩, And.right⟩
  · constructor
    · intro blocked
      obtain ⟨f, found⟩ := mem_blocked.mp blocked
      obtain ⟨failed, path⟩ := told.blockedBy id f found
      exact ⟨f, told.mem_failed.mpr failed, path⟩
    · rintro ⟨f, failed, path⟩
      exact ancestors f id (told.mem_failed.mp failed) path
  · obtain ⟨failed, path⟩ := told.blockedBy id f found
    exact ⟨told.mem_failed.mpr failed, path⟩
  · refine told.mem_completed.mpr
      ((safe.done id).mp ((all id inside).resolve_right fun blocked => ?_))
    obtain ⟨f, failed, rfl | path⟩ := (safe.blocked id).mp blocked
    · exact notFailed (told.mem_failed.mpr failed)
    · exact notBlocked (ancestors f id failed path)

/-- A run that left a node ready is not settled. -/
theorem not_settled (told : Told job s) {id : NodeId}
    (ready : id ∈ job.graph.readySet s.state) : ¬ Settled job s := by
  intro settled
  have startable := readySet_startable ready
  rcases (told.told id).mp ((settled.every id).mpr startable.inside) with done | blocked
  · exact startable.notDone done
  · exact startable.notBlocked blocked

/-- A run that is settled was timely. -/
theorem timely_of_settled {events : List (Event A E)} (path : Path (Step job) s events t)
    (safe : Safe job s) (told : Told job s) (settled : Settled job t) :
    Path (Timely job) s events t := by
  induction path with
  | nil => exact .nil _
  | @cons a b c event rest moved after ih =>
    have safeB := safe.step moved
    have toldB := told.step safe moved
    refine .cons ⟨moved, ?_⟩ (ih safeB toldB settled)
    rintro rfl here idle
    by_contra some_
    obtain ⟨id, ready⟩ := List.exists_mem_of_ne_nil _ some_
    simp only [Step, advance, coordinate, here, idle, if_true, Option.some.injEq] at moved
    subst moved
    have same := after_loop after safeB (.inl rfl)
    have final := after.invariant (fun m => Safe job m ∧ Told job m)
      (fun _ _ _ moved kept => ⟨kept.1.step moved, kept.2.step kept.1 moved⟩) ⟨safeB, toldB⟩
    rw [← same] at ready
    exact not_settled final.2 ready settled

/-- A run that is over is settled exactly if it was timely. -/
theorem settled_iff_timely (acyclic : Acyclic job.graph) (free : DanglingFree job.graph)
    {events : List (Event A E)} (path : Path (Step job) {} events s) (ending : s.pc = .finished) :
    Settled job s ↔ Path (Timely job) {} events s := by
  obtain ⟨safe, told⟩ := Told.reachable path
  constructor
  · exact timely_of_settled path (Safe.initial job) (Told.initial job)
  · intro timely
    have quiet := timely_rest timely (.inr ending)
    exact settled_of_all safe told (all_ended safe acyclic free (safe.rest (.inr ending)) quiet)

end Ending

end Metahumotonic.Agent
