import Metahumotonic.Agent.Scheduler
import Metahumotonic.Library.Walks

/-! What a failure takes with it (`descendants`, `newlyBlocked` of `ts/src/agent/WorkGraph.ts` and
`markFailed` of `ts/src/agent/Scheduler.ts`). Failures block the same nodes in any order. -/
namespace Metahumotonic.Agent

open Library WorkGraph

variable {T : Type u} {A : Type v} {E : Type w} {graph : WorkGraph T} {state : RunState}

/-- The second node names the first as a dependency. -/
def Dependent (graph : WorkGraph T) (a b : NodeId) : Prop := DependsOn graph b a

/-- A walk of dependent edges that comes back, and visits no node twice on its way. -/
def OnCycle (graph : WorkGraph T) (id : NodeId) : Prop :=
  ∃ cycle, (id :: cycle).Nodup ∧ IsWalk (Dependent graph) id cycle id

/-- The run state after a failure has taken its descendants with it. -/
def cascade (graph : WorkGraph T) (state : RunState) (failed : NodeId) : RunState :=
  { state with blocked := insert failed state.blocked ∪ graph.newlyBlocked state failed }

theorem markFailed_state (s : Sched T A E) (id : NodeId) (error : E) :
    (markFailed graph s id error).state = { cascade graph s.state id with
      running := s.state.running.erase id } := rfl

section Search

theorem mem_descendants_walk {id d : NodeId} :
    d ∈ graph.descendants id ↔ ∃ between, IsWalk (Dependent graph) id between d := by
  rw [mem_descendants, isWalk_iff]
  exact Relation.transGen_swap

theorem mem_descendants_self {id : NodeId} : id ∈ graph.descendants id ↔ OnCycle graph id := by
  rw [mem_descendants_walk]
  constructor
  · rintro ⟨between, walk⟩
    exact exists_cycle walk
  · rintro ⟨cycle, _, walk⟩
    exact ⟨cycle, walk⟩

theorem dependents_inside (a : NodeId) : ∀ b ∈ graph.dependents a, b ∈ graph.ids.toFinset :=
  fun _ edge =>
  List.mem_toFinset.mpr (dependsOn_ids (mem_dependents.mp edge))

/-- The source's stack has the dependents that are pushed last on its top; it is emptied. -/
theorem descendants_ends (graph : WorkGraph T) (id : NodeId) :
    WorkEnds (visit graph.dependents) (graph.dependents id).reverse ∅ (graph.descendants id) := by
  have enough : unseen graph.dependents graph.ids.toFinset (graph.dependents id).reverse ∅ ≤
      graph.dependentsFuel id := by
    rw [dependentsFuel, unseen, unseen, List.length_reverse]
  have inside : ∀ a ∈ (graph.dependents id).reverse, a ∈ graph.ids.toFinset := fun a member =>
    dependents_inside id a (List.mem_reverse.mp member)
  have ends := reach_ends graph.dependents graph.ids.toFinset _ (fun a _ => dependents_inside a)
    inside enough
  have same : reach graph.dependents (graph.dependentsFuel id) (graph.dependents id).reverse =
      graph.descendants id := by
    ext d
    rw [mem_reach graph.dependents graph.ids.toFinset _ (fun a _ => dependents_inside a)
      inside enough,
      descendants, mem_reach graph.dependents graph.ids.toFinset _ (fun a _ => dependents_inside a)
        (dependents_inside id) (Nat.le_refl (graph.dependentsFuel id))]
    simp only [List.mem_reverse]
  rwa [same] at ends

end Search

section Order

variable {f g : NodeId}

theorem mem_newlyBlocked_iff {id d : NodeId} :
    d ∈ graph.newlyBlocked state id ↔ d ∈ graph.descendants id ∧ d ∉ state.done ∧
      d ∉ state.blocked :=
  Finset.mem_filter

/-- What was blocked before does not matter to what is blocked afterwards. -/
theorem mem_cascade {id d : NodeId} : d ∈ (cascade graph state id).blocked ↔
    d ∈ state.blocked ∨ d = id ∨ d ∈ graph.descendants id ∧ d ∉ state.done := by
  simp only [cascade, Finset.mem_union, Finset.mem_insert, mem_newlyBlocked_iff]
  by_cases before : d ∈ state.blocked
  · simp [before]
  · simp [before]

theorem cascade_comm (graph : WorkGraph T) (state : RunState) (f g : NodeId) :
    cascade graph (cascade graph state f) g = cascade graph (cascade graph state g) f := by
  have same : (cascade graph (cascade graph state f) g).blocked =
      (cascade graph (cascade graph state g) f).blocked := by
    ext d
    rw [mem_cascade, mem_cascade, mem_cascade, mem_cascade]
    exact or_right_comm
  exact congrArg (fun blocked => ({ state with blocked := blocked } : RunState)) same

theorem cascade_again (kept : ∀ d, d ∈ (cascade graph state f).blocked → d ∈ state.blocked) :
    cascade graph state f = state := by
  have same : (cascade graph state f).blocked = state.blocked := by
    ext d
    exact ⟨kept d, fun before => mem_cascade.mpr (.inl before)⟩
  exact congrArg (fun blocked => ({ state with blocked := blocked } : RunState)) same

theorem cascade_idem (graph : WorkGraph T) (state : RunState) (f : NodeId) :
    cascade graph (cascade graph state f) f = cascade graph state f := by
  apply cascade_again
  intro d member
  rcases mem_cascade.mp member with before | here
  · exact before
  · exact mem_cascade.mpr (.inr here)

/-- The search for descendants ends and finds what is reachable; a failure blocks what of it is
neither done nor blocked; and failures can be applied in any order, and repeated. -/
theorem failure_cascade_closed (graph : WorkGraph T) (state : RunState) (id f g : NodeId) :
    WorkEnds (visit graph.dependents) (graph.dependents id).reverse ∅ (graph.descendants id) ∧
    (∀ d, d ∈ graph.descendants id ↔ ∃ between, IsWalk (Dependent graph) id between d) ∧
    (id ∈ graph.descendants id ↔ OnCycle graph id) ∧
    (∀ d, d ∈ graph.newlyBlocked state id ↔ d ∈ graph.descendants id ∧ d ∉ state.done ∧
      d ∉ state.blocked) ∧
    cascade graph (cascade graph state f) g = cascade graph (cascade graph state g) f ∧
    cascade graph (cascade graph (cascade graph state f) g) f = cascade graph
      (cascade graph state f) g ∧
    cascade graph (cascade graph (cascade graph state f) g) g = cascade graph
      (cascade graph state f) g := by
  refine ⟨descendants_ends graph id, fun d => mem_descendants_walk, mem_descendants_self,
    fun d => mem_newlyBlocked_iff, cascade_comm graph state f g, ?_, cascade_idem graph _ g⟩
  rw [cascade_comm graph state f g]
  exact cascade_idem graph _ f

end Order

end Metahumotonic.Agent
