import Metahumotonic.Agent.WorkGraph

/-! What one planning pass may choose, and what a failure takes with it. -/
namespace Metahumotonic.Agent

open Library WorkGraph

variable {T : Type u} {graph : WorkGraph T}

theorem writeSetOf_value {node : WorkNode T} (member : node ∈ graph.nodes.values) :
    graph.writeSetOf node.id = node.writeSet := by
  simp only [writeSetOf, mem_values.mp member]

theorem dependsOn_value {node : WorkNode T} (member : node ∈ graph.nodes.values) (dep : NodeId) :
    DependsOn graph node.id dep ↔ dep ∈ node.dependsOn := by
  simp only [DependsOn, mem_values.mp member, Option.some.injEq, exists_eq_left']

theorem mem_heldLeases {running : Finset NodeId} {resource : String} :
    resource ∈ graph.heldLeases running ↔ ∃ id ∈ running, resource ∈ graph.writeSetOf id := by
  simp only [heldLeases, Finset.mem_biUnion, List.mem_toFinset]

/-- Nothing has happened to the node, and its dependencies are done: the DAG gate. -/
structure Open (graph : WorkGraph T) (state : RunState) (id : NodeId) : Prop where
  inside : id ∈ graph.ids
  notDone : id ∉ state.done
  notRunning : id ∉ state.running
  notBlocked : id ∉ state.blocked
  deps : ∀ dep, DependsOn graph id dep → dep ∈ state.done

/-- Both gates: the write-set is free of the leases of running nodes. -/
structure Startable (graph : WorkGraph T) (state : RunState) (id : NodeId) : Prop
    extends Open graph state id where
  free : ∀ other ∈ state.running, Disjoint (graph.writeSetOf id).toFinset
    (graph.writeSetOf other).toFinset

section Pass

variable {state : RunState}

theorem planPass_sublist (held : Finset String) (nodes : List (WorkNode T)) :
    (planPass state held nodes).Sublist (nodes.map (·.id)) := by
  induction nodes generalizing held with
  | nil => exact .slnil
  | cons node rest ih =>
    unfold planPass
    split
    · exact (ih held).cons _
    · split
      · exact (ih held).cons _
      · split
        · exact (ih held).cons _
        · exact (ih _).cons_cons _

theorem planPass_open {held : Finset String} {nodes : List (WorkNode T)}
    (all : ∀ node ∈ nodes, node ∈ graph.nodes.values) {id : NodeId}
    (chosen : id ∈ planPass state held nodes) :
    Open graph state id ∧ ∀ resource ∈ graph.writeSetOf id, resource ∉ held := by
  induction nodes generalizing held with
  | nil => cases chosen
  | cons node rest ih =>
    have later : ∀ other ∈ rest, other ∈ graph.nodes.values :=
      fun other member => all other (List.mem_cons_of_mem _ member)
    unfold planPass at chosen
    split at chosen
    · exact ih later chosen
    · rename_i fresh
      split at chosen
      · exact ih later chosen
      · rename_i ready
        split at chosen
        · exact ih later chosen
        · rename_i free
          rcases List.mem_cons.mp chosen with rfl | after
          · have here := all node List.mem_cons_self
            simp only [not_or] at fresh
            refine ⟨⟨mem_ids.mpr ⟨node, mem_values.mp here⟩, fresh.1, fresh.2.1, fresh.2.2, ?_⟩, ?_⟩
            · intro dep edge
              exact Decidable.not_not.mp ready dep ((dependsOn_value here dep).mp edge)
            · intro resource own taken
              rw [writeSetOf_value here] at own
              exact free ⟨resource, own, taken⟩
          · obtain ⟨opened, unclaimed⟩ := ih later after
            exact ⟨opened, fun resource own taken =>
              unclaimed resource own (Finset.mem_union_left _ taken)⟩

/-- The nodes of one pass hold disjoint write-sets. -/
theorem planPass_disjoint {held : Finset String} {nodes : List (WorkNode T)}
    (all : ∀ node ∈ nodes, node ∈ graph.nodes.values) :
    (planPass state held nodes).Pairwise fun a b =>
      Disjoint (graph.writeSetOf a).toFinset (graph.writeSetOf b).toFinset := by
  induction nodes generalizing held with
  | nil => exact .nil
  | cons node rest ih =>
    have later : ∀ other ∈ rest, other ∈ graph.nodes.values :=
      fun other member => all other (List.mem_cons_of_mem _ member)
    unfold planPass
    split
    · exact ih later
    · split
      · exact ih later
      · split
        · exact ih later
        · refine List.pairwise_cons.mpr ⟨fun other member => ?_, ih later⟩
          obtain ⟨_, unclaimed⟩ := planPass_open later member
          rw [Finset.disjoint_left]
          intro resource own hers
          rw [writeSetOf_value (all node List.mem_cons_self)] at own
          exact unclaimed resource (List.mem_toFinset.mp hers) (Finset.mem_union_right _ own)

theorem planPass_nonempty (held : Finset String) {nodes : List (WorkNode T)} {node : WorkNode T}
    (member : node ∈ nodes)
    (fresh : node.id ∉ state.done ∧ node.id ∉ state.running ∧ node.id ∉ state.blocked)
    (ready : ∀ dep ∈ node.dependsOn, dep ∈ state.done)
    (free : ∀ resource ∈ node.writeSet, resource ∉ held) : planPass state held nodes ≠ [] := by
  induction nodes with
  | nil => cases member
  | cons head rest ih =>
    unfold planPass
    rcases List.mem_cons.mp member with rfl | later
    · rw [if_neg (by simpa only [not_or] using fresh), if_neg (fun no => no ready),
        if_neg (fun ⟨resource, own, taken⟩ => free resource own taken)]
      exact List.cons_ne_nil _ _
    · split
      · exact ih later
      · split
        · exact ih later
        · split
          · exact ih later
          · exact List.cons_ne_nil _ _

theorem readySet_nodup : (graph.readySet state).Nodup := by
  refine jsSort_nodup ((planPass_sublist _ _).nodup ?_)
  rw [values_ids]
  exact graph.nodes.keys_nodup

/-- Every ready node may start. -/
theorem readySet_startable {id : NodeId} (ready : id ∈ graph.readySet state) :
    Startable graph state id := by
  obtain ⟨opened, unclaimed⟩ := planPass_open (fun _ member => member) (mem_jsSort.mp ready)
  refine ⟨opened, fun other running => ?_⟩
  rw [Finset.disjoint_left]
  intro resource own hers
  exact unclaimed resource (List.mem_toFinset.mp own)
    (mem_heldLeases.mpr ⟨other, running, List.mem_toFinset.mp hers⟩)

/-- Two ready nodes may start together. -/
theorem readySet_disjoint {a b : NodeId} (ha : a ∈ graph.readySet state)
    (hb : b ∈ graph.readySet state)
    (other : a ≠ b) : Disjoint (graph.writeSetOf a).toFinset (graph.writeSetOf b).toFinset := by
  have symmetric : Std.Symm fun a b =>
      Disjoint (graph.writeSetOf a).toFinset (graph.writeSetOf b).toFinset :=
    ⟨fun _ _ apart => apart.symm⟩
  exact (planPass_disjoint fun _ member => member).forall (mem_jsSort.mp ha)
    (mem_jsSort.mp hb) other

/-- A pass finds nothing only when nothing may start. -/
theorem readySet_nil (none : graph.readySet state = []) (id : NodeId) :
    ¬ Startable graph state id := by
  intro startable
  obtain ⟨node, found⟩ := mem_ids.mp startable.inside
  have home := graph.named id node found
  subst home
  have member : node ∈ graph.nodes.values := mem_values.mpr found
  refine planPass_nonempty (graph.heldLeases state.running) member
    ⟨startable.notDone, startable.notRunning, startable.notBlocked⟩ ?_ ?_ (jsSort_nil_iff.mp none)
  · exact fun dep named => startable.deps dep ((dependsOn_value member dep).mpr named)
  · intro resource own taken
    obtain ⟨other, running, hers⟩ := mem_heldLeases.mp taken
    rw [← writeSetOf_value member] at own
    exact Finset.disjoint_left.mp (startable.free other running) (List.mem_toFinset.mpr own)
      (List.mem_toFinset.mpr hers)

theorem mem_newlyBlocked {failed id : NodeId} :
    id ∈ graph.newlyBlocked state failed ↔
      Ancestor graph failed id ∧ id ∉ state.done ∧ id ∉ state.blocked := by
  simp only [newlyBlocked, Finset.mem_filter, mem_descendants]

end Pass

end Metahumotonic.Agent
