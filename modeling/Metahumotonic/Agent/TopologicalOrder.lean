import Metahumotonic.Agent.TopoSort

/-! The complete specification of `topoSort`: a graph without a cycle is put into the
least of its orders, whatever the order of its map, and otherwise the nodes are named
that reach a cycle. -/
namespace Metahumotonic.Agent

open Library Relation

variable {T : Type u} {graph : WorkGraph T} {order : List NodeId}

/-- A dependency between two nodes of the graph. -/
def Needs (graph : WorkGraph T) (a b : NodeId) : Prop := DependsOn graph a b ∧ b ∈ graph.ids

/-- Every node once, after the nodes that it depends on. -/
def Topological (graph : WorkGraph T) (order : List NodeId) : Prop :=
  Linearises (Needs graph) graph.ids order

/-- The loop of `topoSort` with no bound on its turns. -/
inductive KahnEnds (graph : WorkGraph T) :
    Table NodeId Int × List NodeId → List NodeId → List NodeId → Prop
  | empty (indegree : Table NodeId Int) (order : List NodeId) :
    KahnEnds graph (indegree, []) order order
  | turn (indegree : Table NodeId Int) (id : NodeId) (queue order final : List NodeId)
      (rest : KahnEnds graph (((graph.dependents id).foldl WorkGraph.release (indegree, queue)).1,
        jsSort ((graph.dependents id).foldl WorkGraph.release (indegree, queue)).2)
          (order ++ [id]) final) :
      KahnEnds graph (indegree, id :: queue) order final

def WorkGraph.kahnOrder (graph : WorkGraph T) : List NodeId :=
  graph.kahn (graph.nodes.size + 1) (graph.indegrees, graph.sources) []

theorem WorkGraph.topoSort_eq (graph : WorkGraph T) :
    graph.topoSort = if graph.kahnOrder.length ≠ graph.nodes.size then
      .cyclic (jsSort (graph.ids.filter (· ∉ graph.kahnOrder))) else .ordered graph.kahnOrder :=
  rfl

section Loop

theorem needs_eq : Needs graph = fun id dep => dep ∈ graph.depsOf id := by
  funext id dep
  exact propext mem_depsOf.symm

theorem ids_nodup : graph.ids.Nodup := graph.nodes.keys_nodup

theorem Pending.turn {order queue : List NodeId} {id : NodeId} {indegree : Table NodeId Int}
    (before : Pending graph order [] (indegree, id :: queue)) :
    Pending graph (order ++ [id]) []
      (((graph.dependents id).foldl WorkGraph.release (indegree, queue)).1,
      jsSort ((graph.dependents id).foldl WorkGraph.release (indegree, queue)).2) := by
  have all : ∀ next ∈ graph.dependents id, next ∈ graph.ids := fun next member =>
    WorkGraph.dependsOn_ids (WorkGraph.mem_dependents.mp member)
  exact (before.pop.releases all).sort

/-- No node is ordered twice, so the loop takes at most one turn for each node. -/
theorem Pending.length_le {pending : Table NodeId Int × List NodeId}
    (before : Pending graph order [] pending) :
    order.length + pending.2.length ≤ graph.nodes.size := by
  have bound := List.Subperm.length_le
    (List.subperm_of_subset before.nodup (fun id member => before.inside id member))
  rwa [List.length_append, ids_length] at bound

theorem kahn_ends (fuel : Nat) (pending : Table NodeId Int × List NodeId) (order : List NodeId)
    (before : Pending graph order [] pending) (enough : graph.nodes.size < order.length + fuel) :
    KahnEnds graph pending order (graph.kahn fuel pending order) := by
  induction fuel generalizing pending order with
  | zero =>
    have bound := before.length_le
    omega
  | succ fuel ih =>
    obtain ⟨indegree, queue⟩ := pending
    cases queue with
    | nil => exact .empty indegree order
    | cons id queue =>
      apply KahnEnds.turn
      apply ih _ _ before.turn
      rw [List.length_append, List.length_singleton]
      omega

/-- A node that may come next waits in the queue. -/
theorem Pending.queued {pending : Table NodeId Int × List NodeId}
    (before : Pending graph order [] pending)
    {id : NodeId} (ready : Ready (Needs graph) graph.ids order id) : id ∈ pending.2 := by
  obtain ⟨here, fresh, needs⟩ := ready
  have degree := before.degree id here
  have none : (graph.depsOf id).countP (· ∉ order) = 0 := by
    rw [List.countP_eq_zero]
    intro dep member
    simpa using needs dep (mem_depsOf.mp member)
  rw [none, List.count_nil] at degree
  have member := (before.free id here).mpr degree
  exact (List.mem_append.mp member).resolve_left fresh

/-- The queue is sorted, so its head is the least node that may come next. -/
theorem kahn_greedy (fuel : Nat) (pending : Table NodeId Int × List NodeId) (order : List NodeId)
    (before : Pending graph order [] pending) (sorted : pending.2.Pairwise jsLe)
    (greedy : Greedy jsLe (Needs graph) graph.ids order) :
    Greedy jsLe (Needs graph) graph.ids (graph.kahn fuel pending order) := by
  induction fuel generalizing pending order with
  | zero => exact greedy
  | succ fuel ih =>
    obtain ⟨indegree, queue⟩ := pending
    cases queue with
    | nil => exact greedy
    | cons id queue =>
      apply ih _ _ before.turn (jsSort_pairwise _)
      apply greedy.snoc
      intro rival ready
      rcases List.mem_cons.mp (before.queued ready) with rfl | later
      · exact le_rfl (α := List Nat)
      · exact List.rel_of_pairwise_cons sorted later

end Loop

section Order

/-- What the loop leaves behind: the order so far, and no node that may come next. -/
structure Ordering (graph : WorkGraph T) (order : List NodeId) : Prop where
  nodup : order.Nodup
  inside : ∀ id ∈ order, id ∈ graph.ids
  first : NeedsFirst (Needs graph) order
  greedy : Greedy jsLe (Needs graph) graph.ids order
  stuck : ∀ id ∈ graph.ids, id ∉ order → ∃ dep ∈ graph.ids, dep ∉ order ∧ Needs graph id dep

theorem kahnOrder_ordering (graph : WorkGraph T) : Ordering graph graph.kahnOrder := by
  obtain ⟨indegree, final⟩ := kahn_pending (graph.nodes.size + 1) _ []
    (Pending.initial graph) (by simp)
  have nodup := final.nodup
  have inside := final.inside
  rw [List.append_nil] at nodup inside
  refine ⟨nodup, inside, ?_, ?_, ?_⟩
  · rw [needs_eq]
    exact kahn_earlier _ _ [] (Pending.initial graph) fun before id after split =>
      absurd split (by simp)
  · apply kahn_greedy _ _ [] (Pending.initial graph) (jsSort_pairwise _)
    exact fun before id after split => absurd split (by simp)
  · intro id here waiting
    by_contra none
    push Not at none
    have ready : Ready (Needs graph) graph.ids graph.kahnOrder id := by
      refine ⟨here, waiting, fun dep needed => ?_⟩
      by_contra fresh
      exact none dep needed.2 fresh needed
    exact absurd (final.queued ready) (by simp)

variable (ordering : Ordering graph order)
include ordering

/-- The nodes that are not ordered are those from which a cycle can be reached. -/
theorem Ordering.reaches_iff (id : NodeId) :
    id ∈ graph.ids ∧ id ∉ order ↔ ∃ c, ReflTransGen (Needs graph) id c ∧
      TransGen (Needs graph) c c := by
  constructor
  · rintro ⟨here, waiting⟩
    apply reaches_cycle (graph.ids.toFinset.filter (· ∉ order))
    · intro node member
      obtain ⟨inside, fresh⟩ := Finset.mem_filter.mp member
      obtain ⟨dep, there, later, needed⟩ := ordering.stuck node (List.mem_toFinset.mp inside) fresh
      exact ⟨dep, Finset.mem_filter.mpr ⟨List.mem_toFinset.mpr there, later⟩, needed⟩
    · exact Finset.mem_filter.mpr ⟨List.mem_toFinset.mpr here, waiting⟩
  · rintro ⟨c, path, cycle⟩
    refine ⟨?_, fun ordered => ?_⟩
    · rcases path.cases_head with rfl | ⟨next, needed, _⟩
      · obtain ⟨next, needed, _⟩ := TransGen.head'_iff.mp cycle
        exact WorkGraph.dependsOn_ids needed.1
      · exact WorkGraph.dependsOn_ids needed.1
    · exact ordering.first.no_cycle (ordering.first.path ordered path) cycle

theorem Ordering.perm_iff : order.Perm graph.ids ↔ ∀ id, ¬ TransGen (Needs graph) id id := by
  constructor
  · intro perm id cycle
    obtain ⟨here, waiting⟩ := (ordering.reaches_iff id).mpr ⟨id, .refl, cycle⟩
    exact waiting (perm.mem_iff.mpr here)
  · intro acyclic
    rw [List.perm_ext_iff_of_nodup ordering.nodup ids_nodup]
    refine fun id => ⟨ordering.inside id, fun here => ?_⟩
    by_contra waiting
    obtain ⟨c, _, cycle⟩ := (ordering.reaches_iff id).mp ⟨here, waiting⟩
    exact acyclic c cycle

theorem Ordering.length_iff : order.length = graph.nodes.size ↔ order.Perm graph.ids := by
  rw [← ids_length]
  constructor
  · intro size
    exact (List.subperm_of_subset ordering.nodup ordering.inside).perm_of_length_le size.ge
  · exact fun perm => perm.length_eq

/-- No other order of the nodes is below the one that was found. -/
theorem Ordering.least (perm : order.Perm graph.ids) {other : List NodeId}
    (theirs : Topological graph other) :
    order.map utf16 ≤ other.map utf16 :=
  Greedy.least utf16_injective ordering.greedy ⟨perm, ordering.first⟩ graph.nodes.keys_nodup theirs

end Order

section Same

variable {other : WorkGraph T} (same : ∀ id, graph.nodes.get? id = other.nodes.get? id)
include same

theorem ids_of_same (id : NodeId) : id ∈ graph.ids ↔ id ∈ other.ids := by
  rw [WorkGraph.mem_ids, WorkGraph.mem_ids, same]

theorem needs_of_same : Needs graph = Needs other := by
  funext a b
  simp only [Needs, DependsOn, same, ids_of_same same]

/-- The order in which the nodes were put into the map makes no difference. -/
theorem topoSort_of_same : graph.topoSort = other.topoSort := by
  have mine := kahnOrder_ordering graph
  have theirs := kahnOrder_ordering other
  have perm : graph.ids.Perm other.ids := by
    rw [List.perm_ext_iff_of_nodup ids_nodup ids_nodup]
    exact ids_of_same same
  have size : graph.nodes.size = other.nodes.size := by
    rw [← ids_length, ← ids_length, perm.length_eq]
  have members : ∀ id, id ∈ graph.kahnOrder ↔ id ∈ other.kahnOrder := by
    intro id
    have reach := (mine.reaches_iff id).trans
      ((theirs.reaches_iff id).trans (by rw [needs_of_same same])).symm
    rw [ids_of_same same] at reach
    by_cases here : id ∈ other.ids
    · simpa only [here, true_and, not_iff_not] using reach
    · exact iff_of_false (fun ordered => here ((ids_of_same same id).mp (mine.inside id ordered)))
        fun ordered => here (theirs.inside id ordered)
  have lengths : graph.kahnOrder.length = other.kahnOrder.length :=
    ((List.perm_ext_iff_of_nodup mine.nodup theirs.nodup).mpr members).length_eq
  rw [WorkGraph.topoSort_eq, WorkGraph.topoSort_eq, lengths, size]
  split
  · congr 1
    apply jsSort_eq_of_perm
    simp only [members]
    exact perm.filter _
  · rename_i full
    have mineAll := mine.length_iff.mp (by rw [lengths, size]; exact Decidable.not_not.mp full)
    have theirsAll := theirs.length_iff.mp (Decidable.not_not.mp full)
    have below := mine.least mineAll
      ⟨theirsAll.trans perm.symm, needs_of_same same ▸ theirs.first⟩
    have above := theirs.least theirsAll
      ⟨mineAll.trans perm, needs_of_same same ▸ mine.first⟩
    congr 1
    exact utf16_injective.list_map (le_antisymm below above)

end Same

theorem topoSort_specified (graph : WorkGraph T) :
    KahnEnds graph (graph.indegrees, graph.sources) [] graph.kahnOrder ∧
    ((∃ order, graph.topoSort = .ordered order) ↔ ∀ id, ¬ TransGen (Needs graph) id id) ∧
    (∀ order, graph.topoSort = .ordered order → Topological graph order ∧
      ∀ other, Topological graph other → order.map utf16 ≤ other.map utf16) ∧
    (∀ involved, graph.topoSort = .cyclic involved → involved.Pairwise jsLe ∧ involved.Nodup ∧
      ∀ id, id ∈ involved ↔ ∃ c, ReflTransGen (Needs graph) id c ∧ TransGen (Needs graph) c c) ∧
    ∀ other : WorkGraph T, (∀ id, graph.nodes.get? id = other.nodes.get? id) →
      graph.topoSort = other.topoSort := by
  have ordering := kahnOrder_ordering graph
  have full : graph.kahnOrder.length = graph.nodes.size ↔ ∀ id, ¬ TransGen (Needs graph) id id :=
    ordering.length_iff.trans ordering.perm_iff
  have sorted := graph.topoSort_eq
  refine ⟨?_, ?_, ?_, ?_, fun other same => topoSort_of_same same⟩
  · exact kahn_ends _ _ [] (Pending.initial graph) (by simp)
  · rw [← full, sorted]
    split <;> rename_i size
    · exact iff_of_false (by simp) size
    · exact iff_of_true ⟨_, rfl⟩ (Decidable.not_not.mp size)
  · intro order ordered
    rw [sorted] at ordered
    split at ordered
    · cases ordered
    · rename_i size
      cases ordered
      have perm := ordering.length_iff.mp (Decidable.not_not.mp size)
      exact ⟨⟨perm, ordering.first⟩, fun other theirs => ordering.least perm theirs⟩
  · intro involved cyclic
    rw [sorted] at cyclic
    split at cyclic
    · cases cyclic
      refine ⟨jsSort_pairwise _, jsSort_nodup (graph.nodes.keys_nodup.filter _), fun id => ?_⟩
      rw [mem_jsSort, List.mem_filter, decide_eq_true_eq]
      exact ordering.reaches_iff id
    · cases cyclic

end Metahumotonic.Agent
