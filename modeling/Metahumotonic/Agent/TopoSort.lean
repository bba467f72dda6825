import Metahumotonic.Agent.WorkGraph
import Metahumotonic.Library.Linearisation

/-! Kahn's algorithm (`topoSort` of `ts/src/agent/WorkGraph.ts`). On an acyclic graph
it orders every node, so the scheduler never refuses such a graph. -/
namespace Metahumotonic.Agent

open Library

inductive TopoSort where
  | ordered (order : List NodeId)
  | cyclic (involved : List NodeId)
  deriving DecidableEq, Repr

namespace WorkGraph

variable {T : Type u}

/-- The dependencies of a node that are in the graph. -/
def depsOf (graph : WorkGraph T) (id : NodeId) : List NodeId :=
  match graph.nodes.get? id with
  | some node => node.dependsOn.filter (· ∈ graph.ids)
  | none => []

def indegrees (graph : WorkGraph T) : Table NodeId Int :=
  graph.nodes.values.foldl (fun indegree node =>
    indegree.set node.id (node.dependsOn.filter (· ∈ graph.ids)).length) .empty

/-- One dependency of `next` is ordered; with the last one it joins the queue. -/
def release (pending : Table NodeId Int × List NodeId) (next : NodeId) :
    Table NodeId Int × List NodeId :=
  let remaining := (pending.1.get? next).getD 0 - 1
  (pending.1.set next remaining, if remaining = 0 then pending.2 ++ [next] else pending.2)

def kahn (graph : WorkGraph T) : Nat → Table NodeId Int × List NodeId → List NodeId → List NodeId
  | 0, _, order => order
  | _ + 1, (_, []), order => order
  | fuel + 1, (indegree, id :: queue), order =>
    let released := (graph.dependents id).foldl release (indegree, queue)
    kahn graph fuel (released.1, jsSort released.2) (order ++ [id])

def sources (graph : WorkGraph T) : List NodeId :=
  jsSort ((graph.indegrees.entries.filter (·.2 = 0)).map (·.1))

def topoSort (graph : WorkGraph T) : TopoSort :=
  let order := graph.kahn (graph.nodes.size + 1) (graph.indegrees, graph.sources) []
  if order.length ≠ graph.nodes.size then .cyclic (jsSort (graph.ids.filter (· ∉ order)))
  else .ordered order

end WorkGraph

section Rank

variable {T : Type u} {graph : WorkGraph T}

theorem ids_length : graph.ids.length = graph.nodes.size := by
  simp [WorkGraph.ids, Table.keys, Table.size]

/-- An acyclic graph has a rank that every edge lowers. -/
theorem Acyclic.rank (acyclic : Acyclic graph) :
    ∃ rank : NodeId → Nat, (∀ id, rank id ≤ graph.nodes.size) ∧
      ∀ a b, DependsOn graph a b → b ∈ graph.ids → rank b < rank a := by
  classical
  let above := fun id => graph.ids.toFinset.filter fun x => Ancestor graph x id
  refine ⟨fun id => (above id).card, fun id => ?_, fun a b edge inside => Finset.card_lt_card ?_⟩
  · exact (Finset.card_filter_le _ _).trans ((List.toFinset_card_le _).trans_eq ids_length)
  have parent : Ancestor graph b a := .single edge
  rw [Finset.ssubset_iff_of_subset]
  · refine ⟨b, Finset.mem_filter.mpr ⟨List.mem_toFinset.mpr inside, parent⟩, fun own => ?_⟩
    exact acyclic b (Finset.mem_filter.mp own).2
  · intro x member
    obtain ⟨here, ancestor⟩ := Finset.mem_filter.mp member
    exact Finset.mem_filter.mpr ⟨here, Relation.TransGen.trans parent ancestor⟩

/-- Induction from the dependencies of a node to the node. -/
theorem Acyclic.induction (acyclic : Acyclic graph) {P : NodeId → Prop}
    (step : ∀ id, (∀ dep, DependsOn graph id dep → dep ∈ graph.ids → P dep) → P id) (id : NodeId) :
    P id := by
  obtain ⟨rank, _, lower⟩ := acyclic.rank
  induction same : rank id using Nat.strongRecOn generalizing id with
  | ind n ih =>
    subst same
    exact step id fun dep edge inside => ih _ (lower id dep edge inside) dep rfl

end Rank

section Kahn

variable {T : Type u} {graph : WorkGraph T}

theorem mem_depsOf {id dep : NodeId} : dep ∈ graph.depsOf id ↔ DependsOn graph id dep ∧
    dep ∈ graph.ids := by
  unfold WorkGraph.depsOf DependsOn
  cases found : graph.nodes.get? id with
  | none => simp
  | some node => simp [and_comm]

theorem count_named (node : WorkNode T) (a b : NodeId) :
    ((node.dependsOn.filter (· = b)).map fun _ => node.id).count a =
      if node.id = a then node.dependsOn.count b else 0 := by
  rw [List.map_const', List.count_replicate, ← List.countP_eq_length_filter]
  simp only [beq_iff_eq, List.count]
  split
  · exact List.countP_congr fun x _ => by simp
  · rfl

theorem count_flatMap (nodes : List (WorkNode T)) (distinct : (nodes.map (·.id)).Nodup)
    (a b : NodeId) :
    (nodes.flatMap fun node => (node.dependsOn.filter (· = b)).map fun _ => node.id).count a =
      match nodes.find? (·.id = a) with
      | some node => node.dependsOn.count b
      | none => 0 := by
  induction nodes with
  | nil => rfl
  | cons head rest ih =>
    simp only [List.map_cons, List.nodup_cons] at distinct
    rw [List.flatMap_cons, List.count_append, count_named, ih distinct.2, List.find?_cons]
    by_cases here : head.id = a
    · have gone : rest.find? (·.id = a) = none := by
        rw [List.find?_eq_none]
        intro node member same
        exact distinct.1 (here.trans (of_decide_eq_true same).symm ▸ List.mem_map_of_mem member)
      simp [here, gone]
    · simp [here]

theorem find_value {id : NodeId} {node : WorkNode T} (found : graph.nodes.get? id = some node) :
    graph.nodes.values.find? (·.id = id) = some node := by
  have member : node ∈ graph.nodes.values := (Table.mem_values _ _).mpr ⟨id, found⟩
  cases first : graph.nodes.values.find? (·.id = id) with
  | none =>
    have never := List.find?_eq_none.mp first node member
    exact absurd (graph.named id node found) (by simpa using never)
  | some other =>
    have same : other.id = id := by simpa using List.find?_some first
    have stored := WorkGraph.mem_values.mp (List.mem_of_find?_eq_some first)
    rw [same, found] at stored
    exact congrArg some (Option.some.inj stored).symm

/-- A node is released by another as often as it names it. -/
theorem count_dependents {a b : NodeId} (inside : b ∈ graph.ids) (here : a ∈ graph.ids) :
    (graph.dependents b).count a = (graph.depsOf a).count b := by
  obtain ⟨node, found⟩ := WorkGraph.mem_ids.mp here
  have distinct : (graph.nodes.values.map (·.id)).Nodup := by
    rw [WorkGraph.values_ids]
    exact graph.nodes.keys_nodup
  unfold WorkGraph.dependents
  rw [count_flatMap _ distinct, find_value found]
  simp only [WorkGraph.depsOf, found]
  rw [List.count_filter (by simpa using inside)]

theorem indegrees_get {id : NodeId} :
    graph.indegrees.get? id =
      if id ∈ graph.ids then some ((graph.depsOf id).length : Int) else none := by
  let degree := fun node : WorkNode T =>
    (node.id, ((node.dependsOn.filter (· ∈ graph.ids)).length : Int))
  have keys : (graph.nodes.values.map degree).map Prod.fst = graph.ids := by
    rw [List.map_map]
    exact WorkGraph.values_ids graph
  have distinct : ((graph.nodes.values.map degree).map Prod.fst).Nodup :=
    keys ▸ graph.nodes.keys_nodup
  have folded : graph.indegrees =
      (graph.nodes.values.map degree).foldl (fun t entry => t.set entry.1 entry.2) .empty := by
    rw [List.foldl_map]
    rfl
  rw [folded, Table.get?_foldl_set _ distinct, Table.get?_empty, Option.or_none]
  split
  · rename_i here
    obtain ⟨node, found⟩ := WorkGraph.mem_ids.mp here
    rw [lookup_eq_some_iff distinct]
    refine List.mem_map.mpr ⟨node, (Table.mem_values _ _).mpr ⟨id, found⟩, ?_⟩
    simp only [degree, graph.named id node found, WorkGraph.depsOf, found]
  · rename_i outside
    rw [List.lookup_eq_none_iff]
    intro entry member
    have inside : entry.1 ∈ graph.ids := keys ▸ List.mem_map_of_mem member
    simpa using fun same : id = entry.1 => outside (same ▸ inside)

/-- Between two turns of Kahn's loop: a node counts its dependencies that are not
ordered and the releases that are still to come; it is ordered or queued when it
counts none. -/
structure Pending (graph : WorkGraph T) (order rest : List NodeId)
    (pending : Table NodeId Int × List NodeId) : Prop where
  degree : ∀ id ∈ graph.ids, pending.1.get? id =
    some (((graph.depsOf id).countP (· ∉ order) + rest.count id : Nat) : Int)
  nodup : (order ++ pending.2).Nodup
  inside : ∀ id ∈ order ++ pending.2, id ∈ graph.ids
  free : ∀ id ∈ graph.ids, (id ∈ order ++ pending.2 ↔ pending.1.get? id = some 0)

theorem Pending.release {order rest : List NodeId} {next : NodeId}
    {pending : Table NodeId Int × List NodeId} (before : Pending graph order (next :: rest) pending)
    (here : next ∈ graph.ids) : Pending graph order rest (WorkGraph.release pending next) := by
  obtain ⟨indegree, queue⟩ := pending
  have count := before.degree next here
  dsimp only at count
  rw [List.count_cons_self] at count
  have remaining : (indegree.get? next).getD 0 - 1 =
      (((graph.depsOf next).countP (· ∉ order) + rest.count next : Nat) : Int) := by
    rw [count, Option.getD_some]
    push_cast
    omega
  have waiting : next ∉ order ++ queue := by
    intro member
    have zero := (before.free next here).mp member
    dsimp only at zero
    rw [count, Option.some.injEq] at zero
    omega
  have released : WorkGraph.release (indegree, queue) next =
      (indegree.set next ((((graph.depsOf next).countP (· ∉ order) + rest.count next : Nat) : Int)),
        if (((graph.depsOf next).countP (· ∉ order) + rest.count next : Nat) : Int) = 0 then
          queue ++ [next] else queue) := by
    simp only [WorkGraph.release, remaining]
  rw [released]
  refine ⟨?_, ?_, ?_, ?_⟩
  · intro id inside
    rw [Table.get?_set]
    split
    · rename_i same
      rw [same]
    · rename_i other
      rw [before.degree id inside, List.count_cons_of_ne (fun same => other same.symm)]
  · dsimp only
    split
    · rw [← List.append_assoc]
      exact List.nodup_append.mpr ⟨before.nodup, List.nodup_singleton _, fun a ha b hb same =>
        waiting ((List.mem_singleton.mp hb) ▸ same ▸ ha)⟩
    · exact before.nodup
  · intro id member
    dsimp only at member
    split at member
    · rw [← List.append_assoc, List.mem_append, List.mem_singleton] at member
      rcases member with old | rfl
      · exact before.inside id old
      · exact here
    · exact before.inside id member
  · intro id inside
    rw [Table.get?_set]
    dsimp only
    by_cases same : id = next
    · subst same
      rw [if_pos rfl, Option.some.injEq]
      split
      · rename_i zero
        rw [zero]
        simp
      · rename_i positive
        exact iff_of_false waiting positive
    · rw [if_neg same, ← before.free id inside]
      split
      · rw [← List.append_assoc, List.mem_append, List.mem_singleton, or_iff_left same]
      · rfl

theorem Pending.releases {order rest : List NodeId} {pending : Table NodeId Int × List NodeId}
    (before : Pending graph order rest pending) (all : ∀ id ∈ rest, id ∈ graph.ids) :
    Pending graph order [] (rest.foldl WorkGraph.release pending) := by
  induction rest generalizing pending with
  | nil => exact before
  | cons next rest ih =>
    exact ih (before.release (all next List.mem_cons_self))
      fun id member => all id (List.mem_cons_of_mem _ member)

/-- The head of the queue is ordered, and its dependents wait for their release. -/
theorem Pending.pop {order queue : List NodeId} {id : NodeId} {indegree : Table NodeId Int}
    (before : Pending graph order [] (indegree, id :: queue)) :
    Pending graph (order ++ [id]) (graph.dependents id) (indegree, queue) := by
  have split : ∀ tail : List NodeId, order ++ id :: tail = order ++ [id] ++ tail := by simp
  have here : id ∈ graph.ids := before.inside id (by simp)
  have fresh : id ∉ order := by
    have distinct := before.nodup
    rw [List.nodup_append] at distinct
    exact fun member => distinct.2.2 id member id List.mem_cons_self rfl
  refine ⟨?_, split queue ▸ before.nodup, split queue ▸ before.inside, split queue ▸ before.free⟩
  intro node inside
  rw [before.degree node inside, count_dependents here inside]
  congr 2
  rw [List.count_nil, Nat.add_zero]
  induction graph.depsOf node with
  | nil => rfl
  | cons dep rest ih =>
    rw [List.countP_cons, List.countP_cons, List.count_cons, ih]
    by_cases same : dep = id
    · subst same
      simp [fresh]
      omega
    · by_cases old : dep ∈ order
      · simp [same, old]
      · simp [same, old]
        omega

theorem Pending.sort {order : List NodeId} {pending : Table NodeId Int × List NodeId}
    (before : Pending graph order [] pending) :
    Pending graph order [] (pending.1, jsSort pending.2) := by
  have perm : (order ++ jsSort pending.2).Perm (order ++ pending.2) :=
    List.Perm.append_left _ (jsSort_perm _)
  refine ⟨before.degree, perm.nodup_iff.mpr before.nodup, ?_, ?_⟩
  · exact fun id member => before.inside id (perm.mem_iff.mp member)
  · exact fun id inside => perm.mem_iff.trans (before.free id inside)

theorem Pending.initial (graph : WorkGraph T) : Pending graph [] []
    (graph.indegrees, graph.sources) := by
  have sources : ∀ id, id ∈ graph.sources ↔ graph.indegrees.get? id = some 0 := by
    intro id
    rw [WorkGraph.sources, mem_jsSort, List.mem_map]
    constructor
    · rintro ⟨⟨_, n⟩, member, rfl⟩
      obtain ⟨stored, zero⟩ := List.mem_filter.mp member
      have zero : n = 0 := by simpa using zero
      rw [← zero]
      exact (Table.mem_entries _ _ _).mp stored
    · intro found
      exact ⟨(id, 0), List.mem_filter.mpr ⟨(Table.mem_entries _ _ _).mpr found, by simp⟩, rfl⟩
  refine ⟨?_, ?_, ?_, ?_⟩
  · intro id inside
    rw [indegrees_get, if_pos inside]
    simp
  · rw [List.nil_append]
    apply jsSort_nodup
    exact (graph.indegrees.keys_nodup.sublist (List.filter_sublist.map _))
  · intro id member
    rw [List.nil_append, sources, indegrees_get] at member
    by_contra outside
    rw [if_neg outside] at member
    cases member
  · intro id _
    rw [List.nil_append]
    exact sources id

/-- With a turn for every node left the loop ends with an empty queue. -/
theorem kahn_pending (fuel : Nat) (pending : Table NodeId Int × List NodeId) (order : List NodeId)
    (before : Pending graph order [] pending) (enough : graph.nodes.size < order.length + fuel) :
    ∃ indegree, Pending graph (graph.kahn fuel pending order) [] (indegree, []) := by
  induction fuel generalizing pending order with
  | zero =>
    have bound := List.Subperm.length_le
      (List.subperm_of_subset before.nodup (fun id member => before.inside id member))
    rw [List.length_append] at bound
    rw [← ids_length] at enough
    omega
  | succ fuel ih =>
    obtain ⟨indegree, queue⟩ := pending
    cases queue with
    | nil => exact ⟨indegree, before⟩
    | cons id queue =>
      have all : ∀ next ∈ graph.dependents id, next ∈ graph.ids := fun next member =>
        WorkGraph.dependsOn_ids (WorkGraph.mem_dependents.mp member)
      refine ih _ _ (before.pop.releases all).sort ?_
      rw [List.length_append, List.length_singleton]
      omega

/-- An acyclic graph is ordered. -/
theorem topoSort_ordered (acyclic : Acyclic graph) : ∃ order, graph.topoSort = .ordered order := by
  obtain ⟨indegree, final⟩ := kahn_pending (graph.nodes.size + 1) _ []
    (Pending.initial graph) (by simp)
  have all : ∀ id ∈ graph.ids, id ∈ graph.kahn (graph.nodes.size + 1)
      (graph.indegrees, graph.sources) [] := by
    refine fun id => acyclic.induction (P := fun id => id ∈ graph.ids → id ∈ _) ?_ id
    intro id earlier here
    have none : (graph.depsOf id).countP
        (· ∉ graph.kahn (graph.nodes.size + 1) (graph.indegrees, graph.sources) []) = 0 := by
      rw [List.countP_eq_zero]
      intro dep member
      obtain ⟨edge, inside⟩ := mem_depsOf.mp member
      simpa using earlier dep edge inside inside
    have degree := final.degree id here
    rw [none] at degree
    have member := (final.free id here).mpr degree
    rwa [List.append_nil] at member
  have length : (graph.kahn (graph.nodes.size + 1) (graph.indegrees, graph.sources) []).length =
      graph.nodes.size := by
    have nodup := final.nodup
    have inside := final.inside
    rw [List.append_nil] at nodup inside
    have up := List.Subperm.length_le (List.subperm_of_subset nodup inside)
    have down := List.Subperm.length_le (List.subperm_of_subset graph.nodes.keys_nodup all)
    exact (up.antisymm down).trans ids_length
  refine ⟨graph.kahn (graph.nodes.size + 1) (graph.indegrees, graph.sources) [], ?_⟩
  simp only [WorkGraph.topoSort, length, ne_eq, not_true_eq_false, if_false]

/-- Every node comes after its dependencies. -/
def Earlier (graph : WorkGraph T) (order : List NodeId) : Prop :=
  ∀ before id after, order = before ++ id :: after → ∀ dep ∈ graph.depsOf id, dep ∈ before

theorem kahn_earlier (fuel : Nat) (pending : Table NodeId Int × List NodeId) (order : List NodeId)
    (before : Pending graph order [] pending) (earlier : Earlier graph order) :
    Earlier graph (graph.kahn fuel pending order) := by
  induction fuel generalizing pending order with
  | zero => exact earlier
  | succ fuel ih =>
    obtain ⟨indegree, queue⟩ := pending
    cases queue with
    | nil => exact earlier
    | cons id queue =>
      have all : ∀ next ∈ graph.dependents id, next ∈ graph.ids := fun next member =>
        WorkGraph.dependsOn_ids (WorkGraph.mem_dependents.mp member)
      have here : id ∈ graph.ids := before.inside id (by simp)
      have degree := before.degree id here
      rw [(before.free id here).mp (by simp), Option.some.injEq, List.count_nil,
        Nat.add_zero] at degree
      have none : (graph.depsOf id).countP (· ∉ order) = 0 := by omega
      refine ih _ _ (before.pop.releases all).sort (NeedsFirst.snoc earlier fun dep named => ?_)
      simpa using List.countP_eq_zero.mp none dep named

/-- An ordered graph is acyclic. -/
theorem topoSort_acyclic {order : List NodeId} (sorted : graph.topoSort = .ordered order) :
    Acyclic graph := by
  obtain ⟨indegree, final⟩ := kahn_pending (graph.nodes.size + 1) _ []
    (Pending.initial graph) (by simp)
  have earlier := kahn_earlier (graph.nodes.size + 1) _ [] (Pending.initial graph)
    (fun before id after split => absurd split (by simp))
  have nodup := final.nodup
  have inside := final.inside
  rw [List.append_nil] at nodup inside
  unfold WorkGraph.topoSort at sorted
  simp only at sorted
  split at sorted
  · cases sorted
  · rename_i length
    cases sorted
    generalize graph.kahn (graph.nodes.size + 1) (graph.indegrees, graph.sources) [] = order at *
    have size : order.length = graph.ids.length := by
      rw [Decidable.not_not.mp length, ids_length]
    have all : ∀ id ∈ graph.ids, id ∈ order := by
      intro id member
      have perm := (List.subperm_of_subset nodup inside).perm_of_length_le size.ge
      exact perm.mem_iff.mpr member
    refine acyclic_of_rank (fun id => if id ∈ order then order.idxOf id + 1 else 0)
      fun a b edge => ?_
    have here := all a (WorkGraph.dependsOn_ids edge)
    rw [if_pos here]
    split
    · rename_i there
      have lower := NeedsFirst.position earlier here (mem_depsOf.mpr ⟨edge, inside b there⟩)
      omega
    · exact Nat.succ_pos _

end Kahn

end Metahumotonic.Agent
