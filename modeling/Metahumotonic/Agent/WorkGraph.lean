import Metahumotonic.Library.JsString
import Metahumotonic.Library.Table
import Metahumotonic.Library.Worklist

/-! The work graph (`ts/src/agent/WorkGraph.ts`): nodes with dependencies and
write-sets, and the scheduling decisions as pure functions. -/
namespace Metahumotonic.Agent

open Library

abbrev NodeId := String

structure WorkNode (T : Type u) where
  id : NodeId
  payload : T
  dependsOn : List NodeId
  writeSet : List String
  deriving DecidableEq, Repr

/-- Nodes in the order of their insertion, each stored under its id. -/
structure WorkGraph (T : Type u) where
  nodes : Table NodeId (WorkNode T)
  named : ∀ id node, nodes.get? id = some node → node.id = id

namespace WorkGraph

variable {T : Type u}

def empty : WorkGraph T := ⟨.empty, nofun⟩

def addNode (graph : WorkGraph T) (node : WorkNode T) : WorkGraph T where
  nodes := graph.nodes.set node.id node
  named := by
    intro id other found
    rw [Table.get?_set] at found
    split at found
    · rename_i same
      cases found
      exact same.symm
    · exact graph.named id other found

def fromNodes (nodes : List (WorkNode T)) : WorkGraph T := nodes.foldl addNode empty

def ids (graph : WorkGraph T) : List NodeId := graph.nodes.keys

/-- Dependency edges that point at nodes which are not in the graph. -/
def danglingEdges (graph : WorkGraph T) : List (NodeId × NodeId) :=
  graph.nodes.values.flatMap fun node =>
    (node.dependsOn.filter (· ∉ graph.ids)).map fun dep => (node.id, dep)

/-- The nodes that depend on a node, once for each time they name it. -/
def dependents (graph : WorkGraph T) (id : NodeId) : List NodeId :=
  graph.nodes.values.flatMap fun node => (node.dependsOn.filter (· = id)).map fun _ => node.id

/-- How often the stack of `descendants` is popped at most. -/
def dependentsFuel (graph : WorkGraph T) (id : NodeId) : Nat :=
  unseen graph.dependents graph.ids.toFinset (graph.dependents id) ∅

/-- Everything reachable downstream of a node. -/
def descendants (graph : WorkGraph T) (id : NodeId) : Finset NodeId :=
  reach graph.dependents (graph.dependentsFuel id) (graph.dependents id)

end WorkGraph

structure RunState where
  done : Finset NodeId := ∅
  running : Finset NodeId := ∅
  blocked : Finset NodeId := ∅
  deriving DecidableEq

def initialRunState : RunState := {}

namespace WorkGraph

variable {T : Type u}

def writeSetOf (graph : WorkGraph T) (id : NodeId) : List String :=
  match graph.nodes.get? id with
  | some node => node.writeSet
  | none => []

/-- Write-sets held by running nodes. -/
def heldLeases (graph : WorkGraph T) (running : Finset NodeId) : Finset String :=
  running.biUnion fun id => (graph.writeSetOf id).toFinset

/-- One planning pass over the nodes: those that may start, each claiming its write-set. -/
def planPass (state : RunState) : Finset String → List (WorkNode T) → List NodeId
  | _, [] => []
  | held, node :: rest =>
    if node.id ∈ state.done ∨ node.id ∈ state.running ∨ node.id ∈ state.blocked then
      planPass state held rest
    else if ¬ ∀ dep ∈ node.dependsOn, dep ∈ state.done then planPass state held rest
    else if ∃ resource ∈ node.writeSet, resource ∈ held then planPass state held rest
    else node.id :: planPass state (held ∪ node.writeSet.toFinset) rest

/-- The nodes that may start right now, sorted. -/
def readySet (graph : WorkGraph T) (state : RunState) : List NodeId :=
  jsSort (planPass state (graph.heldLeases state.running) graph.nodes.values)

/-- Nodes that can never run because an ancestor failed. -/
def newlyBlocked (graph : WorkGraph T) (state : RunState) (failed : NodeId) : Finset NodeId :=
  (graph.descendants failed).filter fun id => id ∉ state.done ∧ id ∉ state.blocked

end WorkGraph

section Structure

variable {T : Type u} {graph : WorkGraph T}

/-- A node of the graph names another as a dependency. -/
def DependsOn (graph : WorkGraph T) (a b : NodeId) : Prop :=
  ∃ node, graph.nodes.get? a = some node ∧ b ∈ node.dependsOn

/-- The first node is a proper ancestor of the second. -/
def Ancestor (graph : WorkGraph T) (a d : NodeId) : Prop := Relation.TransGen (DependsOn graph) d a

def Acyclic (graph : WorkGraph T) : Prop := ∀ id, ¬ Ancestor graph id id

def DanglingFree (graph : WorkGraph T) : Prop := ∀ a b, DependsOn graph a b → b ∈ graph.ids

theorem acyclic_of_rank (rank : NodeId → Nat)
    (lower : ∀ a b, DependsOn graph a b → rank b < rank a) :
    Acyclic graph := by
  have above : ∀ {a d}, Ancestor graph a d → rank a < rank d := by
    intro a d path
    induction path with
    | single edge => exact lower _ _ edge
    | tail _ edge ih => exact (lower _ _ edge).trans ih
  exact fun id path => Nat.lt_irrefl _ (above path)

namespace WorkGraph

theorem mem_ids {id : NodeId} : id ∈ graph.ids ↔ ∃ node, graph.nodes.get? id = some node :=
  Table.mem_keys _ _

theorem mem_values {node : WorkNode T} :
    node ∈ graph.nodes.values ↔ graph.nodes.get? node.id = some node := by
  rw [Table.mem_values]
  constructor
  · rintro ⟨id, found⟩
    rw [graph.named id node found]
    exact found
  · exact fun found => ⟨_, found⟩

theorem foldl_addNode_get {nodes : List (WorkNode T)} {start : WorkGraph T} {id : NodeId}
    {node : WorkNode T}
    (found : (nodes.foldl addNode start).nodes.get? id = some node) :
    node ∈ nodes ∨ start.nodes.get? id = some node := by
  induction nodes generalizing start with
  | nil => exact .inr found
  | cons head rest ih =>
    rcases ih found with later | before
    · exact .inl (List.mem_cons_of_mem _ later)
    · simp only [addNode, Table.get?_set] at before
      split at before
      · cases before
        exact .inl List.mem_cons_self
      · exact .inr before

theorem foldl_addNode_ids {nodes : List (WorkNode T)} {start : WorkGraph T} {id : NodeId} :
    id ∈ (nodes.foldl addNode start).ids ↔ (∃ node ∈ nodes, node.id = id) ∨ id ∈ start.ids := by
  induction nodes generalizing start with
  | nil => simp
  | cons head rest ih =>
    rw [List.foldl_cons, ih]
    have here : id ∈ (start.addNode head).ids ↔ head.id = id ∨ id ∈ start.ids :=
      (Table.mem_keys_set _ _ _ _).trans (or_congr_left eq_comm)
    rw [here]
    simp only [List.mem_cons, exists_eq_or_imp, or_assoc, or_left_comm]

/-- Every node of the graph is one of those it was built from. -/
theorem fromNodes_get {nodes : List (WorkNode T)} {id : NodeId} {node : WorkNode T}
    (found : (fromNodes nodes).nodes.get? id = some node) : node ∈ nodes :=
  (foldl_addNode_get found).resolve_right fun none_ => by cases none_

theorem fromNodes_ids {nodes : List (WorkNode T)} {id : NodeId} :
    id ∈ (fromNodes nodes).ids ↔ ∃ node ∈ nodes, node.id = id :=
  foldl_addNode_ids.trans (or_iff_left fun none_ => by cases none_)

/-- A graph is acyclic where every node ranks above the nodes that it names. -/
theorem acyclic_of_values (rank : NodeId → Nat)
    (lower : ∀ node ∈ graph.nodes.values, ∀ dep ∈ node.dependsOn, rank dep < rank node.id) :
    Acyclic graph := by
  apply acyclic_of_rank rank
  rintro a b ⟨node, found, named⟩
  have home := graph.named a node found
  subst home
  exact lower node (mem_values.mpr found) b named

theorem values_ids (graph : WorkGraph T) : graph.nodes.values.map (·.id) = graph.ids := by
  unfold Table.values ids Table.keys
  rw [List.map_map]
  apply List.map_congr_left
  rintro ⟨id, node⟩ member
  exact graph.named id node ((Table.mem_entries _ _ _).mp member)

theorem danglingEdges_nil : graph.danglingEdges = [] ↔ DanglingFree graph := by
  simp only [danglingEdges, List.flatMap_eq_nil_iff, List.map_eq_nil_iff, List.filter_eq_nil_iff,
    decide_eq_true_eq, Decidable.not_not]
  constructor
  · rintro inside a b ⟨node, found, dep⟩
    have member : node ∈ graph.nodes.values := (Table.mem_values _ _).mpr ⟨a, found⟩
    exact inside node member b dep
  · intro free node member dep named
    exact free node.id dep ⟨node, mem_values.mp member, named⟩

theorem mem_dependents {a b : NodeId} : a ∈ graph.dependents b ↔ DependsOn graph a b := by
  simp only [dependents, List.mem_flatMap, List.mem_map, List.mem_filter, decide_eq_true_eq,
    DependsOn]
  constructor
  · rintro ⟨node, member, dep, ⟨named, rfl⟩, rfl⟩
    exact ⟨node, mem_values.mp member, named⟩
  · rintro ⟨node, found, named⟩
    have home := graph.named a node found
    exact ⟨node, mem_values.mpr (home ▸ found), b, ⟨named, rfl⟩, home⟩

theorem dependsOn_ids {a b : NodeId} (edge : DependsOn graph a b) : a ∈ graph.ids := by
  obtain ⟨node, found, _⟩ := edge
  exact mem_ids.mpr ⟨node, found⟩

/-- `descendants` finds the nodes that have the given one as a proper ancestor. -/
theorem mem_descendants {id d : NodeId} : d ∈ graph.descendants id ↔ Ancestor graph id d := by
  have found := mem_reach graph.dependents graph.ids.toFinset (graph.dependents id)
    (fun a _ b edge => List.mem_toFinset.mpr (dependsOn_ids (mem_dependents.mp edge)))
    (fun a edge => List.mem_toFinset.mpr (dependsOn_ids (mem_dependents.mp edge)))
    (Nat.le_refl (graph.dependentsFuel id)) d
  rw [descendants, found]
  simp only [mem_dependents]
  constructor
  · rintro ⟨root, edge, path⟩
    refine Relation.TransGen.tail' ?_ edge
    exact Relation.reflTransGen_swap.mp path
  · intro path
    obtain ⟨root, start, edge⟩ := Relation.TransGen.tail'_iff.mp path
    exact ⟨root, edge, Relation.reflTransGen_swap.mpr start⟩

end WorkGraph

end Structure

end Metahumotonic.Agent
