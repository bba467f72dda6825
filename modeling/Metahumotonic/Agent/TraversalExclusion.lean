import Metahumotonic.Agent.TraversalSearch
import Mathlib.Algebra.Order.Ring.Int

/-! Excluded edge types. An excluded edge still takes its place on the page that the query
limits, so excluding a type is deleting its edges only where a page hides nothing behind it. -/
namespace Metahumotonic.Agent.Traversal

open Library

structure GraphNode where
  name : Option String
  labels : List String
  deriving DecidableEq, Repr

structure GraphEdge where
  source : Nat
  type : String
  target : Nat
  deriving DecidableEq, Repr

/-- A labelled multigraph; nodes and edges in the order in which the query meets them. -/
structure MultiGraph where
  nodes : List GraphNode
  edges : List GraphEdge

namespace MultiGraph

def without (g : MultiGraph) (types : List String) : MultiGraph :=
  { g with edges := g.edges.filter fun e => e.type ∉ types }

/-- The end of an edge as the query returns it. -/
def neighbor (g : MultiGraph) (direction : Direction) (type : String) (at_ : Nat) :
    GraphNeighbor where
  direction := direction
  type := type
  name := ((g.nodes[at_]?).bind (·.name)).getD ""
  labels := ((g.nodes[at_]?).map (·.labels)).getD []

/-- The edges at a node: those that leave it, then those that enter it. -/
def incident (g : MultiGraph) (i : Nat) : List GraphNeighbor :=
  (g.edges.filter (·.source = i)).map (fun e => g.neighbor .out e.type e.target) ++
    (g.edges.filter (·.target = i)).map fun e => g.neighbor .in_ e.type e.source

/-- `MATCH (n {name: $name}) WITH n LIMIT 1`. -/
def find (g : MultiGraph) (name : String) : Option Nat := g.nodes.findIdx? (·.name = some name)

/-- What the query `NEIGHBORS` makes of a node. -/
def neighbors (g : MultiGraph) : Neighbors := fun name limit =>
  match g.find name with
  | none => ⟨0, [], false⟩
  | some i =>
    let degree := g.edges.countP fun e => e.source = i ∨ e.target = i
    let page := (g.incident i).take limit
    ⟨degree, page, page.length < degree⟩

/-- The edges at the node of a name. -/
def edgesAt (g : MultiGraph) (name : String) : List GraphNeighbor :=
  match g.find name with
  | none => []
  | some i => g.incident i

/-- The page of a name shows no excluded edge, or hides excluded edges only. -/
def HidesNothing (g : MultiGraph) (types : List String) (limit : Nat) (name : String) : Prop :=
  (∀ e ∈ (g.edgesAt name).take limit, e.type ∉ types) ∨ ∀ e ∈ (g.edgesAt name).drop limit,
    e.type ∈ types

instance (g : MultiGraph) (types : List String) (limit : Nat) (name : String) :
    Decidable (g.HidesNothing types limit name) := inferInstanceAs (Decidable (_ ∨ _))

theorem neighbors_page (g : MultiGraph) (name : String) (limit : Nat) :
    (g.neighbors name limit).neighbors = (g.edgesAt name).take limit := by
  unfold neighbors edgesAt
  cases g.find name with
  | none => exact (List.take_nil).symm
  | some i => rfl

theorem edgesAt_without (g : MultiGraph) (types : List String) (name : String) :
    (g.without types).edgesAt name = (g.edgesAt name).filter fun e => e.type ∉ types := by
  have same : (g.without types).find name = g.find name := rfl
  unfold edgesAt
  rw [same]
  cases g.find name with
  | none => rfl
  | some i =>
    simp only [incident, without, List.filter_append, List.filter_map, List.filter_filter]
    congr 2
    · apply List.filter_congr
      intro e _
      exact Bool.and_comm _ _
    · apply List.filter_congr
      intro e _
      exact Bool.and_comm _ _

/-- Where a page hides nothing, it makes no difference when the excluded edges are left out. -/
theorem HidesNothing.page {g : MultiGraph} {types : List String} {limit : Nat} {name : String}
    (nothing : g.HidesNothing types limit name) :
    ((g.edgesAt name).take limit).filter (fun e => e.type ∉ types) =
    ((g.without types).edgesAt name).take limit := by
  rw [edgesAt_without]
  unfold HidesNothing at nothing
  generalize g.edgesAt name = all at nothing
  have split : (all.filter fun e => e.type ∉ types) =
      (all.take limit).filter (fun e => e.type ∉ types) ++ (all.drop limit).filter fun e =>
        e.type ∉ types := by
    rw [← List.filter_append, List.take_append_drop]
  rcases nothing with shown | hidden
  · have whole : (all.take limit).filter (fun e => e.type ∉ types) = all.take limit := by
      rw [List.filter_eq_self]
      simpa using shown
    rw [split, whole]
    by_cases long : limit ≤ all.length
    · rw [List.take_append_of_le_length (by rw [List.length_take]; omega), List.take_take,
        Nat.min_self]
    · have none_ : all.drop limit = [] := List.drop_eq_nil_of_le (by omega)
      rw [none_, List.filter_nil, List.append_nil, List.take_take, Nat.min_self]
  · have none_ : (all.drop limit).filter (fun e => e.type ∉ types) = [] := by
      rw [List.filter_eq_nil_iff]
      simpa using hidden
    rw [split, none_, List.append_nil, Eq.comm, List.take_of_length_le]
    exact (List.length_filter_le _ _).trans (List.length_take_le _ _)

end MultiGraph

section Alike

variable {S : Type u} [LinearOrder S] [Zero S] {left right : WalkOptions S} {kg others : Neighbors}
    {seed : String}

/-- A visited node without what only its own page says. -/
def bare (v : Visited) : Visited := { v with degree := 0, truncated := false }

/-- States of two walks that differ in the degrees of visited nodes at most. -/
structure Alike (s t : WalkState) : Prop where
  seen : s.seen = t.seen
  visited : s.visited.map bare = t.visited.map bare
  unexplored : s.unexplored = t.unexplored
  queue : s.queue.map bare = t.queue.map bare
  stopped : s.stoppedBecause = t.stoppedBecause

theorem reached_alike {v w : Visited} (same : bare v = bare w) (n : GraphNeighbor) :
    reached v n = reached w n := by
  have depth : v.depth = w.depth := congrArg (·.depth) same
  have name : v.name = w.name := congrArg (·.name) same
  rw [reached, reached, depth, name]

omit [LinearOrder S] [Zero S] in
theorem Alike.full (budget : left.maxNodes = right.maxNodes) {s t : WalkState} (alike : Alike s t) :
    left.full s.visited.length = right.full t.visited.length := by
  have count : s.visited.length = t.visited.length := by
    simpa using congrArg List.length alike.visited
  rw [WalkOptions.full, WalkOptions.full, budget, count]

omit [LinearOrder S] [Zero S] in
theorem Alike.offers (budget : left.maxNodes = right.maxNodes) {v w : Visited}
    (same : bare v = bare w)
    (ns : List GraphNeighbor) {s t : WalkState} (alike : Alike s t) :
    Alike (ns.foldl (offer left v) s) (ns.foldl (offer right w) t) := by
  induction ns generalizing s t with
  | nil => exact alike
  | cons n rest ih =>
    apply ih
    unfold offer
    rw [alike.seen, alike.full budget]
    split
    · exact alike
    · split
      · exact ⟨rfl, alike.visited, by rw [alike.unexplored], alike.queue, rfl⟩
      · refine ⟨rfl, ?_, alike.unexplored, ?_, alike.stopped⟩
        · rw [List.map_append, List.map_append, alike.visited, reached_alike same]
        · rw [List.map_append, List.map_append, alike.queue, reached_alike same]

/-- Nodes from which both walks have the same candidates. -/
def Agree (left right : WalkOptions S) (kg others : Neighbors) (v : Visited) : Prop :=
  ∀ w seen, bare v = bare w → candidates left (kg v.name left.branching) v seen =
    candidates right (others w.name right.branching) w seen

theorem drain_alike {s t : WalkState} (alike : Alike s t) : Alike (drain s) (drain t) := by
  refine ⟨alike.seen, alike.visited, ?_, rfl, rfl⟩
  have names : ∀ queue : List Visited, queue.map (·.name) = (queue.map bare).map (·.name) := by
    intro queue
    rw [List.map_map]
    rfl
  rw [drain, drain, alike.unexplored, names s.queue, names t.queue, alike.queue]

theorem turn_expanded (opts : WalkOptions S) (kg : Neighbors) (v : Visited) (s : WalkState) :
    (Traversal.turn opts kg seed (kg seed opts.branching) v s).expanded =
      if opts.maxDepth ≤ v.depth then s.expanded else s.expanded ++ [v] := by
  unfold Traversal.turn
  split
  · rfl
  · simp only [page_eq]
    split <;> rfl

theorem loop_expanded (opts : WalkOptions S) (kg : Neighbors) (fuel : Nat) (s : WalkState) :
    s.expanded ⊆ (loop opts kg seed (kg seed opts.branching) fuel s).expanded := by
  induction fuel generalizing s with
  | zero => exact List.Subset.refl _
  | succ fuel ih =>
    unfold loop
    split
    · exact List.Subset.refl _
    · rename_i v rest here
      apply List.Subset.trans _ (ih _)
      rw [turn_expanded]
      split
      · exact List.Subset.refl _
      · exact List.subset_append_left _ _

variable (budget : left.maxNodes = right.maxNodes) (depth : left.maxDepth = right.maxDepth)
include budget depth

theorem Alike.turn {v w : Visited} (same : bare v = bare w) {s t : WalkState} (alike : Alike s t)
    (agree : v.depth < left.maxDepth → Agree left right kg others v) :
    Alike (Traversal.turn left kg seed (kg seed left.branching) v s)
      (Traversal.turn right others seed (others seed right.branching) w t) := by
  have deep : v.depth = w.depth := congrArg (·.depth) same
  unfold Traversal.turn
  rw [← depth, deep]
  split
  · exact ⟨alike.seen, alike.visited, alike.unexplored, alike.queue, rfl⟩
  · rename_i above
    have offered : Alike ((candidates left (kg v.name left.branching) v s.seen).foldl
        (offer left v) s)
        ((candidates left (kg v.name left.branching) v s.seen).foldl (offer right w) t) :=
      alike.offers budget same _
    have ns := agree (by omega) w s.seen same
    simp only [page_eq, ← alike.seen, ← ns, offered.full budget]
    split
    · exact drain_alike ⟨offered.seen, offered.visited, offered.unexplored, offered.queue,
        offered.stopped⟩
    · exact ⟨offered.seen, offered.visited, offered.unexplored, offered.queue, offered.stopped⟩

/-- Walks with the same candidates at every expanded node stay alike. -/
theorem Alike.loop (fuel : Nat) {s t : WalkState} (alike : Alike s t)
    (agree : ∀ v ∈ (Traversal.loop left kg seed (kg seed left.branching) fuel s).expanded,
      Agree left right kg others v) :
    Alike (Traversal.loop left kg seed (kg seed left.branching) fuel s)
      (Traversal.loop right others seed (others seed right.branching) fuel t) := by
  induction fuel generalizing s t with
  | zero => exact alike
  | succ fuel ih =>
    unfold Traversal.loop at agree ⊢
    cases mine : s.queue with
    | nil =>
      have theirs := alike.queue
      rw [mine, List.map_nil, Eq.comm, List.map_eq_nil_iff] at theirs
      rw [theirs]
      exact alike
    | cons v rest =>
      cases theirs : t.queue with
      | nil =>
        have none_ := alike.queue
        rw [mine, theirs] at none_
        cases none_
      | cons w others_ =>
        have both := alike.queue
        rw [mine, theirs, List.map_cons, List.map_cons, List.cons.injEq] at both
        simp only [mine] at agree
        apply ih _ agree
        have popped : Alike { s with queue := rest } { t with queue := others_ } :=
          ⟨alike.seen, alike.visited, alike.unexplored, both.2, alike.stopped⟩
        apply popped.turn budget depth both.1
        intro above
        apply agree
        apply loop_expanded
        rw [turn_expanded, if_neg (Nat.not_le.mpr above)]
        exact List.mem_append_right _ List.mem_cons_self

end Alike

section Exclusion

/-- What a reader compares: names, depths and order of the visited nodes, and the names left over.
-/
def outline (result : WalkResult) : List (String × Nat) × List String :=
  (result.visited.map fun v => (v.name, v.depth), result.unexplored)

/-- Excluded types over a graph, in a walk with these bounds. -/
def excluding (maxNodes : Option Nat) (maxDepth branching : Nat) (types : List String) :
    WalkOptions Int :=
  { maxNodes := maxNodes, maxDepth := maxDepth, branching := branching, score := defaultScore,
    excludeTypes := types }

variable {maxNodes : Option Nat} {maxDepth branching : Nat} {types : List String} {g : MultiGraph}

theorem agree_of_page {v : Visited} (nothing : g.HidesNothing types branching v.name) :
    Agree (excluding maxNodes maxDepth branching types) (excluding maxNodes maxDepth branching [])
      g.neighbors (g.without types).neighbors v := by
  intro w seen same
  have name : v.name = w.name := congrArg (·.name) same
  have page : ((g.without types).neighbors w.name branching).neighbors =
      ((g.neighbors v.name branching).neighbors).filter fun e => e.type ∉ types := by
    rw [MultiGraph.neighbors_page, MultiGraph.neighbors_page, ← name, nothing.page]
  have either : ∀ e : GraphNeighbor, decide (e.name ≠ "" ∧ e.type ∉ types ∧ e.name ∉ seen) =
      (decide (e.name ≠ "" ∧ e.name ∉ seen) && decide (e.type ∉ types)) := by
    intro e
    rw [← Bool.decide_and, decide_eq_decide]
    tauto
  simp only [candidates, excluding, page, List.filter_filter, List.not_mem_nil,
    not_false_eq_true, true_and]
  congr 5
  apply List.filter_congr
  intro e _
  exact either e

/-- Where no page that the walk reads hides an edge behind an excluded one, excluding the
types is deleting their edges. -/
theorem excluded_is_deleted (maxNodes : Option Nat) (maxDepth branching : Nat) (types : List String)
    (g : MultiGraph) (seed : String)
    (nothing : ∀ v ∈ (walkState (excluding maxNodes maxDepth branching types) g.neighbors
      seed).expanded,
      g.HidesNothing types branching v.name) :
    outline (walk (excluding maxNodes maxDepth branching types) g.neighbors seed) =
      outline (walk (excluding maxNodes maxDepth branching [])
        (g.without types).neighbors seed) := by
  have started : Alike (start (excluding maxNodes maxDepth branching types) g.neighbors seed)
      (start (excluding maxNodes maxDepth branching []) (g.without types).neighbors seed) :=
    ⟨rfl, rfl, rfl, rfl, rfl⟩
  have budget : (excluding maxNodes maxDepth branching types).maxNodes =
      (excluding maxNodes maxDepth branching []).maxNodes := rfl
  have depth : (excluding maxNodes maxDepth branching types).maxDepth =
      (excluding maxNodes maxDepth branching []).maxDepth := rfl
  have alike : Alike (walkState (excluding maxNodes maxDepth branching types) g.neighbors seed)
      (walkState (excluding maxNodes maxDepth branching []) (g.without types).neighbors seed) :=
    started.loop budget depth _ fun v member => agree_of_page (nothing v member)
  have names : ∀ nodes : List Visited, nodes.map (fun v => (v.name, v.depth)) =
      (nodes.map bare).map fun v => (v.name, v.depth) := by
    intro nodes
    rw [List.map_map]
    rfl
  have visited : (walk (excluding maxNodes maxDepth branching types) g.neighbors seed).visited.map
      (fun v => (v.name, v.depth)) = (walk (excluding maxNodes maxDepth branching [])
        (g.without types).neighbors seed).visited.map fun v => (v.name, v.depth) :=
    (names _).trans ((congrArg _ alike.visited).trans (names _).symm)
  have unexplored : (walk (excluding maxNodes maxDepth branching types) g.neighbors
      seed).unexplored =
      (walk (excluding maxNodes maxDepth branching []) (g.without types).neighbors seed).unexplored
        :=
    congrArg (fun names : List String => jsSort names.dedup) alike.unexplored
  rw [outline, outline, visited, unexplored]

end Exclusion

section Sample

/-- A hub that cites one node and knows another. -/
def hubGraph : MultiGraph where
  nodes := [⟨some "hub", []⟩, ⟨some "b", []⟩, ⟨some "c", []⟩]
  edges := [⟨0, "CITES", 1⟩, ⟨0, "KNOWS", 2⟩]

theorem excluded_is_deleted_sample :
    outline (walk (excluding (some 5) 1 2 ["CITES"]) hubGraph.neighbors "hub") =
      outline (walk (excluding (some 5) 1 2 []) (hubGraph.without ["CITES"]).neighbors "hub") :=
  excluded_is_deleted (some 5) 1 2 ["CITES"] hubGraph "hub" (by decide)

/-- The excluded edge fills the page of the hub, and the other edge is not seen. -/
theorem excluded_edge_fills_page :
    outline (walk (excluding (some 5) 1 1 ["CITES"]) hubGraph.neighbors "hub") ≠
      outline (walk (excluding (some 5) 1 1 []) (hubGraph.without ["CITES"]).neighbors "hub") := by
  decide

end Sample

end Metahumotonic.Agent.Traversal
