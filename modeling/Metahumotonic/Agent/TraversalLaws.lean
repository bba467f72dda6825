import Metahumotonic.Agent.TraversalSearch
import Mathlib.Algebra.Order.Ring.Int

/-! The laws of the walk: what it visits is a tree of shortest paths in breadth-first order,
a tighter budget truncates it, and a smaller depth leaves out what lies deeper. -/
namespace Metahumotonic.Agent.Traversal

open Library

variable {S : Type u} [LinearOrder S] [Zero S] {opts : WalkOptions S} {kg : Neighbors}
    {seed : String}

/-- An edge that the walk may follow, from one name to another. -/
def Follows (opts : WalkOptions S) (kg : Neighbors) (a b : String) : Prop :=
  ∃ v : Visited, v.name = a ∧ Leads opts kg v b

section Order

theorem order_layered (opts : WalkOptions S) (kg : Neighbors) (seed : String) :
    Search.Layered (·.name) (below opts kg) (·.depth) (seedNode opts kg seed)
      ⟨order opts kg seed, []⟩ :=
  searches_layered (order_searches opts kg seed)

theorem order_found (opts : WalkOptions S) (kg : Neighbors) (seed : String) :
    Search.found ⟨order opts kg seed, []⟩ = order opts kg seed := List.append_nil _

theorem order_head (opts : WalkOptions S) (kg : Neighbors) (seed : String) :
    (order opts kg seed).head? = some (seedNode opts kg seed) := by
  have head := (order_layered opts kg seed).head
  rwa [order_found] at head

theorem order_nodup (opts : WalkOptions S) (kg : Neighbors) (seed : String) :
    ((order opts kg seed).map (·.name)).Nodup := by
  have nodup := (order_layered opts kg seed).nodup
  rwa [order_found] at nodup

theorem order_sorted (opts : WalkOptions S) (kg : Neighbors) (seed : String) :
    (order opts kg seed).Pairwise fun a b => a.depth ≤ b.depth := by
  have sorted := (order_layered opts kg seed).sorted
  rwa [order_found] at sorted

/-- Every node but the first was reached from an earlier one, one level up. -/
theorem order_parent {before after : List Visited} {v : Visited}
    (split : order opts kg seed = before ++ v :: after) (some_ : before ≠ []) :
    ∃ via parent, v.via = some via ∧ parent ∈ before ∧ parent.name = via.from_ ∧
      v.depth = parent.depth + 1 := by
  obtain ⟨parent, earlier, _, child⟩ := (order_layered opts kg seed).parent before v after
    ((order_found opts kg seed).trans split) some_
  have own := (Search.within_below children_depth parent v child).2.2
  obtain ⟨depth, via, held, from_⟩ := children_child own
  exact ⟨via, parent, held, earlier, from_.symm, depth⟩

variable (limited : ∀ name limit, (kg name limit).neighbors.length ≤ limit)
include limited

theorem order_shortest (byName : ∀ n v w, v.name = w.name → opts.score n v = opts.score n w)
    {v : Visited}
    (member : v ∈ order opts kg seed) :
    Search.Hops (Follows opts kg) seed v.depth v.name ∧
      ∀ n, Search.Hops (Follows opts kg) seed n v.name → v.depth ≤ n := by
  have edges : ∀ (a : Visited) x, Follows opts kg a.name x ↔ ∃ b ∈ children opts kg a,
      b.name = x := by
    intro a x
    rw [children_name limited]
    constructor
    · rintro ⟨v, same, n, page, name, blank, type, admitted⟩
      exact ⟨n, same ▸ page, name, blank, type, byName n v a same ▸ admitted⟩
    · exact fun leads => ⟨a, rfl, leads⟩
  have found : v ∈ Search.found ⟨order opts kg seed, []⟩ := (order_found opts kg seed).symm ▸ member
  exact ⟨Search.found_hops children_depth edges rfl (order_searches opts kg seed) v found,
    fun n path =>
    Search.found_shortest children_depth edges rfl (order_searches opts kg seed) rfl v found path⟩

/-- What is visited is a beginning of the breadth-first order. -/
theorem walk_prefix (opts : WalkOptions S) (seed : String) :
    (walk opts kg seed).visited <+: order opts kg seed ∧ (walk opts kg seed).visited ≠ [] := by
  rw [walk_visited limited]
  have head := order_head opts kg seed
  cases opts.maxNodes with
  | none =>
    refine ⟨List.prefix_refl _, fun none_ => ?_⟩
    dsimp only at none_
    rw [none_] at head
    cases head
  | some m =>
    refine ⟨List.take_prefix _ _, fun none_ => ?_⟩
    rcases List.take_eq_nil_iff.mp none_ with zero | empty
    · omega
    · rw [empty] at head
      cases head

end Order

section Work

/-- The visited nodes of a walk, each after the one it was reached from. -/
def Rooted (visited : List Visited) : Prop :=
  ∀ before v after, visited = before ++ v :: after →
    (before = [] ∧ v.via = none) ∨
      ∃ via parent, v.via = some via ∧ parent ∈ before ∧ parent.name = via.from_ ∧
        v.depth = parent.depth + 1

variable {result : WalkResult}

theorem mem_toWorkNodes (rooted : Rooted result.visited) {node : WorkNode Visited} {dep : NodeId}
    (member : node ∈ toWorkNodes result) (named : dep ∈ node.dependsOn) :
    ∃ v ∈ result.visited, ∃ parent ∈ result.visited,
      v.name = node.id ∧ parent.name = dep ∧ parent.depth < v.depth := by
  obtain ⟨v, visited, rfl⟩ := List.mem_map.mp member
  obtain ⟨before, after, split⟩ := List.append_of_mem visited
  rcases rooted before v after split with ⟨_, none_⟩ | ⟨via, parent, held, earlier, from_, depth⟩
  · simp [none_] at named
  · simp only [held, List.mem_singleton] at named
    refine ⟨v, visited, parent, split ▸ List.mem_append_left _ earlier, rfl,
      from_.trans named.symm, ?_⟩
    omega

theorem toWorkNodes_danglingFree (rooted : Rooted result.visited) :
    DanglingFree (WorkGraph.fromNodes (toWorkNodes result)) := by
  rintro a b ⟨node, found, named⟩
  obtain ⟨_, _, parent, visited, _, rfl, _⟩ :=
    mem_toWorkNodes rooted (WorkGraph.fromNodes_get found) named
  exact WorkGraph.fromNodes_ids.mpr ⟨_, List.mem_map_of_mem visited, rfl⟩

theorem toWorkNodes_acyclic (rooted : Rooted result.visited)
    (unique : (result.visited.map (·.name)).Nodup) :
    Acyclic (WorkGraph.fromNodes (toWorkNodes result)) := by
  -- a node ranks by the depth of the visited node of its name
  let rank := fun name => ((result.visited.find? (·.name = name)).map (·.depth)).getD 0
  have ranks : ∀ v ∈ result.visited, rank v.name = v.depth := by
    intro v member
    have found : result.visited.find? (·.name = v.name) = some v := by
      cases first : result.visited.find? (·.name = v.name) with
      | none => simpa using List.find?_eq_none.mp first v member
      | some w =>
        have same : w.name = v.name := by simpa using List.find?_some first
        exact congrArg some (List.inj_on_of_nodup_map unique (List.mem_of_find?_eq_some first)
          member same)
    simp only [rank, found, Option.map_some, Option.getD_some]
  apply WorkGraph.acyclic_of_values rank
  intro node stored dep named
  have member := WorkGraph.fromNodes_get (WorkGraph.mem_values.mp stored)
  obtain ⟨v, visited, parent, above, name, rfl, less⟩ := mem_toWorkNodes rooted member named
  rw [← name, ranks v visited, ranks parent above]
  exact less

end Work

/-- What lies within a depth stands at the beginning of a list in the order of depths. -/
theorem take_filter_depth {nodes : List Visited}
    (sorted : nodes.Pairwise fun a b => a.depth ≤ b.depth) (d k : Nat) :
    (nodes.take k).filter (·.depth ≤ d) = (nodes.filter (·.depth ≤ d)).take k := by
  induction nodes generalizing k with
  | nil => simp
  | cons v rest ih =>
    rw [List.pairwise_cons] at sorted
    cases k with
    | zero => rfl
    | succ k =>
      by_cases low : v.depth ≤ d
      · simp [low, ih sorted.2 k]
      · have none_ : rest.filter (·.depth ≤ d) = [] := by
          rw [List.filter_eq_nil_iff]
          intro w member
          have deep := sorted.1 w member
          simp only [decide_eq_true_eq]
          omega
        have tail := ih sorted.2 k
        rw [none_, List.take_nil] at tail
        simp [low, tail, none_]

/-- What is claimed of every walk. -/
structure WalkLaws (opts : WalkOptions S) (kg : Neighbors) (seed : String) : Prop where
  ends : LoopEnds opts kg seed (kg seed opts.branching) (start opts kg seed)
    (walkState opts kg seed)
  unique : ((walk opts kg seed).visited.map (·.name)).Nodup
  first : ∃ v, (walk opts kg seed).visited.head? = some v ∧ v.name = seed ∧ v.depth = 0
  levels : (walk opts kg seed).visited.Pairwise fun a b => a.depth ≤ b.depth
  shortest : ∀ v ∈ (walk opts kg seed).visited, Search.Hops (Follows opts kg) seed v.depth v.name ∧
    ∀ n, Search.Hops (Follows opts kg) seed n v.name → v.depth ≤ n
  rooted : Rooted (walk opts kg seed).visited
  danglingFree : DanglingFree (WorkGraph.fromNodes (toWorkNodes (walk opts kg seed)))
  acyclic : Acyclic (WorkGraph.fromNodes (toWorkNodes (walk opts kg seed)))
  budget : ∀ m₁ m₂, (∀ m, m₂ = some m → m₁ ≤ m) →
    (walk { opts with maxNodes := some m₁ } kg seed).visited =
      (walk { opts with maxNodes := m₂ } kg seed).visited.take
        (min (max 1 m₁) (walk { opts with maxNodes := m₂ } kg seed).visited.length)
  depth : ∀ d₁ d₂, d₁ ≤ d₂ → (walk { opts with maxDepth := d₁ } kg seed).visited =
    (walk { opts with maxDepth := d₂ } kg seed).visited.filter (·.depth ≤ d₁)

theorem order_depth {d₁ d₂ : Nat} (shallow : d₁ ≤ d₂) :
    order { opts with maxDepth := d₁ } kg seed =
      (order { opts with maxDepth := d₂ } kg seed).filter (·.depth ≤ d₁) := by
  obtain ⟨s, turns, taken, queue⟩ := Search.within_filter children_depth shallow
    (order_searches { opts with maxDepth := d₂ } kg seed) rfl
  have same : Searches { opts with maxDepth := d₁ } kg seed s := turns
  have drained := same.drained (order_searches { opts with maxDepth := d₁ } kg seed) rfl
  rcases drained.cases_head with last | ⟨next, turn, _⟩
  · rw [← taken, last]
  · cases turn with
    | take a rest here =>
      rw [queue] at here
      cases here

/-- The walk visits a tree of shortest paths, and its bounds only cut it off. -/
theorem walk_laws (kg : Neighbors)
    (limited : ∀ name limit, (kg name limit).neighbors.length ≤ limit)
    (opts : WalkOptions S) (byName : ∀ n v w, v.name = w.name → opts.score n v = opts.score n w)
    (seed : String) :
    WalkLaws opts kg seed := by
  obtain ⟨⟨more, whole⟩, nonempty⟩ := walk_prefix limited opts seed
  have sub : (walk opts kg seed).visited.Sublist (order opts kg seed) :=
    (List.prefix_iff_eq_append.mp ⟨more, whole⟩) ▸ List.sublist_append_left _ _
  have rooted : Rooted (walk opts kg seed).visited := by
    intro before v after split
    cases before with
    | nil =>
      have head := order_head opts kg seed
      rw [← whole, split] at head
      cases head
      exact .inl ⟨rfl, rfl⟩
    | cons w before =>
      have inner : order opts kg seed = w :: before ++ v :: (after ++ more) := by
        rw [← whole, split, List.append_assoc]
        rfl
      exact .inr (order_parent inner (List.cons_ne_nil _ _))
  have unique : ((walk opts kg seed).visited.map (·.name)).Nodup :=
    (order_nodup opts kg seed).sublist (sub.map _)
  exact
    { ends := walk_ends limited opts seed
      unique := unique
      first := by
        have head := order_head opts kg seed
        rw [← whole, List.head?_append_of_ne_nil _ nonempty] at head
        exact ⟨_, head, rfl, rfl⟩
      levels := (order_sorted opts kg seed).sublist sub
      shortest := fun v member => order_shortest limited byName (sub.subset member)
      rooted := rooted
      danglingFree := toWorkNodes_danglingFree rooted
      acyclic := toWorkNodes_acyclic rooted unique
      budget := fun m₁ m₂ tighter => by
        rw [walk_visited limited, walk_visited limited]
        have same : order { opts with maxNodes := some m₁ } kg seed = order
          { opts with maxNodes := m₂ } kg seed := rfl
        dsimp only
        rw [same]
        cases m₂ with
        | none =>
          dsimp only
          rw [List.take_eq_take_iff]
          omega
        | some m =>
          have less := tighter m rfl
          dsimp only
          rw [List.take_take, List.length_take, List.take_eq_take_iff]
          omega
      depth := fun d₁ d₂ shallow => by
        rw [walk_visited limited, walk_visited limited, order_depth shallow]
        cases opts.maxNodes with
        | none => rfl
        | some m => exact (take_filter_depth (order_sorted _ kg seed) d₁ (max 1 m)).symm }

section Sample

/-- A cycle with a parallel edge, a loop and an edge to a node without a name. -/
def sampleEdges (name : String) : List GraphNeighbor :=
  if name = "a" then [⟨.out, "knows", "b", []⟩, ⟨.in_, "cites", "b", []⟩, ⟨.out, "knows", "c", []⟩]
  else if name = "b"
    then [⟨.out, "knows", "b", []⟩, ⟨.out, "knows", "", []⟩, ⟨.out, "cites", "c", []⟩]
  else if name = "c" then [⟨.out, "knows", "a", []⟩]
  else []

def sampleKg : Neighbors := fun name limit =>
  ⟨(sampleEdges name).length, (sampleEdges name).take limit, limit < (sampleEdges name).length⟩

theorem sampleKg_limited (name : String) (limit : Nat) :
    (sampleKg name limit).neighbors.length ≤ limit :=
  List.length_take_le _ _

theorem walk_laws_sample : WalkLaws defaultWalk sampleKg "a" :=
  walk_laws sampleKg sampleKg_limited defaultWalk (fun _ _ _ _ => rfl) "a"

end Sample

end Metahumotonic.Agent.Traversal
