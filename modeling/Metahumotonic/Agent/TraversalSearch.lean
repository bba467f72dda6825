import Metahumotonic.Agent.Traversal
import Metahumotonic.Library.BreadthFirst
import Mathlib.Data.List.Sort

/-! The walk is a breadth-first search. Without a budget it is the search itself; with one it
goes along with the search up to the turn that uses up the budget. -/
namespace Metahumotonic.Agent.Traversal

open Library

section Ranking

variable {β : Type*} {r : β → β → Prop} [DecidableRel r]

/-- What is inserted goes before or behind the elements that are left out as if they were not there.
-/
theorem orderedInsert_filter [IsTrans β r] {b : β} {sorted : List β} (order : sorted.Pairwise r)
    (keep : β → Bool) :
    (sorted.orderedInsert r b).filter keep =
      if keep b then (sorted.filter keep).orderedInsert r b else sorted.filter keep := by
  induction sorted with
  | nil => by_cases kept : keep b = true <;> simp [kept]
  | cons c rest ih =>
    rw [List.pairwise_cons] at order
    by_cases first : r b c
    · rw [List.orderedInsert_cons_of_le r rest first]
      by_cases kept : keep b = true
      · rw [List.filter_cons_of_pos kept, if_pos kept]
        cases left : (c :: rest).filter keep with
        | nil => rfl
        | cons d more =>
          have before : r b d := by
            have member : d ∈ (c :: rest).filter keep := left ▸ List.mem_cons_self
            rcases List.mem_cons.mp (List.mem_filter.mp member).1 with rfl | later
            · exact first
            · exact IsTrans.trans _ _ _ first (order.1 d later)
          rw [List.orderedInsert_cons_of_le r more before]
      · rw [List.filter_cons_of_neg kept, if_neg kept]
    · rw [List.orderedInsert_of_not_le r rest first, List.filter_cons, ih order.2, List.filter_cons]
      by_cases kept : keep b = true
      · by_cases head : keep c = true
        · simp only [kept, head, if_true]
          rw [List.orderedInsert_of_not_le r _ first]
        · simp only [kept, head, if_true, Bool.false_eq_true, if_false]
      · simp only [kept, Bool.false_eq_true, if_false]

theorem insertionSort_filter [IsTrans β r] [Std.Total r] (keep : β → Bool) (items : List β) :
    (items.filter keep).insertionSort r = (items.insertionSort r).filter keep := by
  induction items with
  | nil => rfl
  | cons b rest ih =>
    rw [List.insertionSort_cons, orderedInsert_filter (List.pairwise_insertionSort r rest)]
    by_cases kept : keep b = true
    · rw [List.filter_cons_of_pos kept, if_pos kept, List.insertionSort_cons, ih]
    · rw [List.filter_cons_of_neg kept, if_neg kept, ih]

end Ranking

variable {S : Type u} [LinearOrder S] [Zero S] {opts : WalkOptions S} {kg : Neighbors}
    {seed : String}

/-- An edge on the page of a node leads to a name and may be followed. -/
def Leads (opts : WalkOptions S) (kg : Neighbors) (v : Visited) (name : String) : Prop :=
  ∃ n ∈ (kg v.name opts.branching).neighbors,
    n.name = name ∧ n.name ≠ "" ∧ n.type ∉ opts.excludeTypes ∧ 0 ≤ opts.score n v

/-- The nodes that a node leads to, best first. -/
def children (opts : WalkOptions S) (kg : Neighbors) (v : Visited) : List Visited :=
  (candidates opts (kg v.name opts.branching) v ∅).map (reached v)

abbrev below (opts : WalkOptions S) (kg : Neighbors) : Visited → List Visited :=
  Search.within (·.depth) (children opts kg) opts.maxDepth

def seedNode (opts : WalkOptions S) (kg : Neighbors) (seed : String) : Visited :=
  ⟨seed, 0, (kg seed opts.branching).degree, none, (kg seed opts.branching).truncated⟩

/-- The search that the walk follows. -/
abbrev Searches (opts : WalkOptions S) (kg : Neighbors) (seed : String)
    (q : Search Visited) : Prop :=
  Search.Turns (·.name) (below opts kg) (.start (seedNode opts kg seed)) q

/-- The nodes in breadth-first order. -/
def order (opts : WalkOptions S) (kg : Neighbors) (seed : String) : List Visited :=
  (Search.explore (·.name) (below opts kg) (turns opts) (.start (seedNode opts kg seed))).taken

section Candidates

theorem mem_candidates {page : NodeNeighbors} (short : page.neighbors.length ≤ opts.branching)
    {v : Visited}
    {seen : Finset String} {n : GraphNeighbor} : n ∈ candidates opts page v seen ↔
      n ∈ page.neighbors ∧ n.name ≠ "" ∧ n.type ∉ opts.excludeTypes ∧ n.name ∉ seen ∧
        0 ≤ opts.score n v := by
  dsimp only [candidates]
  rw [List.take_of_length_le]
  · simp only [List.mem_map, List.mem_insertionSort, List.mem_filter, decide_eq_true_eq,
      Prod.exists, Prod.mk.injEq]
    constructor
    · rintro ⟨m, s, ⟨⟨o, ⟨member, blank, type, new⟩, rfl, rfl⟩, admitted⟩, rfl⟩
      exact ⟨member, blank, type, new, admitted⟩
    · rintro ⟨member, blank, type, new, admitted⟩
      exact ⟨n, _, ⟨⟨n, ⟨member, blank, type, new⟩, rfl, rfl⟩, admitted⟩, rfl⟩
  · rw [List.length_insertionSort]
    exact (List.length_filter_le _ _).trans
      ((List.length_map _).trans_le ((List.length_filter_le _ _).trans short))

/-- What was seen before is left out of the candidates, whatever their order. -/
theorem candidates_seen {page : NodeNeighbors} (short : page.neighbors.length ≤ opts.branching)
    (v : Visited)
    (seen : Finset String) :
    candidates opts page v seen = (candidates opts page v ∅).filter fun n => n.name ∉ seen := by
  let r : GraphNeighbor × S → GraphNeighbor × S → Prop := fun a b => b.2 ≤ a.2
  have trans : IsTrans (GraphNeighbor × S) r := ⟨fun a b c ab bc => le_trans bc ab⟩
  have total : Std.Total r := ⟨fun a b => le_total b.2 a.2⟩
  let pairs := (page.neighbors.filter fun n => n.name ≠ "" ∧ n.type ∉ opts.excludeTypes ∧
    n.name ∉ (∅ : Finset String)).map
    fun n => (n, opts.score n v)
  have scored : ((page.neighbors.filter fun n => n.name ≠ "" ∧ n.type ∉ opts.excludeTypes ∧
      n.name ∉ seen).map
      fun n => (n, opts.score n v)) = pairs.filter fun c => c.1.name ∉ seen := by
    simp only [pairs, List.filter_map, List.filter_filter]
    congr 1
    apply List.filter_congr
    intro n _
    simp only [Function.comp, Finset.notMem_empty, not_false_eq_true, and_true, ← Bool.decide_and,
      decide_eq_decide]
    tauto
  have few : (pairs.filter fun c => 0 ≤ c.2).length ≤ opts.branching :=
    (List.length_filter_le _ _).trans
      ((List.length_map _).trans_le ((List.length_filter_le _ _).trans short))
  have sorts : ((pairs.filter fun c => c.1.name ∉ seen).filter fun c => 0 ≤ c.2).insertionSort r =
      ((pairs.filter fun c => 0 ≤ c.2).insertionSort r).filter fun c => c.1.name ∉ seen := by
    rw [← insertionSort_filter, List.filter_filter, List.filter_filter]
    simp only [Bool.and_comm]
  have left : candidates opts page v seen =
      ((((pairs.filter fun c => c.1.name ∉ seen).filter fun c => 0 ≤ c.2).insertionSort r).take
        opts.branching).map
        (·.1) := by
    rw [← scored]
    rfl
  have right : candidates opts page v ∅ =
      (((pairs.filter fun c => 0 ≤ c.2).insertionSort r).take opts.branching).map (·.1) := rfl
  rw [left, right, sorts, List.take_of_length_le, List.take_of_length_le]
  · exact (List.filter_map (f := fun c : GraphNeighbor × S => c.1)
      (p := fun n => decide (n.name ∉ seen))).symm
  · rwa [List.length_insertionSort]
  · exact (List.length_filter_le _ _).trans (by rwa [List.length_insertionSort])

variable (limited : ∀ name limit, (kg name limit).neighbors.length ≤ limit)
include limited

theorem children_name {v : Visited} {name : String} : (∃ w ∈ children opts kg v, w.name = name) ↔
    Leads opts kg v name := by
  simp only [children, List.mem_map, mem_candidates (limited _ _), Finset.notMem_empty,
    not_false_eq_true, true_and]
  constructor
  · rintro ⟨w, ⟨n, ⟨member, blank, type, admitted⟩, rfl⟩, rfl⟩
    exact ⟨n, member, rfl, blank, type, admitted⟩
  · rintro ⟨n, member, rfl, blank, type, admitted⟩
    exact ⟨_, ⟨n, ⟨member, blank, type, admitted⟩, rfl⟩, rfl⟩

theorem fresh_candidates (v : Visited) (seen : Finset String) :
    fresh (·.name) seen ((candidates opts (kg v.name opts.branching) v seen).map (reached v)) =
      fresh (·.name) seen (children opts kg v) := by
  have same : (candidates opts (kg v.name opts.branching) v seen).map (reached v) =
      (children opts kg v).filter fun w => w.name ∉ seen := by
    rw [candidates_seen (limited _ _), children, List.filter_map]
    rfl
  rw [same]
  apply fresh_filter
  intro w _ out
  simpa using out

end Candidates

theorem children_child {v w : Visited} (child : w ∈ children opts kg v) :
    w.depth = v.depth + 1 ∧ ∃ via, w.via = some via ∧ via.from_ = v.name := by
  obtain ⟨n, _, rfl⟩ := List.mem_map.mp child
  exact ⟨rfl, _, rfl, rfl⟩

theorem children_short (v : Visited) : (children opts kg v).length ≤ opts.branching := by
  unfold children candidates
  simp only [List.length_map]
  exact List.length_take_le _ _

theorem children_depth (v w : Visited) (child : w ∈ children opts kg v) : w.depth = v.depth + 1 :=
  (children_child child).1

section Offers

/-- The new nodes for which there is room. -/
def kept (opts : WalkOptions S) (count : Nat) (new : List Visited) : List Visited :=
  match opts.maxNodes with
  | none => new
  | some m => new.take (m - count)

def lost (opts : WalkOptions S) (count : Nat) (new : List Visited) : List Visited :=
  match opts.maxNodes with
  | none => []
  | some m => new.drop (m - count)

omit [LinearOrder S] [Zero S] in
theorem kept_append_lost (opts : WalkOptions S) (count : Nat) (new : List Visited) :
    kept opts count new ++ lost opts count new = new := by
  unfold kept lost
  cases opts.maxNodes with
  | none => exact List.append_nil new
  | some m => exact List.take_append_drop _ new

omit [LinearOrder S] [Zero S] in
theorem kept_cons {count : Nat} (room : opts.full count = false) (v : Visited)
    (new : List Visited) :
    kept opts count (v :: new) = v :: kept opts (count + 1) new ∧
      lost opts count (v :: new) = lost opts (count + 1) new := by
  unfold kept lost
  unfold WalkOptions.full at room
  cases budget : opts.maxNodes with
  | none => exact ⟨rfl, rfl⟩
  | some m =>
    simp only [budget, decide_eq_false_iff_not] at room
    have one : m - count = (m - (count + 1)) + 1 := by omega
    simp only [one, List.take_succ_cons, List.drop_succ_cons, and_self]

omit [LinearOrder S] [Zero S] in
theorem kept_full {count : Nat} (full : opts.full count = true) (new : List Visited) :
    kept opts count new = [] ∧ lost opts count new = new := by
  unfold kept lost
  unfold WalkOptions.full at full
  cases budget : opts.maxNodes with
  | none => simp [budget] at full
  | some m =>
    simp only [budget, decide_eq_true_eq] at full
    simp only [Nat.sub_eq_zero_of_le full, List.take_zero, List.drop_zero, and_self]

omit [LinearOrder S] [Zero S] in
/-- All candidates of a turn: the new nodes are visited and queued while there is room. -/
theorem offers (current : Visited) (ns : List GraphNeighbor) (s : WalkState) :
    ns.foldl (offer opts current) s =
      { s with
        seen := s.seen ∪ ((fresh (·.name) s.seen (ns.map (reached current))).map (·.name)).toFinset
        visited := s.visited ++ kept opts s.visited.length
          (fresh (·.name) s.seen (ns.map (reached current)))
        queue := s.queue ++ kept opts s.visited.length
          (fresh (·.name) s.seen (ns.map (reached current)))
        unexplored := s.unexplored ++
          (lost opts s.visited.length (fresh (·.name) s.seen (ns.map (reached current)))).map
          (·.name)
        stoppedBecause := if lost opts s.visited.length
          (fresh (·.name) s.seen (ns.map (reached current))) = []
          then s.stoppedBecause else .maxNodes } := by
  induction ns generalizing s with
  | nil =>
    have none_ : kept opts s.visited.length [] = [] ∧ lost opts s.visited.length [] = [] :=
      List.append_eq_nil_iff.mp (kept_append_lost opts _ _)
    simp [fresh, none_]
  | cons n rest ih =>
    rw [List.foldl_cons, ih]
    by_cases old : n.name ∈ s.seen
    · have known : (reached current n).name ∈ s.seen := old
      simp only [offer, old, if_true, List.map_cons, fresh, known]
    · have new : (reached current n).name ∉ s.seen := old
      cases full : opts.full s.visited.length with
      | true =>
        simp only [offer, old, full, if_true, if_false, List.map_cons, fresh, new, kept_full full,
          List.append_nil, List.map_cons, List.append_assoc, List.singleton_append, reduceCtorEq,
          List.toFinset_cons, Finset.union_insert, Finset.insert_union, ite_self]
        rfl
      | false =>
        simp only [offer, old, full, Bool.false_eq_true, if_false, List.map_cons, fresh, new,
          kept_cons full, List.length_append, List.length_singleton, List.append_assoc,
            List.singleton_append,
          List.toFinset_cons, Finset.union_insert, Finset.insert_union]
        rfl

end Offers

section Run

/-- The search that the walk follows, in every state of it. -/
theorem searches_layered {q : Search Visited} (searches : Searches opts kg seed q) :
    Search.Layered (·.name) (below opts kg) (·.depth) (seedNode opts kg seed) q :=
  Search.within_turns children_depth searches

/-- A walk and a search that have gone the same way. -/
structure Matches (opts : WalkOptions S) (s : WalkState) (q : Search Visited) : Prop where
  visited : s.visited = q.found
  queue : s.queue = q.queue
  seen : s.seen = (q.found.map (·.name)).toFinset
  unexplored : s.unexplored = []
  expanded : s.expanded = q.taken.filter (·.depth < opts.maxDepth)
  stopped : s.stoppedBecause = if q.taken.all (·.depth < opts.maxDepth) then .exhausted
    else .maxDepth
  room : s.expanded = [] ∨ opts.full s.visited.length = false
  fits : ∀ m, opts.maxNodes = some m → s.visited.length ≤ max 1 m

/-- The budget was used up by the last turn of the search. -/
structure Cut (opts : WalkOptions S) (kg : Neighbors) (seed : String) (m : Nat) (s : WalkState)
    (q : Search Visited) :
    Prop where
  budget : opts.maxNodes = some m
  queue : s.queue = []
  visited : s.visited = q.found.take (max 1 m)
  enough : max 1 m ≤ q.found.length
  unexplored : ∀ name, name ∈ s.unexplored ↔ name ∈ q.queue.map (·.name)
  expanded : s.expanded = q.taken
  above : ∀ v ∈ q.taken, v.depth < opts.maxDepth
  stopped : s.stoppedBecause = .maxNodes
  last : ∃ p a rest, Searches opts kg seed p ∧ p.queue = a :: rest ∧
    q = p.take (·.name) (below opts kg) a rest ∧
    p.found.length ≤ max 1 m ∧ (p.taken = [] ∨ p.found.length < max 1 m)

omit [LinearOrder S] [Zero S] in
theorem Matches.start : Matches opts (start opts kg seed) (.start (seedNode opts kg seed)) where
  visited := rfl
  queue := rfl
  seen := by simp [Traversal.start, Search.start, Search.found, seedNode]
  unexplored := rfl
  expanded := rfl
  stopped := rfl
  room := .inl rfl
  fits m _ := Nat.le_max_left 1 m

omit [LinearOrder S] [Zero S] in
theorem page_eq (current : Visited) :
    (if current.name = seed then kg seed opts.branching else kg current.name opts.branching) =
      kg current.name opts.branching := by
  split
  · rename_i same
    rw [same]
  · rfl

variable {s : WalkState} {q : Search Visited} {current : Visited} {rest : List Visited}

/-- A node at the depth of the walk is taken from the queue and left alone. -/
theorem Matches.skip (before : Matches opts s q) (here : q.queue = current :: rest)
    (deep : opts.maxDepth ≤ current.depth) :
    Matches opts (turn opts kg seed (kg seed opts.branching) current { s with queue := rest })
      (q.take (·.name) (below opts kg) current rest) := by
  have none_ : below opts kg current = [] := if_neg (Nat.not_lt.mpr deep)
  have found : (q.take (·.name) (below opts kg) current rest).found = q.found := by
    rw [Search.found_take here, none_, fresh, List.append_nil]
  have unmoved : turn opts kg seed (kg seed opts.branching) current { s with queue := rest } =
      { s with queue := rest, stoppedBecause := .maxDepth } := by
    rw [turn, if_pos deep]
  have low : ¬ current.depth < opts.maxDepth := Nat.not_lt.mpr deep
  rw [unmoved]
  exact
    { visited := by rw [found, ← before.visited]
      queue := by simp [Search.take, none_, fresh]
      seen := by rw [found, ← before.seen]
      unexplored := before.unexplored
      expanded := by simp [Search.take, before.expanded, low]
      stopped := by simp [Search.take, low]
      room := before.room
      fits := before.fits }

variable (limited : ∀ name limit, (kg name limit).neighbors.length ≤ limit)
include limited

/-- A node above the depth of the walk is expanded: the search goes on, or the budget is used up. -/
theorem Matches.expand (before : Matches opts s q) (searches : Searches opts kg seed q)
    (here : q.queue = current :: rest) (above : current.depth < opts.maxDepth) :
    Matches opts (turn opts kg seed (kg seed opts.branching) current { s with queue := rest })
        (q.take (·.name) (below opts kg) current rest) ∨
      ∃ m, Cut opts kg seed m
        (turn opts kg seed (kg seed opts.branching) current { s with queue := rest })
        (q.take (·.name) (below opts kg) current rest) := by
  have layered := searches_layered searches
  have earlier : ∀ v ∈ q.taken, v.depth < opts.maxDepth := by
    have sorted := layered.sorted
    rw [Search.found, here, List.pairwise_append] at sorted
    exact fun v member => (sorted.2.2 v member current List.mem_cons_self).trans_lt above
  have all : ∀ v ∈ q.taken ++ [current], v.depth < opts.maxDepth := by
    intro v member
    rcases List.mem_append.mp member with old | new
    · exact earlier v old
    · exact List.mem_singleton.mp new ▸ above
  have expanded : s.expanded = q.taken := by
    rw [before.expanded, List.filter_eq_self]
    simpa using earlier
  have stopped : s.stoppedBecause = .exhausted := by
    rw [before.stopped, if_pos (by simpa using earlier)]
  let new := fresh (·.name) (q.found.map (·.name)).toFinset (below opts kg current)
  have found : (q.take (·.name) (below opts kg) current rest).found = q.found ++ new :=
    Search.found_take here
  have same : fresh (·.name) s.seen
      ((candidates opts (kg current.name opts.branching) current s.seen).map
      (reached current)) = new := by
    rw [fresh_candidates limited, before.seen]
    exact congrArg _ (if_pos above).symm
  let after : WalkState :=
    { seen := s.seen ∪ (new.map (·.name)).toFinset
      visited := s.visited ++ kept opts s.visited.length new
      unexplored := (lost opts s.visited.length new).map (·.name)
      queue := rest ++ kept opts s.visited.length new
      stoppedBecause := if lost opts s.visited.length new = [] then .exhausted else .maxNodes
      expanded := q.taken ++ [current] }
  have moved : turn opts kg seed (kg seed opts.branching) current { s with queue := rest } =
      if opts.full after.visited.length then drain after else after := by
    have offered : (candidates opts (kg current.name opts.branching) current s.seen).foldl
        (offer opts current)
        { s with queue := rest } = { after with expanded := s.expanded } := by
      rw [offers]
      simp only [same, before.unexplored, stopped, List.nil_append, after]
    rw [turn, if_neg (Nat.not_le.mpr above)]
    simp only [page_eq]
    rw [offered, expanded]
  have split := kept_append_lost opts s.visited.length new
  have some_ : 1 ≤ s.visited.length := by
    rw [before.visited]
    have head := layered.head
    cases nodes : q.found with
    | nil => simp [nodes] at head
    | cons => exact Nat.succ_le_succ (Nat.zero_le _)
  rw [moved]
  cases full : opts.full after.visited.length with
  | false =>
    rw [if_neg Bool.false_ne_true]
    refine .inl ?_
    have none_ : lost opts s.visited.length new = [] := by
      unfold lost
      cases budget : opts.maxNodes with
      | none => rfl
      | some m =>
        simp only [WalkOptions.full, budget, decide_eq_false_iff_not, after, kept,
          List.length_append,
          List.length_take] at full
        exact List.drop_eq_nil_of_le (by omega)
    rw [none_, List.append_nil] at split
    exact
      { visited := by rw [found, ← before.visited]; simp only [after, split]
        queue := by simp only [after, split, Search.take, new]
        seen := by rw [found, List.map_append, List.toFinset_append, ← before.seen]
        unexplored := by simp only [after, none_, List.map_nil]
        expanded := by
          rw [Search.take, Eq.comm, List.filter_eq_self]
          simpa using all
        stopped := by
          simp only [after, none_, if_true]
          have every : (q.taken ++ [current]).all (·.depth < opts.maxDepth) = true := by
            rw [List.all_eq_true]
            exact fun v member => decide_eq_true (all v member)
          exact (if_pos every).symm
        room := .inr full
        fits := fun m budget => by
          simp only [WalkOptions.full, budget, decide_eq_false_iff_not] at full
          omega }
  | true =>
    rw [if_pos rfl]
    refine .inr ?_
    cases budget : opts.maxNodes with
    | none => simp [WalkOptions.full, budget] at full
    | some m =>
      have fits := before.fits m budget
      have started : q.taken = [] ∨ s.visited.length < m := by
        rcases before.room with none_ | room
        · exact .inl (expanded ▸ none_)
        · simp only [WalkOptions.full, budget, decide_eq_false_iff_not] at room
          exact .inr (by omega)
      have room : m - s.visited.length = max 1 m - s.visited.length := by omega
      have enough : m ≤ s.visited.length + new.length := by
        have count := congrArg List.length split
        simp only [WalkOptions.full, budget, decide_eq_true_eq, after, List.length_append] at full
        rw [List.length_append] at count
        omega
      refine ⟨m, ⟨budget, rfl, ?_, ?_, ?_, rfl, all, rfl, q, current, rest, searches, here,
        rfl, ?_, ?_⟩⟩
      · rw [found, List.take_append, ← before.visited, List.take_of_length_le fits, ← room]
        simp only [drain, after, kept, budget]
      · rw [found, List.length_append, ← before.visited]
        omega
      · intro name
        simp only [drain, after, Search.take, ← List.map_append, List.mem_map, List.mem_append]
        apply exists_congr
        intro v
        have either : v ∈ kept opts s.visited.length new ∨ v ∈ lost opts s.visited.length new ↔
            v ∈ new := by
          rw [← List.mem_append, split]
        have member : v ∈ fresh (·.name) (q.found.map (·.name)).toFinset (below opts kg current) ↔
            v ∈ new := Iff.rfl
        rw [member, ← either]
        exact and_congr_left' (or_comm.trans or_assoc)
      · rw [← before.visited]
        exact fits
      · rw [← before.visited]
        exact started.imp_right fun less => less.trans_le (Nat.le_max_right 1 m)

/-- The walk goes along with the search until the budget is used up. -/
theorem loop_search (fuel : Nat) (s : WalkState) (q : Search Visited) (before : Matches opts s q)
    (searches : Searches opts kg seed q) :
    Matches opts (loop opts kg seed (kg seed opts.branching) fuel s)
        (Search.explore (·.name) (below opts kg) fuel q) ∨
      ∃ m p, Searches opts kg seed p ∧
        Cut opts kg seed m (loop opts kg seed (kg seed opts.branching) fuel s) p := by
  induction fuel generalizing s q with
  | zero => exact .inl before
  | succ fuel ih =>
    unfold loop Search.explore
    rw [before.queue]
    cases here : q.queue with
    | nil => exact .inl before
    | cons current rest =>
      have next : Searches opts kg seed (q.take (·.name) (below opts kg) current rest) :=
        searches.tail (.take current rest here)
      by_cases above : current.depth < opts.maxDepth
      · rcases before.expand limited searches here above with same | ⟨m, cut⟩
        · exact ih _ _ same next
        · refine .inr ⟨m, _, next, ?_⟩
          have idle : ∀ n, loop opts kg seed (kg seed opts.branching) n
              (turn opts kg seed (kg seed opts.branching) current { s with queue := rest }) =
              turn opts kg seed (kg seed opts.branching) current { s with queue := rest } := by
            intro n
            cases n with
            | zero => rfl
            | succ n => rw [loop, cut.queue]
          simp only [idle]
          exact cut
      · exact ih _ _ (before.skip here (Nat.not_lt.mp above)) next

omit limited in
theorem loop_ends (fuel : Nat) (s : WalkState)
    (drained : (loop opts kg seed (kg seed opts.branching) fuel s).queue = []) :
    LoopEnds opts kg seed (kg seed opts.branching) s
      (loop opts kg seed (kg seed opts.branching) fuel s) := by
  induction fuel generalizing s with
  | zero => exact .empty s drained
  | succ fuel ih =>
    unfold loop at drained ⊢
    cases here : s.queue with
    | nil => exact .empty s here
    | cons current rest =>
      simp only [here] at drained
      exact .turn s _ current rest here (ih _ drained)

omit limited in
/-- The search of the whole order. -/
theorem order_searches (opts : WalkOptions S) (kg : Neighbors) (seed : String) :
    Searches opts kg seed ⟨order opts kg seed, []⟩ := by
  have turns_ : Searches opts kg seed (Search.explore (fun v : Visited => v.name) (below opts kg)
      (turns opts)
      (.start (seedNode opts kg seed))) := Search.explore_turns _ _
  have drained : (Search.explore (fun v : Visited => v.name) (below opts kg) (turns opts)
      (.start (seedNode opts kg seed))).queue = [] :=
    Search.within_over children_depth children_short (seedNode opts kg seed) rfl
  unfold order
  rw [← drained]
  exact turns_

/-- How a walk ends: its search is over, or the budget was used up before. -/
theorem walk_search (opts : WalkOptions S) (seed : String) :
    Matches opts (walkState opts kg seed) ⟨order opts kg seed, []⟩ ∨
      ∃ m q, Searches opts kg seed q ∧ Cut opts kg seed m (walkState opts kg seed) q := by
  rcases loop_search limited (turns opts) (start opts kg seed) _ Matches.start .refl with same | cut
  · have drained : (Search.explore (fun v : Visited => v.name) (below opts kg) (turns opts)
        (.start (seedNode opts kg seed))).queue = [] :=
      Search.within_over children_depth children_short (seedNode opts kg seed) rfl
    rw [order, ← drained]
    exact .inl same
  · exact .inr cut

/-- The loop of the walk ends. -/
theorem walk_ends (opts : WalkOptions S) (seed : String) :
    LoopEnds opts kg seed (kg seed opts.branching) (start opts kg seed)
      (walkState opts kg seed) := by
  apply loop_ends
  rcases walk_search limited opts seed with same | ⟨m, q, _, cut⟩
  · exact same.queue
  · exact cut.queue

/-- The walk visits as much of the breadth-first order as fits into its budget. -/
theorem walk_visited (opts : WalkOptions S) (seed : String) :
    (walk opts kg seed).visited = match opts.maxNodes with
      | none => order opts kg seed
      | some m => (order opts kg seed).take (max 1 m) := by
  rcases walk_search limited opts seed with same | ⟨m, q, searches, cut⟩
  · have visited : (walk opts kg seed).visited = order opts kg seed :=
      same.visited.trans (List.append_nil _)
    rw [visited]
    cases budget : opts.maxNodes with
    | none => rfl
    | some m =>
      have fits := same.fits m budget
      rw [same.visited, Search.found, List.append_nil] at fits
      exact (List.take_of_length_le fits).symm
  · rw [cut.budget]
    have ahead := (searches.drained (order_searches opts kg seed) rfl).prefix_.2
    rw [Search.found, Search.found, List.append_nil] at ahead
    obtain ⟨more, whole⟩ := ahead
    have enough := cut.enough
    rw [Search.found] at enough
    dsimp only at whole ⊢
    rw [← whole, List.take_append_of_le_length enough]
    exact cut.visited

end Run

end Metahumotonic.Agent.Traversal
