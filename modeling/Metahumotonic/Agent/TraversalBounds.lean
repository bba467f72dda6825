import Metahumotonic.Agent.TraversalLaws
import Mathlib.Algebra.Order.Ring.Int

/-! What the walk reports of its bounds. It blames the budget also where the budget is met
exactly and cuts nothing off. -/
namespace Metahumotonic.Agent.Traversal

open Library

variable {S : Type u} [LinearOrder S] [Zero S] {opts : WalkOptions S} {kg : Neighbors}
    {seed name : String}

def WalkOptions.unlimited (opts : WalkOptions S) : WalkOptions S := { opts with maxNodes := none }

/-- The seed, and what the expanded nodes lead to. -/
def Discovered (opts : WalkOptions S) (kg : Neighbors) (seed name : String) : Prop :=
  name = seed ∨ ∃ v ∈ (walkState opts kg seed).expanded, Leads opts kg v name

def visitedNames (opts : WalkOptions S) (kg : Neighbors) (seed : String) : List String :=
  (walkState opts kg seed).visited.map (·.name)

def expandedNames (opts : WalkOptions S) (kg : Neighbors) (seed : String) : List String :=
  (walkState opts kg seed).expanded.map (·.name)

/-- Without a budget the walk visits more names or expands a node that this one does not. -/
def GoesFurther (opts : WalkOptions S) (kg : Neighbors) (seed : String) : Prop :=
  (∃ name ∈ visitedNames opts.unlimited kg seed, name ∉ visitedNames opts kg seed) ∨
    ∃ name ∈ expandedNames opts.unlimited kg seed, name ∉ expandedNames opts kg seed

/-- The report of a walk is true. -/
structure Truthful (opts : WalkOptions S) (kg : Neighbors) (seed : String) : Prop where
  maxNodes : (walk opts kg seed).stoppedBecause = .maxNodes ↔ GoesFurther opts kg seed
  unexplored : (walk opts kg seed).stoppedBecause = .maxNodes →
    (walk opts kg seed).unexplored.Pairwise jsLe ∧ (walk opts kg seed).unexplored.Nodup ∧
      (∀ name, name ∈ (walk opts kg seed).unexplored ↔
        Discovered opts kg seed name ∧ name ∉ expandedNames opts kg seed) ∧
      ∀ name, Discovered opts kg seed name →
        name ∈ visitedNames opts kg seed ∨ name ∈ (walk opts kg seed).unexplored
  exhausted : (walk opts kg seed).stoppedBecause = .exhausted ↔
    ∀ name, Discovered opts kg seed name → name ∈ visitedNames opts kg seed ∧
      name ∈ expandedNames opts kg seed
  nothingLeft : (walk opts kg seed).stoppedBecause = .exhausted →
    (walk opts kg seed).unexplored = []
  otherwise_ : (walk opts kg seed).stoppedBecause ≠ .maxNodes →
    (walk opts kg seed).stoppedBecause ≠ .exhausted →
    (walk opts kg seed).stoppedBecause = .maxDepth

/-- The nodes within the depth are as many as the budget allows, and the last of them is
reached from the last one above the depth (or there is only the seed). -/
def MetExactly (opts : WalkOptions S) (kg : Neighbors) (seed : String) : Prop :=
  ∃ m, opts.maxNodes = some m ∧ 1 ≤ opts.maxDepth ∧ (order opts kg seed).length = max 1 m ∧
    ((order opts kg seed).length = 1 ∨ ∃ v via w, (order opts kg seed).getLast? = some v ∧
      v.via = some via ∧
      ((order opts kg seed).filter (·.depth < opts.maxDepth)).getLast? = some w ∧
        via.from_ = w.name)

section Search

variable {q : Search Visited}

theorem searches_begin (searches : Searches opts kg seed q) :
    q.taken <+: order opts kg seed ∧ q.found <+: order opts kg seed := by
  have ahead := (searches.drained (order_searches opts kg seed) rfl).prefix_
  exact ⟨ahead.1, order_found opts kg seed ▸ ahead.2⟩

theorem searches_nodup (searches : Searches opts kg seed q) :
    ((q.taken ++ q.queue).map (·.name)).Nodup :=
  (searches_layered searches).nodup

theorem taken_not_queued (searches : Searches opts kg seed q) {v w : Visited} (taken : v ∈ q.taken)
    (queued : w ∈ q.queue) : v.name ≠ w.name := by
  have apart := searches_nodup searches
  rw [List.map_append, List.nodup_append] at apart
  exact apart.2.2 _ (List.mem_map_of_mem taken) _ (List.mem_map_of_mem queued)

variable (limited : ∀ name limit, (kg name limit).neighbors.length ≤ limit)
include limited

/-- What a walk has discovered is what its search has found. -/
theorem discovered_iff (searches : Searches opts kg seed q)
    (expanded : (walkState opts kg seed).expanded = q.taken.filter (·.depth < opts.maxDepth)) :
    Discovered opts kg seed name ↔ name ∈ q.found.map (·.name) := by
  have layered := searches_layered searches
  constructor
  · rintro (rfl | ⟨v, member, leads⟩)
    · exact List.mem_map.mpr ⟨_, List.mem_of_mem_head? layered.head, rfl⟩
    · rw [expanded] at member
      obtain ⟨taken, above⟩ := List.mem_filter.mp member
      obtain ⟨w, child, rfl⟩ := (children_name limited).mpr leads
      have own : w ∈ below opts kg v := by
        rw [below, Search.within, if_pos (of_decide_eq_true above)]
        exact child
      obtain ⟨x, there, same, _⟩ := layered.covered v taken w own
      exact List.mem_map.mpr ⟨x, there, same⟩
  · intro member
    obtain ⟨v, there, rfl⟩ := List.mem_map.mp member
    obtain ⟨before, after, split⟩ := List.append_of_mem there
    cases before with
    | nil =>
      have head := layered.head
      rw [split] at head
      cases head
      exact .inl rfl
    | cons first before =>
      obtain ⟨p, _, taken, child⟩ := layered.parent _ v after split (List.cons_ne_nil _ _)
      obtain ⟨_, above, own⟩ := Search.within_below children_depth p v child
      refine .inr ⟨p, ?_, (children_name limited).mp ⟨v, own, rfl⟩⟩
      rw [expanded]
      exact List.mem_filter.mpr ⟨taken, decide_eq_true above⟩

theorem unlimited_state (opts : WalkOptions S) (seed : String) :
    (walkState opts.unlimited kg seed).visited = order opts kg seed ∧
      (walkState opts.unlimited kg seed).expanded = (order opts kg seed).filter
      (·.depth < opts.maxDepth) := by
  rcases walk_search limited opts.unlimited seed with same | ⟨m, q, _, cut⟩
  · exact ⟨same.visited.trans (order_found _ _ _), same.expanded⟩
  · cases cut.budget

/-- A walk whose search is over tells the truth. -/
theorem over_truthful (same : Matches opts (walkState opts kg seed) ⟨order opts kg seed, []⟩) :
    Truthful opts kg seed := by
  obtain ⟨visitedAll, expandedAll⟩ := unlimited_state limited opts seed
  have visited : (walkState opts kg seed).visited = order opts kg seed :=
    same.visited.trans (order_found _ _ _)
  have expanded : (walkState opts kg seed).expanded = (order opts kg seed).filter
      (·.depth < opts.maxDepth) :=
    same.expanded
  have stopped : (walk opts kg seed).stoppedBecause =
      if (order opts kg seed).all (·.depth < opts.maxDepth) then .exhausted else .maxDepth :=
        same.stopped
  have notBudget : (walk opts kg seed).stoppedBecause ≠ .maxNodes := by
    rw [stopped]
    split <;> simp
  have discovered : ∀ name, Discovered opts kg seed name ↔ name ∈ (order opts kg seed).map
      (·.name) := by
    intro name
    rw [discovered_iff limited (order_searches opts kg seed) same.expanded, order_found]
  have all : (walk opts kg seed).stoppedBecause = .exhausted ↔ ∀ v ∈ order opts kg seed,
      v.depth < opts.maxDepth := by
    rw [stopped]
    split <;> rename_i every
    · exact iff_of_true rfl (by simpa using every)
    · exact iff_of_false (by simp) (by simpa using every)
  refine ⟨iff_of_false notBudget ?_, fun budget => absurd budget notBudget, all.trans ?_,
    fun _ => ?_, ?_⟩
  · simp only [GoesFurther, visitedNames, expandedNames, visitedAll, expandedAll, visited, expanded]
    rintro (⟨name, here, gone⟩ | ⟨name, here, gone⟩)
    · exact gone here
    · exact gone here
  · constructor
    · intro above name found
      have there := (discovered name).mp found
      have every : (order opts kg seed).filter (·.depth < opts.maxDepth) = order opts kg seed := by
        rw [List.filter_eq_self]
        simpa using above
      rw [visitedNames, expandedNames, visited, expanded, every]
      exact ⟨there, there⟩
    · intro done v member
      have here := (done v.name ((discovered _).mpr (List.mem_map_of_mem member))).2
      rw [expandedNames, expanded] at here
      obtain ⟨w, taken, name⟩ := List.mem_map.mp here
      obtain ⟨there, above⟩ := List.mem_filter.mp taken
      cases List.inj_on_of_nodup_map (order_nodup opts kg seed) there member name
      exact of_decide_eq_true above
  · simp only [walk, same.unexplored]
    rfl
  · intro _ other
    rw [stopped] at other ⊢
    split at other
    · exact absurd rfl other
    · rename_i deep
      rw [if_neg deep]

omit limited in
theorem over_not_met (same : Matches opts (walkState opts kg seed) ⟨order opts kg seed, []⟩) :
    ¬ MetExactly opts kg seed := by
  rintro ⟨m, budget, deep, count, _⟩
  have visited : (walkState opts kg seed).visited = order opts kg seed :=
    same.visited.trans (order_found _ _ _)
  rcases same.room with none_ | room
  · rw [same.expanded] at none_
    have root := List.filter_eq_nil_iff.mp none_ _ (List.mem_of_mem_head? (order_head opts kg seed))
    exact root (decide_eq_true deep)
  · simp only [WalkOptions.full, budget, visited, decide_eq_false_iff_not] at room
    omega

section Cut

variable {m : Nat} (searches : Searches opts kg seed q)
    (cut : Cut opts kg seed m (walkState opts kg seed) q)
include searches cut

omit limited searches in
/-- The expanded nodes are visited. -/
theorem cut_taken : ∃ before a, q.taken = before ++ [a] ∧ q.taken.length ≤ max 1 m := by
  obtain ⟨p, a, rest, _, here, rfl, few, _⟩ := cut.last
  refine ⟨p.taken, a, rfl, ?_⟩
  have count : p.taken.length + 1 ≤ p.found.length := by
    rw [Search.found, here, List.length_append, List.length_cons]
    omega
  rw [Search.take, List.length_append, List.length_singleton]
  omega

omit limited in
theorem cut_whole (count : (order opts kg seed).length ≤ max 1 m) : q.found = order opts kg seed :=
  (searches_begin searches).2.eq_of_length_le (count.trans cut.enough)

/-- A budget that is met exactly keeps nothing from being visited or expanded. -/
theorem met_not_further (met : MetExactly opts kg seed) : ¬ GoesFurther opts kg seed := by
  obtain ⟨other, budget, _, count, last⟩ := met
  cases cut.budget.symm.trans budget
  have whole := cut_whole searches cut count.le
  have layered := searches_layered searches
  obtain ⟨visitedAll, expandedAll⟩ := unlimited_state limited opts seed
  have visited : (walkState opts kg seed).visited = order opts kg seed := by
    rw [cut.visited, whole, List.take_of_length_le count.le]
  have none_ : ∀ v ∈ q.queue, ¬ v.depth < opts.maxDepth := by
    intro v queued above
    rcases last with one | ⟨x, via, w, final, held, lowest, from_⟩
    · obtain ⟨before, a, taken, _⟩ := cut_taken cut
      have pos : 1 ≤ q.queue.length := List.length_pos_of_mem queued
      rw [← whole, Search.found, taken, List.length_append, List.length_append,
        List.length_singleton] at one
      omega
    · -- the last node above the depth waits in the queue, but a child of it was found
      have waits : w ∈ q.queue := by
        rw [← whole, Search.found, List.filter_append, List.getLast?_append_of_ne_nil] at lowest
        · exact List.mem_of_mem_filter (List.mem_of_getLast? lowest)
        · exact List.ne_nil_of_mem (List.mem_filter.mpr ⟨queued, decide_eq_true above⟩)
      obtain ⟨before, split⟩ := List.getLast?_eq_some_iff.mp final
      cases before with
      | nil =>
        have head := order_head opts kg seed
        rw [split] at head
        cases head
        cases held
      | cons first before =>
        obtain ⟨p, _, taken, child⟩ := layered.parent (first :: before) x [] (whole.trans split)
          (List.cons_ne_nil _ _)
        obtain ⟨_, other, same, name⟩ :=
          children_child (Search.within_below children_depth p x child).2.2
        rw [held] at same
        cases same
        exact taken_not_queued searches taken waits (name.symm.trans from_)
  simp only [GoesFurther, visitedNames, expandedNames, visitedAll, expandedAll, visited,
    cut.expanded]
  rintro (⟨name, here, gone⟩ | ⟨name, here, gone⟩)
  · exact gone here
  · obtain ⟨v, member, rfl⟩ := List.mem_map.mp here
    obtain ⟨there, above⟩ := List.mem_filter.mp member
    rw [← whole, Search.found] at there
    rcases List.mem_append.mp there with taken | queued
    · exact gone (List.mem_map_of_mem taken)
    · exact none_ v queued (of_decide_eq_true above)

/-- Where the unlimited walk goes no further the budget is met exactly. -/
theorem not_further_met (same : ¬ GoesFurther opts kg seed) : MetExactly opts kg seed := by
  have layered := searches_layered searches
  obtain ⟨visitedAll, expandedAll⟩ := unlimited_state limited opts seed
  simp only [GoesFurther, visitedNames, expandedNames, visitedAll, expandedAll, cut.visited,
    cut.expanded, not_or,
    not_exists, not_and, not_not] at same
  obtain ⟨names, expansions⟩ := same
  have few : (order opts kg seed).length ≤ max 1 m := by
    have bound := List.Subperm.length_le
      (List.subperm_of_subset (order_nodup opts kg seed) fun name => names name)
    rw [List.length_map, List.length_map, List.length_take] at bound
    omega
  have whole := cut_whole searches cut few
  have count : (order opts kg seed).length = max 1 m := few.antisymm (whole ▸ cut.enough)
  obtain ⟨p, a, rest, earlier, here, next, _, started⟩ := cut.last
  have taken : q.taken = p.taken ++ [a] := by rw [next, Search.take]
  have found : q.found = p.found ++ fresh (·.name) (p.found.map (·.name)).toFinset
      (below opts kg a) := by
    rw [next]
    exact Search.found_take here
  have above : a.depth < opts.maxDepth :=
    cut.above a (taken ▸ List.mem_append_right _ List.mem_cons_self)
  refine ⟨m, cut.budget, Nat.one_le_of_lt above, count, ?_⟩
  have queued : ∀ v ∈ q.queue, ¬ v.depth < opts.maxDepth := by
    intro v waits above
    have inside : v ∈ order opts kg seed := whole ▸ List.mem_append_right _ waits
    obtain ⟨w, done, name⟩ := List.mem_map.mp (expansions v.name
      (List.mem_map_of_mem (List.mem_filter.mpr ⟨inside, decide_eq_true above⟩)))
    exact taken_not_queued searches done waits name
  have expandable : (order opts kg seed).filter (·.depth < opts.maxDepth) = q.taken := by
    rw [← whole, Search.found, List.filter_append, List.filter_eq_self.mpr,
      List.filter_eq_nil_iff.mpr, List.append_nil]
    · simpa using queued
    · simpa using cut.above
  cases new : fresh (fun v : Visited => v.name) (p.found.map (·.name)).toFinset
    (below opts kg a) with
  | nil =>
    rw [new, List.append_nil] at found
    rcases started with first | less
    · -- the first turn found nothing, so there is only the seed
      refine .inl ?_
      rw [← whole, found]
      cases nodes : p.found with
      | nil =>
        have head := (searches_layered earlier).head
        rw [nodes] at head
        cases head
      | cons root others =>
        cases others with
        | nil => rfl
        | cons v others =>
          obtain ⟨parent, _, done, _⟩ := (searches_layered earlier).parent [root] v others nodes
            (List.cons_ne_nil _ _)
          rw [first] at done
          cases done
    · rw [← found, whole] at less
      omega
  | cons v others =>
    obtain ⟨x, last⟩ :=
      Option.isSome_iff_exists.mp (List.getLast?_isSome.mpr (List.cons_ne_nil v others))
    have child : x ∈ below opts kg a := (mem_of_fresh (new ▸ List.mem_of_getLast? last)).1
    obtain ⟨_, via, held, from_⟩ :=
      children_child (Search.within_below children_depth a x child).2.2
    refine .inr ⟨x, via, a, ?_, held, ?_, from_⟩
    · rw [← whole, found, new, List.getLast?_append_of_ne_nil _ (List.cons_ne_nil _ _), last]
    · rw [expandable, taken, List.getLast?_concat]

/-- A walk that was cut off, and knows it, tells the truth. -/
theorem cut_truthful (further : GoesFurther opts kg seed) : Truthful opts kg seed := by
  have expanded : (walkState opts kg seed).expanded = q.taken.filter (·.depth < opts.maxDepth) := by
    rw [cut.expanded, Eq.comm, List.filter_eq_self]
    simpa using cut.above
  have stopped : (walk opts kg seed).stoppedBecause = .maxNodes := cut.stopped
  have discovered : ∀ name, Discovered opts kg seed name ↔
      name ∈ q.found.map (·.name) := fun name =>
    discovered_iff limited searches expanded
  have left : ∀ name, name ∈ (walk opts kg seed).unexplored ↔ name ∈ q.queue.map (·.name) := by
    intro name
    rw [walk, mem_jsSort, List.mem_dedup]
    exact cut.unexplored name
  have done : expandedNames opts kg seed = q.taken.map (·.name) := by
    rw [expandedNames, cut.expanded]
  obtain ⟨_, _, _, short⟩ := cut_taken cut
  have visited : ∀ v ∈ q.taken, v.name ∈ visitedNames opts kg seed := by
    intro v member
    rw [visitedNames, cut.visited, Search.found, List.take_append]
    exact List.mem_map_of_mem (List.mem_append_left _ (by rwa [List.take_of_length_le short]))
  refine ⟨iff_of_true stopped further, fun _ =>
    ⟨jsSort_pairwise _, jsSort_nodup (List.nodup_dedup _), ?_, ?_⟩,
    iff_of_false (by simp [stopped]) fun all => ?_, fun exhausted => ?_, fun other =>
      absurd stopped other⟩
  · intro name
    rw [left, discovered, done, Search.found, List.map_append, List.mem_append]
    refine ⟨fun waits => ⟨.inr waits, fun taken => ?_⟩, fun waits => waits.1.resolve_left waits.2⟩
    obtain ⟨v, member, rfl⟩ := List.mem_map.mp taken
    obtain ⟨w, queued, same⟩ := List.mem_map.mp waits
    exact taken_not_queued searches member queued same.symm
  · intro name found
    rw [left]
    have there := (discovered name).mp found
    rw [Search.found, List.map_append, List.mem_append] at there
    refine there.imp_left fun taken => ?_
    obtain ⟨v, member, rfl⟩ := List.mem_map.mp taken
    exact visited v member
  · -- nothing waits, so the search is over and the unlimited walk is this one
    have empty : q.queue = [] := by
      rw [List.eq_nil_iff_forall_not_mem]
      intro v queued
      have mine := (all v.name
        ((discovered _).mpr (List.mem_map_of_mem (List.mem_append_right _ queued)))).2
      rw [done] at mine
      obtain ⟨w, taken, same⟩ := List.mem_map.mp mine
      exact taken_not_queued searches taken queued same
    have whole : q = ⟨order opts kg seed, []⟩ := by
      rcases (searches.drained (order_searches opts kg seed) rfl).cases_head with
        same | ⟨next, turn, _⟩
      · exact same
      · cases turn with
        | take a rest here =>
          rw [empty] at here
          cases here
    obtain ⟨visitedAll, expandedAll⟩ := unlimited_state limited opts seed
    rcases further with ⟨name, here, gone⟩ | ⟨name, here, gone⟩
    · rw [visitedNames, visitedAll] at here
      exact gone (all name ((discovered name).mpr (by rwa [whole, order_found]))).1
    · rw [expandedNames, expandedAll] at here
      rw [done, whole] at gone
      exact gone (List.map_subset _ (List.filter_subset_self _) here)
  · rw [stopped] at exhausted
    cases exhausted

end Cut

end Search

/-- The report of a walk is true exactly if the budget is not met exactly by its last turn. -/
theorem walk_truthful_iff (kg : Neighbors)
    (limited : ∀ name limit, (kg name limit).neighbors.length ≤ limit)
    (opts : WalkOptions S) (seed : String) : Truthful opts kg seed ↔ ¬ MetExactly opts kg seed := by
  rcases walk_search limited opts seed with same | ⟨m, q, searches, cut⟩
  · exact iff_of_true (over_truthful limited same) (over_not_met same)
  · constructor
    · intro truthful met
      exact met_not_further limited searches cut met (truthful.maxNodes.mp cut.stopped)
    · intro missed
      apply cut_truthful limited searches cut
      by_contra same
      exact missed (not_further_met limited searches cut same)

section Sample

theorem walk_truthful_sample : Truthful { defaultWalk with maxNodes := some 2 } sampleKg "a" ↔
    ¬ MetExactly { defaultWalk with maxNodes := some 2 } sampleKg "a" :=
  walk_truthful_iff sampleKg sampleKg_limited { defaultWalk with maxNodes := some 2 } "a"

/-- A seed without neighbours fills a budget of one node, which the walk then blames. -/
theorem lone_seed_blames_budget :
    (walk { defaultWalk with maxNodes := some 1, maxDepth := 1, branching := 1 }
      sampleKg "d").stoppedBecause = .maxNodes ∧
    ¬ Truthful { defaultWalk with maxNodes := some 1, maxDepth := 1, branching := 1 }
      sampleKg "d" := by
  refine ⟨by decide, fun truthful => ?_⟩
  rcases truthful.maxNodes.mp (by decide) with further | further
  · revert further
    decide
  · revert further
    decide

end Sample

end Metahumotonic.Agent.Traversal
