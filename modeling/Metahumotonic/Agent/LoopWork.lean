import Metahumotonic.Agent.LoopAccounting
import Metahumotonic.Agent.SchedulerConfluence

/-! What the agent loop works. Every round runs its whole graph from the start, and the
nodes that are admitted after the last pass are run by none. -/
namespace Metahumotonic.Agent

open Library WorkGraph

variable {T : Type u} {A : Type v} {E : Type w} {spec : LoopSpec T A E} {l next : Loop T A E}
  {initial : WorkGraph T}

/-- Every execution of all rounds, in the order of the rounds. -/
def Loop.executed (l : Loop T A E) : List NodeId := l.history.reverse.flatMap (·.pass.starts)

/-- Every node is worked, and worked once. -/
structure WorkedOnce (spec : LoopSpec T A E) (l : Loop T A E) : Prop where
  worked : ∀ id ∈ (result spec l).graph.ids,
    (id ∈ l.executed ∨ ∃ f, (result spec l).outcomes.get? id = some (.blocked f)) ∧
      ∃ outcome, (result spec l).outcomes.get? id = some outcome
  once : l.executed.Nodup
  kept : ∀ later round earlier, l.history = later ++ round :: earlier →
    ∀ id ∈ (report round.pass).completed, ∀ other ∈ later,
      id ∉ other.pass.starts ∧ id ∉ (report other.pass).failed ∧ id ∉ (report other.pass).blocked

/-- Only the last pass had nodes to run, and nothing was admitted after it. -/
def SinglePass (spec : LoopSpec T A E) (initial : WorkGraph T) (l : Loop T A E) : Prop :=
  match l.history with
  | [] => initial.ids = []
  | last :: rest => last.kept spec.budget = [] ∧ ∀ round ∈ rest, round.graph.ids = []

/-- A round whose pass does not leave the scheduler's loop too early. -/
def TimelyRound (spec : LoopSpec T A E) (l : Loop T A E) (events : List (Event A E))
    (next : Loop T A E) :
    Prop :=
  LoopStep spec l events next ∧ ∀ pass, Path (Step (spec.job l)) {} events pass →
    Path (Timely (spec.job l)) {} events pass

section Tables

/-- The later outcome of a node wins. -/
theorem merge_get (outcomes latest : Table NodeId (Outcome A E)) (id : NodeId) :
    (merge outcomes latest).get? id = (latest.get? id).or (outcomes.get? id) :=
  Table.get?_foldl_set latest.entries latest.nodup outcomes id

theorem foldl_addNode_get (nodes : List (WorkNode T)) (graph : WorkGraph T) {id : NodeId}
    (other : ∀ node ∈ nodes, node.id ≠ id) :
    (nodes.foldl addNode graph).nodes.get? id = graph.nodes.get? id := by
  induction nodes generalizing graph with
  | nil => rfl
  | cons node rest ih =>
    rw [List.foldl_cons, ih _ fun node member => other node (List.mem_cons_of_mem _ member)]
    exact Table.get?_set_ne _ _ (other node List.mem_cons_self).symm

/-- An acyclic graph with nodes has one without dependencies. -/
theorem exists_source {graph : WorkGraph T} (acyclic : Acyclic graph) (free : DanglingFree graph)
    (some_ : graph.ids ≠ []) : ∃ id ∈ graph.ids, ∀ dep, ¬ DependsOn graph id dep := by
  by_contra none_
  have never : ∀ id, id ∉ graph.ids := by
    refine acyclic.induction fun id deps inside => none_ ⟨id, inside, fun dep edge => ?_⟩
    exact deps dep edge (free id dep edge) (free id dep edge)
  obtain ⟨id, member⟩ := List.exists_mem_of_ne_nil _ some_
  exact never id member

end Tables

section Rounds

/-- A pass that ran its graph to the end. -/
structure Worked (round : Round T A E) : Prop where
  acyclic : Acyclic round.graph
  free : DanglingFree round.graph
  pass : ∃ job : Job T A, job.graph = round.graph ∧ Safe job round.pass ∧ Told job round.pass ∧
    Settled job round.pass

namespace Worked

variable {round : Round T A E}

theorem told (worked : Worked round) (id : NodeId) :
    (∃ outcome, round.pass.outcomes.get? id = some outcome) ↔ id ∈ round.graph.ids := by
  obtain ⟨job, same, _, _, settled⟩ := worked.pass
  rw [← same]
  exact settled.every id

theorem inside (worked : Worked round) {id : NodeId} (started : id ∈ round.pass.starts) :
    id ∈ round.graph.ids := by
  obtain ⟨job, same, safe, _, _⟩ := worked.pass
  rw [← same]
  exact safe.inside id (List.mem_append_left _ started)

theorem nodup (worked : Worked round) : round.pass.starts.Nodup := by
  obtain ⟨job, _, safe, _, _⟩ := worked.pass
  exact List.Nodup.of_append_left safe.fresh

theorem started (worked : Worked round) {id : NodeId} (result : Except E A)
    (ended : round.pass.outcomes.get? id = some (.ofResult result)) : id ∈ round.pass.starts := by
  obtain ⟨job, _, safe, told, _⟩ := worked.pass
  exact safe.of_result ((told.ended id result).mp ended)

/-- Every node of the graph is started or blocked. -/
theorem executed (worked : Worked round) {id : NodeId} (inside : id ∈ round.graph.ids) :
    id ∈ round.pass.starts ∨ ∃ f, round.pass.outcomes.get? id = some (.blocked f) := by
  obtain ⟨outcome, found⟩ := (worked.told id).mpr inside
  cases outcome with
  | completed value => exact .inl (worked.started (.ok value) found)
  | failed error => exact .inl (worked.started (.error error) found)
  | blocked f => exact .inr ⟨f, found⟩

/-- A node without dependencies is started. -/
theorem source (worked : Worked round) {id : NodeId} (inside : id ∈ round.graph.ids)
    (none_ : ∀ dep, ¬ DependsOn round.graph id dep) : id ∈ round.pass.starts := by
  refine (worked.executed inside).resolve_right ?_
  rintro ⟨f, blocked⟩
  obtain ⟨job, same, _, told, _⟩ := worked.pass
  obtain ⟨_, edge, _⟩ := Relation.TransGen.head'_iff.mp (told.blockedBy id f blocked).2
  rw [same] at edge
  exact none_ _ edge

theorem completed_inside (worked : Worked round) {id : NodeId}
    (completed : id ∈ (report round.pass).completed) : id ∈ round.graph.ids := by
  obtain ⟨value, found⟩ := mem_completed.mp completed
  exact (worked.told id).mp ⟨_, found⟩

end Worked

/-- A graph has the nodes of an earlier one as they were. -/
def Extends (earlier later : WorkGraph T) : Prop :=
  ∀ id node, earlier.nodes.get? id = some node → later.nodes.get? id = some node

theorem Extends.inside {earlier later : WorkGraph T} (extends_ : Extends earlier later)
    {id : NodeId}
    (old : id ∈ earlier.ids) : id ∈ later.ids := by
  obtain ⟨node, found⟩ := mem_ids.mp old
  exact mem_ids.mpr ⟨node, extends_ id node found⟩

/-- What the rounds so far have left. -/
structure Tracked (initial : WorkGraph T) (spec : LoopSpec T A E) (l : Loop T A E) : Prop where
  seen : l.seen = l.graph.ids.toFinset
  first : l.history = [] → l.graph = initial ∧ l.outcomes = .empty
  grows : ∀ round ∈ l.history, Extends round.graph l.graph
  chain : l.history.Pairwise fun later earlier => Extends earlier.graph later.graph
  last : ∀ last rest, l.history = last :: rest →
    ∀ id, id ∈ l.graph.ids ↔ id ∈ last.graph.ids ∨ id ∈ (last.kept spec.budget).map (·.id)
  worked : ∀ round ∈ l.history, Worked round
  outcomes : ∀ id, l.outcomes.get? id = l.history.findSome? (·.pass.outcomes.get? id)

theorem Tracked.start (initial : WorkGraph T) (spec : LoopSpec T A E) :
    Tracked initial spec (.start initial) where
  seen := rfl
  first _ := ⟨rfl, rfl⟩
  grows := nofun
  chain := .nil
  last := nofun
  worked := nofun
  outcomes _ := rfl

/-- A round adds its pass, and the nodes that it admits. -/
theorem Tracked.add (tracked : Tracked initial spec l) {pass : Sched T A E}
    {proposed : List (WorkNode T)} (admitted : List (WorkNode T))
    (worked : Worked ⟨l.graph, pass, proposed⟩)
    (kept : (⟨l.graph, pass, proposed⟩ : Round T A E).kept spec.budget = admitted)
    (next_ : next.history = ⟨l.graph, pass, proposed⟩ :: l.history ∧
      next.outcomes = merge l.outcomes (report pass).outcomes ∧
      next.graph = admitted.foldl addNode l.graph ∧
      next.seen = admitted.foldl (fun seen node => insert node.id seen) l.seen) :
    Tracked initial spec next := by
  obtain ⟨history, outcomes, graph, seen⟩ := next_
  have new : ∀ node ∈ admitted, node.id ∉ l.graph.ids := by
    intro node member
    rw [← kept] at member
    exact (mem_fresh.mp (List.mem_of_mem_take member)).2
  have grown : Extends l.graph next.graph := by
    intro id node found
    rw [graph, foldl_addNode_get _ _ fun other member same => ?_, found]
    exact new other member (same ▸ mem_ids.mpr ⟨node, found⟩)
  refine ⟨?_, ?_, ?_, ?_, ?_, ?_, ?_⟩
  · rw [seen, graph, toFinset_foldl, tracked.seen]
  · rw [history]
    nofun
  · intro round member
    rw [history] at member
    rcases List.mem_cons.mp member with rfl | old
    · exact grown
    · exact fun id node found => grown id node (tracked.grows round old id node found)
  · rw [history]
    exact List.pairwise_cons.mpr ⟨tracked.grows, tracked.chain⟩
  · intro last rest split id
    rw [history] at split
    cases split
    rw [kept, graph]
    exact mem_ids_foldl admitted
  · intro round member
    rw [history] at member
    rcases List.mem_cons.mp member with rfl | old
    · exact worked
    · exact tracked.worked round old
  · intro id
    rw [outcomes, merge_get, history, List.findSome?_cons, tracked.outcomes]
    cases found : pass.outcomes.get? id with
    | none => simp only [report, found, Option.none_or]
    | some outcome => simp only [report, found, Option.some_or]

theorem kept_eq (spec : LoopSpec T A E) (seen : l.seen = l.graph.ids.toFinset) (pass : Sched T A E)
    (proposed : List (WorkNode T)) :
    (⟨l.graph, pass, proposed⟩ : Round T A E).kept spec.budget =
      (proposed.filter (·.id ∉ l.seen)).take (spec.budget.maxNodes - l.seen.card) := by
  simp only [Round.kept, Round.fresh, seen, List.mem_toFinset, card_ids]

theorem Tracked.turned (tracked : Tracked initial spec l) {pass : Sched T A E}
    (worked : ∀ proposed, Worked ⟨l.graph, pass, proposed⟩) (turned : Turned spec l pass next) :
    Tracked initial spec next := by
  have kept := kept_eq spec tracked.seen pass
  cases turned with
  | undiscovered none_ =>
    refine tracked.add [] (worked []) ?_ ⟨rfl, rfl, rfl, rfl⟩
    rw [kept, List.filter_nil, List.take_nil]
  | dry discover some_ none_ few =>
    refine tracked.add [] (worked _) ?_ ⟨rfl, rfl, rfl, rfl⟩
    rw [kept, none_, List.take_nil]
  | converged discover some_ none_ enough =>
    refine tracked.add [] (worked _) ?_ ⟨rfl, rfl, rfl, rfl⟩
    rw [kept, none_, List.take_nil]
  | grown discover some_ fresh proposed new fits =>
    refine tracked.add fresh (worked _) ?_ ⟨rfl, rfl, rfl, rfl⟩
    rw [kept, proposed, List.take_of_length_le fits]
  | full discover some_ fresh proposed more =>
    refine tracked.add _ (worked _) ?_ ⟨rfl, rfl, rfl, rfl⟩
    rw [kept, proposed]

theorem Tracked.step (tracked : Tracked initial spec l) {events : List (Event A E)}
    (moved : TimelyRound spec l events next) : Tracked initial spec next := by
  rcases step_cases moved.1 with ⟨why, _, rfl⟩ | ⟨acyclic, free, pass, path, ending, turned⟩
  · exact ⟨tracked.seen, tracked.first, tracked.grows, tracked.chain, tracked.last, tracked.worked,
      tracked.outcomes⟩
  · obtain ⟨safe, told⟩ := Told.reachable path
    have whole : Settled (spec.job l) pass ↔ Path (Timely (spec.job l)) {} events pass :=
      settled_iff_timely acyclic free path ending
    have settled := whole.mpr (moved.2 pass path)
    exact tracked.turned (fun _ => ⟨acyclic, free, spec.job l, rfl, safe, told, settled⟩) turned

theorem Tracked.reachable {rounds : List (List (Event A E))}
    (path : Path (TimelyRound spec) (.start initial) rounds l) : Tracked initial spec l :=
  path.invariant (Tracked initial spec) (fun _ _ _ moved tracked => tracked.step moved)
    (.start initial spec)

end Rounds

section Once

theorem executed_cons {last : Round T A E} {rest : List (Round T A E)}
    (history : l.history = last :: rest) :
    l.executed = rest.reverse.flatMap (·.pass.starts) ++ last.pass.starts := by
  simp [Loop.executed, history]

/-- A single pass works every node once. -/
theorem worked_of_single (tracked : Tracked initial spec l) (single : SinglePass spec initial l) :
    WorkedOnce spec l := by
  cases history : l.history with
  | nil =>
    simp only [SinglePass, history] at single
    refine ⟨fun id inside => ?_, by simp [Loop.executed, history],
      fun later round earlier split => ?_⟩
    · rw [result, (tracked.first history).1, single] at inside
      cases inside
    · exact absurd (history.symm.trans split) (by simp)
  | cons last rest =>
    simp only [SinglePass, history] at single
    have worked := fun round (member : round ∈ last :: rest) =>
      tracked.worked round (history ▸ member)
    have mine := worked last List.mem_cons_self
    have ids : ∀ id, id ∈ l.graph.ids ↔ id ∈ last.graph.ids := by
      intro id
      rw [tracked.last last rest history, single.1]
      simp
    have outcome : ∀ id o, last.pass.outcomes.get? id = some o → l.outcomes.get? id = some o := by
      intro id o found
      rw [tracked.outcomes, history, List.findSome?_cons, found]
    have idle : rest.reverse.flatMap (·.pass.starts) = [] := by
      rw [List.flatMap_eq_nil_iff]
      intro round member
      have old := List.mem_reverse.mp member
      refine List.eq_nil_iff_forall_not_mem.mpr fun id started => ?_
      have inside := (worked round (List.mem_cons_of_mem _ old)).inside started
      rw [single.2 round old] at inside
      cases inside
    refine ⟨fun id inside => ?_, ?_, fun later round earlier split id completed other member => ?_⟩
    · have here := (ids id).mp inside
      obtain ⟨o, found⟩ := (mine.told id).mpr here
      refine ⟨?_, o, outcome id o found⟩
      rw [executed_cons history, idle, List.nil_append]
      rcases mine.executed here with started | ⟨f, blocked⟩
      · exact .inl started
      · exact .inr ⟨f, outcome id _ blocked⟩
    · rw [executed_cons history, idle, List.nil_append]
      exact mine.nodup
    · have older : round ∈ rest := by
        cases later with
        | nil => cases member
        | cons head tail =>
          rw [history] at split
          rw [(List.cons.inj split).2]
          exact List.mem_append_right _ List.mem_cons_self
      have inside := (worked round (List.mem_cons_of_mem _ older)).completed_inside completed
      rw [single.2 round older] at inside
      cases inside

/-- Where every node is worked once there was a single pass. -/
theorem single_of_worked (tracked : Tracked initial spec l) (worked : WorkedOnce spec l) :
    SinglePass spec initial l := by
  cases history : l.history with
  | nil =>
    simp only [SinglePass, history]
    refine List.eq_nil_iff_forall_not_mem.mpr fun id inside => ?_
    obtain ⟨graph, outcomes⟩ := tracked.first history
    obtain ⟨_, outcome, found⟩ := worked.worked id (by rwa [result, graph])
    rw [result, outcomes] at found
    cases found
  | cons last rest =>
    simp only [SinglePass, history]
    have chain := tracked.chain
    rw [history, List.pairwise_cons] at chain
    have mine := tracked.worked last (history ▸ List.mem_cons_self)
    constructor
    · refine List.eq_nil_iff_forall_not_mem.mpr fun node kept => ?_
      have new := (mem_fresh.mp (List.mem_of_mem_take kept)).2
      have inside := (tracked.last last rest history node.id).mpr (.inr (List.mem_map_of_mem kept))
      obtain ⟨_, outcome, found⟩ := worked.worked node.id inside
      have found : l.outcomes.get? node.id = some outcome := found
      rw [tracked.outcomes] at found
      obtain ⟨round, member, told⟩ := List.exists_of_findSome?_eq_some found
      have here := ((tracked.worked round member).told node.id).mp ⟨outcome, told⟩
      rw [history] at member
      rcases List.mem_cons.mp member with rfl | old
      · exact new here
      · exact new ((chain.1 round old).inside here)
    · intro round old
      have earlier := tracked.worked round (history ▸ List.mem_cons_of_mem _ old)
      by_contra some_
      obtain ⟨id, inside, none_⟩ := exists_source earlier.acyclic earlier.free some_
      have first := earlier.source inside none_
      have again : id ∈ last.pass.starts := by
        refine mine.source ((chain.1 round old).inside inside) fun dep edge => ?_
        obtain ⟨node, found⟩ := mem_ids.mp inside
        obtain ⟨same, there, named⟩ := edge
        cases (chain.1 round old id node found).symm.trans there
        exact none_ dep ⟨node, found, named⟩
      have once := worked.once
      rw [executed_cons history] at once
      refine (List.nodup_append.mp once).2.2 id (List.mem_flatMap.mpr ⟨round, ?_, first⟩)
        id again rfl
      exact List.mem_reverse.mpr old

end Once

/-- After any timely rounds every node was worked once exactly if only the last pass had
nodes to run and nothing was admitted after it. -/
theorem worked_once_iff (initial : WorkGraph T) (spec : LoopSpec T A E)
    (rounds : List (List (Event A E)))
    (l : Loop T A E) (path : Path (TimelyRound spec) (.start initial) rounds l) :
    WorkedOnce spec l ↔ SinglePass spec initial l :=
  ⟨single_of_worked (.reachable path), worked_of_single (.reachable path)⟩

section Sample

theorem fork_timely (pass : Sched Nat Nat String)
    (path : Path (Step (⟨forkGraph, 4, fun _ => true⟩ : Job Nat Nat)) {} forkEvents pass) :
    Path (Timely (⟨forkGraph, 4, fun _ => true⟩ : Job Nat Nat)) {} forkEvents pass := by
  obtain ⟨other, run, _, forked⟩ := fork_pass
  have same : some other = some pass :=
    ((path_iff_follow _).mp run).symm.trans ((path_iff_follow _).mp path)
  cases same
  obtain ⟨safe, told⟩ := Told.reachable path
  refine timely_of_settled path (.initial _) (.initial _)
    (settled_of_all safe told fun id inside => ?_)
  have named : id ∈ ["a", "b", "c"] := inside
  simp only [List.mem_cons, List.not_mem_nil, or_false] at named
  rcases named with rfl | rfl | rfl
  · exact (told.told "a").mp ⟨_, forked.failed⟩
  · exact (told.told "b").mp ⟨_, forked.blocked⟩
  · exact (told.told "c").mp ⟨_, forked.completed⟩

/-- There is no room for what is discovered, so nothing is admitted after the pass. -/
theorem worked_once_sample : ∃ l : Loop Nat Nat String,
    Path (TimelyRound (forkSpec 3)) (.start forkGraph) [forkEvents] l ∧ Over (forkSpec 3) l ∧
      l.executed = ["a", "c"] ∧ WorkedOnce (forkSpec 3) l := by
  obtain ⟨pass, moved, forked, stopped, history⟩ := fork_round 3 (by decide)
  have path : Path (TimelyRound (forkSpec 3)) (.start forkGraph) [forkEvents]
      (turn (forkSpec 3) (.start forkGraph) pass) := .cons ⟨moved, fork_timely⟩ (.nil _)
  refine ⟨_, path, .inl stopped, ?_, (worked_once_iff forkGraph _ _ _ path).mpr ?_⟩
  · rw [Loop.executed, history]
    exact congrArg (· ++ []) forked.starts
  · rw [SinglePass, history]
    exact ⟨rfl, List.forall_mem_nil _⟩

/-- Nothing is ever discovered, and the second dry round ends the loop. -/
def drySpec : LoopSpec Nat Nat String := seedSpec (some fun _ => []) 8 200

/-- A node that completed is run again in the next round, and then fails. -/
theorem node_may_be_worked_again :
    ∃ rounds l, Path (LoopStep drySpec) (.start seedGraph) rounds l ∧ Over drySpec l ∧
      (result drySpec l).stoppedBecause = .dry 2 ∧ ¬ WorkedOnce drySpec l ∧
      l.executed = ["seed", "seed"] ∧ (result drySpec l).outcomes.get? "seed" =
        some (.failed "down") := by
  obtain ⟨first, one, startsOne, _⟩ :=
    seed_round (some fun _ => []) 8 200 (.start seedGraph) rfl rfl (by decide) (.ok 7)
  have below : (turn drySpec (.start seedGraph) first).rounds < 8 := show 1 < 8 by decide
  obtain ⟨second, two, startsTwo, failed⟩ := seed_round (some fun _ => []) 8 200
    (turn drySpec (.start seedGraph) first) rfl rfl below (.error "down")
  have executed : (turn drySpec (turn drySpec (.start seedGraph) first) second).executed =
      ["seed", "seed"] := by
    have pairs : (turn drySpec (turn drySpec (.start seedGraph) first) second).executed =
      first.starts ++ (second.starts ++ []) := rfl
    rw [pairs, startsOne, startsTwo]
    rfl
  refine ⟨_, turn drySpec (turn drySpec (.start seedGraph) first) second,
    .cons one (.cons two (.nil _)),
    .inl rfl, rfl, fun worked => ?_, executed, ?_⟩
  · have once := worked.once
    rw [executed] at once
    exact absurd once (by decide)
  · have merged : (turn drySpec (turn drySpec (.start seedGraph) first) second).outcomes.get?
        "seed" =
      ((report second).outcomes.get? "seed").or _ := merge_get _ _ _
    rw [report, failed] at merged
    exact merged

end Sample

end Metahumotonic.Agent
