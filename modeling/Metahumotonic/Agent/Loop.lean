import Metahumotonic.Agent.SchedulerOutcome

/-! The agent loop (`run` of `ts/src/agent/Loop.ts`): every round runs the graph in one
pass of the scheduler and may then add the nodes that were discovered. The clock is not
modelled: no timeout fires. -/
namespace Metahumotonic.Agent

open Library WorkGraph

structure LoopBudget where
  maxRounds : Nat := 8
  maxNodes : Nat := 200
  dryRounds : Nat := 2
  concurrency : Nat := 4
  deriving DecidableEq, Repr

inductive StopReason where
  | frontierEmpty
  | dry (rounds : Nat)
  | roundBudget
  | nodeBudget
  | timedOut
  | graphUnrunnable (reason : String)
  deriving DecidableEq, Repr

/-- What `discover` is told about a round. -/
structure Discovery (T : Type u) (A : Type v) (E : Type w) where
  graph : WorkGraph T
  outcomes : Table NodeId (Outcome A E)
  index : Nat

structure LoopSpec (T : Type u) (A : Type v) (E : Type w) where
  discover : Option (Discovery T A E → List (WorkNode T))
  budget : LoopBudget := {}
  defined : A → Bool

/-- What happened in a round: the graph that was run, how its pass ended, what was proposed. -/
structure Round (T : Type u) (A : Type v) (E : Type w) where
  graph : WorkGraph T
  pass : Sched T A E
  proposed : List (WorkNode T)

/-- The variables of the loop, whether it was left, and its rounds, the latest first,
which the program does not keep. -/
structure Loop (T : Type u) (A : Type v) (E : Type w) where
  graph : WorkGraph T
  seen : Finset NodeId
  outcomes : Table NodeId (Outcome A E) := .empty
  rounds : Nat := 0
  consecutiveDry : Nat := 0
  stoppedBecause : StopReason := .frontierEmpty
  stopped : Bool := false
  history : List (Round T A E) := []

structure LoopResult (T : Type u) (A : Type v) (E : Type w) where
  graph : WorkGraph T
  outcomes : Table NodeId (Outcome A E)
  rounds : Nat
  admitted : Nat
  stoppedBecause : StopReason

section Program

variable {T : Type u} {A : Type v} {E : Type w}

def Unrunnable.tag : Unrunnable → String
  | .cyclicGraph _ => "CyclicGraph"
  | .danglingDependency _ => "DanglingDependency"

def Loop.start (initial : WorkGraph T) : Loop T A E :=
  { graph := initial, seen := initial.ids.toFinset }

/-- What the scheduler is given in a round. -/
def LoopSpec.job (spec : LoopSpec T A E) (l : Loop T A E) : Job T A :=
  ⟨l.graph, spec.budget.concurrency, spec.defined⟩

/-- Later outcomes replace earlier ones. -/
def merge (outcomes latest : Table NodeId (Outcome A E)) : Table NodeId (Outcome A E) :=
  latest.entries.foldl (fun merged entry => merged.set entry.1 entry.2) outcomes

/-- The rest of a round once its pass is over. -/
def turn (spec : LoopSpec T A E) (l : Loop T A E) (pass : Sched T A E) : Loop T A E :=
  let next := { l with
    outcomes := merge l.outcomes (report pass).outcomes
    rounds := l.rounds + 1 }
  match spec.discover with
  | none =>
    { next with
      stoppedBecause := .frontierEmpty
      stopped := true
      history := ⟨l.graph, pass, []⟩ :: l.history }
  | some discover =>
    let proposed := discover ⟨l.graph, (report pass).outcomes, next.rounds - 1⟩
    let next := { next with history := ⟨l.graph, pass, proposed⟩ :: l.history }
    let fresh := proposed.filter (·.id ∉ l.seen)
    if fresh.length = 0 then
      let dry := l.consecutiveDry + 1
      if spec.budget.dryRounds ≤ dry then
        { next with consecutiveDry := dry, stoppedBecause := .dry dry, stopped := true }
      else { next with consecutiveDry := dry }
    else
      let room := spec.budget.maxNodes - l.seen.card
      let admitted := fresh.take room
      let grown := { next with
        consecutiveDry := 0
        seen := admitted.foldl (fun seen node => insert node.id seen) l.seen
        graph := admitted.foldl addNode l.graph }
      if admitted.length < fresh.length then
        { grown with stoppedBecause := .nodeBudget, stopped := true }
      else grown

/-- A round of the loop, by the events of its pass. -/
def LoopStep (spec : LoopSpec T A E) (l : Loop T A E) (events : List (Event A E))
    (next : Loop T A E) :
    Prop :=
  l.stopped = false ∧ l.rounds < spec.budget.maxRounds ∧
    match launch (spec.job l) with
    | .error why =>
      events = [] ∧ next = { l with stoppedBecause := .graphUnrunnable why.tag, stopped := true }
    | .ok initial =>
      ∃ pass, Path (Step (spec.job l)) initial events pass ∧ pass.pc = .finished ∧
        next = turn spec l pass

/-- The loop was left, or its condition fails. -/
def Over (spec : LoopSpec T A E) (l : Loop T A E) : Prop :=
  l.stopped = true ∨ spec.budget.maxRounds ≤ l.rounds

def result (spec : LoopSpec T A E) (l : Loop T A E) : LoopResult T A E where
  graph := l.graph
  outcomes := l.outcomes
  rounds := l.rounds
  admitted := l.seen.card
  stoppedBecause :=
    if spec.budget.maxRounds ≤ l.rounds ∧ l.stoppedBecause = .frontierEmpty then .roundBudget
    else l.stoppedBecause

/-- The proposed nodes that were not seen before the round. -/
def Round.fresh (round : Round T A E) : List (WorkNode T) :=
  round.proposed.filter (·.id ∉ round.graph.ids)

/-- The fresh nodes that fit the node budget, and those that do not. -/
def Round.kept (budget : LoopBudget) (round : Round T A E) : List (WorkNode T) :=
  round.fresh.take (budget.maxNodes - round.graph.ids.length)

def Round.cut (budget : LoopBudget) (round : Round T A E) : List (WorkNode T) :=
  round.fresh.drop (budget.maxNodes - round.graph.ids.length)

end Program

section Growth

variable {T : Type u} {A : Type v} {E : Type w} {base graph : WorkGraph T}

/-- A graph that keeps the nodes of another and lets its new nodes depend on them only. -/
structure Grown (base graph : WorkGraph T) : Prop where
  kept : ∀ id ∈ base.ids, graph.nodes.get? id = base.nodes.get? id
  fresh : ∀ id node, graph.nodes.get? id = some node → id ∉ base.ids → ∀ dep ∈ node.dependsOn,
    dep ∈ base.ids

theorem Grown.refl (graph : WorkGraph T) : Grown graph graph :=
  ⟨fun _ _ => rfl, fun _ node found outside => absurd (mem_ids.mpr ⟨node, found⟩) outside⟩

theorem mem_ids_addNode {node : WorkNode T} {id : NodeId} :
    id ∈ (graph.addNode node).ids ↔ id = node.id ∨ id ∈ graph.ids :=
  Table.mem_keys_set _ _ _ _

theorem Grown.addNode (grown : Grown base graph) {node : WorkNode T} (new : node.id ∉ base.ids)
    (deps : ∀ dep ∈ node.dependsOn, dep ∈ base.ids) : Grown base (graph.addNode node) where
  kept id inside := by
    have other : id ≠ node.id := fun same => new (same ▸ inside)
    exact (Table.get?_set_ne _ _ other).trans (grown.kept id inside)
  fresh id other found outside := by
    simp only [WorkGraph.addNode, Table.get?_set] at found
    split at found
    · cases found
      exact deps
    · exact grown.fresh id other found outside

theorem Grown.foldl (nodes : List (WorkNode T)) (new : ∀ node ∈ nodes, node.id ∉ base.ids)
    (deps : ∀ node ∈ nodes, ∀ dep ∈ node.dependsOn, dep ∈ base.ids) (grown : Grown base graph) :
    Grown base (nodes.foldl WorkGraph.addNode graph) := by
  induction nodes generalizing graph with
  | nil => exact grown
  | cons node rest ih =>
    exact ih (fun other member => new other (List.mem_cons_of_mem _ member))
      (fun other member => deps other (List.mem_cons_of_mem _ member))
      (grown.addNode (new node List.mem_cons_self) (deps node List.mem_cons_self))

theorem mem_ids_foldl (nodes : List (WorkNode T)) {id : NodeId} :
    id ∈ (nodes.foldl WorkGraph.addNode graph).ids ↔ id ∈ graph.ids ∨ id ∈ nodes.map (·.id) := by
  induction nodes generalizing graph with
  | nil => simp
  | cons node rest ih =>
    rw [List.foldl_cons, ih, mem_ids_addNode, List.map_cons, List.mem_cons]
    tauto

theorem Grown.inside (grown : Grown base graph) {id : NodeId} (old : id ∈ base.ids) :
    id ∈ graph.ids := by
  obtain ⟨node, found⟩ := mem_ids.mp old
  exact mem_ids.mpr ⟨node, (grown.kept id old).trans found⟩

theorem Grown.dep_base (grown : Grown base graph) (free : DanglingFree base) {a b : NodeId}
    (edge : DependsOn graph a b) : b ∈ base.ids := by
  obtain ⟨node, found, named⟩ := edge
  by_cases old : a ∈ base.ids
  · exact free a b ⟨node, (grown.kept a old).symm.trans found, named⟩
  · exact grown.fresh a node found old b named

theorem Grown.dependsOn (grown : Grown base graph) {a b : NodeId} (old : a ∈ base.ids) :
    DependsOn graph a b ↔ DependsOn base a b := by
  simp only [DependsOn, grown.kept a old]

theorem Grown.ancestor (grown : Grown base graph) (free : DanglingFree base) {a d : NodeId}
    (old : d ∈ base.ids) (path : Ancestor graph a d) : Ancestor base a d ∧ a ∈ base.ids := by
  induction path with
  | single edge => exact ⟨.single ((grown.dependsOn old).mp edge), grown.dep_base free edge⟩
  | tail _ edge ih =>
    exact ⟨ih.1.tail ((grown.dependsOn ih.2).mp edge), grown.dep_base free edge⟩

/-- New nodes close no cycle. -/
theorem Grown.acyclic (grown : Grown base graph) (free : DanglingFree base)
    (acyclic : Acyclic base) :
    Acyclic graph := by
  intro id path
  obtain ⟨_, _, last⟩ := Relation.TransGen.tail'_iff.mp path
  have old := grown.dep_base free last
  exact acyclic id (grown.ancestor free old path).1

theorem Grown.danglingFree (grown : Grown base graph) (free : DanglingFree base) :
    DanglingFree graph :=
  fun _ _ edge => grown.inside (grown.dep_base free edge)

theorem toFinset_foldl (nodes : List (WorkNode T)) :
    (nodes.foldl WorkGraph.addNode graph).ids.toFinset =
      nodes.foldl (fun seen node => insert node.id seen) graph.ids.toFinset := by
  induction nodes generalizing graph with
  | nil => rfl
  | cons node rest ih =>
    rw [List.foldl_cons, List.foldl_cons, ih]
    congr 1
    ext id
    rw [List.mem_toFinset, mem_ids_addNode, Finset.mem_insert, List.mem_toFinset]

theorem card_ids (graph : WorkGraph T) : graph.ids.toFinset.card = graph.ids.length :=
  List.toFinset_card_of_nodup graph.nodes.keys_nodup

theorem card_foldl (nodes : List (WorkNode T)) (seen : Finset NodeId) :
    (nodes.foldl (fun seen node => insert node.id seen) seen).card ≤ seen.card + nodes.length := by
  induction nodes generalizing seen with
  | nil => exact Nat.le_refl _
  | cons node rest ih =>
    have head := Finset.card_insert_le node.id seen
    have tail := ih (insert node.id seen)
    rw [List.foldl_cons, List.length_cons]
    omega

end Growth

end Metahumotonic.Agent
