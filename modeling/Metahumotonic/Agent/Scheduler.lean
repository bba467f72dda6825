import Metahumotonic.Agent.Planning
import Metahumotonic.Agent.TopoSort
import Metahumotonic.Library.Run

/-! The scheduler (`run` of `ts/src/agent/Scheduler.ts`) as a transition system: the
coordinator plans, marks, starts and joins, and every fiber ends when it likes. -/
namespace Metahumotonic.Agent

open Library

inductive Outcome (A : Type u) (E : Type v) where
  | completed (value : A)
  | failed (error : E)
  | blocked (by_ : NodeId)
  deriving DecidableEq, Repr

structure RunReport (A : Type u) (E : Type v) where
  outcomes : Table NodeId (Outcome A E)
  completed : List NodeId
  failed : List NodeId
  blocked : List NodeId
  peakConcurrency : Nat

inductive Unrunnable where
  | cyclicGraph (involved : List NodeId)
  | danglingDependency (edges : List (NodeId × NodeId))
  deriving DecidableEq, Repr

/-- What is run. `defined` tells the values that are not `undefined`. -/
structure Job (T : Type u) (A : Type v) where
  graph : WorkGraph T
  concurrency : Nat
  defined : A → Bool

structure Fiber (T : Type u) (A : Type v) where
  key : Nat
  node : WorkNode T
  upstream : Table NodeId A

/-- Where the coordinator is: before the planning read, before the ready nodes are
marked, with nodes left to start, before the second read, in a join, in the last join. -/
inductive Pc where
  | plan
  | mark (ready : List NodeId)
  | start (todo : List NodeId)
  | check
  | join (fiber : Option Nat)
  | joinAll
  | finished
  deriving DecidableEq, Repr

/-- The references of a run, its fibers, and a record of what was started and how it
ended, which the program does not read. -/
structure Sched (T : Type u) (A : Type v) (E : Type w) where
  state : RunState := initialRunState
  outcomes : Table NodeId (Outcome A E) := .empty
  values : Table NodeId A := .empty
  peak : Nat := 0
  live : List Nat := []
  active : List (Fiber T A) := []
  starts : List NodeId := []
  results : List (NodeId × Except E A) := []
  pc : Pc := .plan

section Program

variable {T : Type u} {A : Type v} {E : Type w}

/-- One turn of the search for the values of ancestors: a node whose value is known to
be taken is skipped, and the dependencies of any other node are pushed. -/
def collect (job : Job T A) (all seen : Table NodeId A) (id : NodeId) :
    Table NodeId A × List NodeId :=
  if (seen.get? id).isSome then (seen, [])
  else
    (match all.get? id with
      | some value => if job.defined value then seen.set id value else seen
      | none => seen,
    match job.graph.nodes.get? id with
      | some node => node.dependsOn
      | none => [])

/-- The longest list of dependencies. -/
def WorkGraph.breadth (graph : WorkGraph T) : Nat :=
  (graph.nodes.values.map (·.dependsOn.length)).foldr max 0

/-- How often the stack of `upstreamOf` is popped at most. -/
def upstreamFuel (graph : WorkGraph T) : Nat := (graph.breadth + 1) ^ (graph.nodes.size + 1)

/-- Ancestors' successful values, for the node about to run. -/
def upstreamOf (job : Job T A) (values : Table NodeId A) (node : WorkNode T) : Table NodeId A :=
  work (collect job values) (upstreamFuel job.graph) node.dependsOn.reverse .empty

def markFailed (graph : WorkGraph T) (s : Sched T A E) (id : NodeId) (error : E) : Sched T A E :=
  let cascade := graph.newlyBlocked s.state id
  { s with
    outcomes := (graph.ids.filter (· ∈ cascade)).foldl (fun next blockedId =>
      if (next.get? blockedId).isSome then next else next.set blockedId (.blocked id))
      (s.outcomes.set id (.failed error))
    state :=
      { done := s.state.done
        running := s.state.running.erase id
        blocked := insert id s.state.blocked ∪ cascade } }

def markCompleted (s : Sched T A E) (id : NodeId) (value : A) : Sched T A E :=
  { s with
    values := s.values.set id value
    outcomes := s.outcomes.set id (.completed value)
    state :=
      { done := insert id s.state.done
        running := s.state.running.erase id
        blocked := s.state.blocked } }

/-- Read the values of the ancestors, fork the node and put its fiber in the queue. -/
def fork (job : Job T A) (s : Sched T A E) (node : WorkNode T) : Sched T A E :=
  { s with
    active := s.active ++ [⟨s.starts.length, node, upstreamOf job s.values node⟩]
    live := s.live ++ [s.starts.length]
    starts := s.starts ++ [node.id] }

def Sched.alive (s : Sched T A E) (key : Nat) : Bool := s.active.any (·.key == key)

/-- One step of the coordinator, if it is not waiting. -/
def coordinate (job : Job T A) (s : Sched T A E) : Option (Sched T A E) :=
  match s.pc with
  | .plan =>
    let slots := job.concurrency - s.state.running.card
    let ready := (job.graph.readySet s.state).take slots
    if 0 < slots ∧ ready ≠ [] then some { s with pc := .mark ready }
    else some { s with pc := .check }
  | .mark ready =>
    some { s with
      state := { s.state with running := s.state.running ∪ ready.toFinset }
      pc := .start ready }
  | .start (id :: todo) =>
    match job.graph.nodes.get? id with
    | some node => some { fork job s node with pc := .start todo }
    | none => none
  | .start [] => some { s with peak := max s.peak s.state.running.card, pc := .plan }
  | .check => some { s with pc := if s.state.running = ∅ then .joinAll else .join s.live.head? }
  | .join none => some { s with live := s.live.tail, pc := .plan }
  | .join (some key) => if s.alive key then none
    else some { s with live := s.live.tail, pc := .plan }
  | .joinAll => if s.live.any s.alive then none else some { s with pc := .finished }
  | .finished => none

/-- A fiber leaves the run with its result. -/
def settle (s : Sched T A E) (fiber : Fiber T A) (result : Except E A) : Sched T A E :=
  { s with
    active := s.active.eraseP (·.key == fiber.key)
    results := s.results ++ [(fiber.node.id, result)] }

/-- A fiber's execution ends with a value or an error, which is then marked. -/
def finish (graph : WorkGraph T) (s : Sched T A E) (key : Nat) (result : Except E A) :
    Option (Sched T A E) :=
  match s.active.find? (·.key == key) with
  | none => none
  | some fiber =>
    match result with
    | .ok value => some (markCompleted (settle s fiber result) fiber.node.id value)
    | .error error => some (markFailed graph (settle s fiber result) fiber.node.id error)

inductive Event (A : Type v) (E : Type w) where
  | coordinate
  | finish (key : Nat) (result : Except E A)

def advance (job : Job T A) (s : Sched T A E) : Event A E → Option (Sched T A E)
  | .coordinate => coordinate job s
  | .finish key result => finish job.graph s key result

def Step (job : Job T A) (s : Sched T A E) (event : Event A E) (t : Sched T A E) : Prop :=
  advance job s event = some t

/-- A graph that cannot be run is refused before anything is started. -/
def launch (job : Job T A) : Except Unrunnable (Sched T A E) :=
  let dangling := job.graph.danglingEdges
  if 0 < dangling.length then .error (.danglingDependency dangling)
  else
    match job.graph.topoSort with
    | .cyclic involved => .error (.cyclicGraph involved)
    | .ordered _ => .ok {}

def Outcome.isCompleted : Outcome A E → Bool
  | .completed _ => true
  | _ => false

def Outcome.isFailed : Outcome A E → Bool
  | .failed _ => true
  | _ => false

def Outcome.isBlocked : Outcome A E → Bool
  | .blocked _ => true
  | _ => false

/-- The outcome of a node whose execution ended. -/
def Outcome.ofResult : Except E A → Outcome A E
  | .ok value => .completed value
  | .error error => .failed error

def pick (outcomes : Table NodeId (Outcome A E)) (tag : Outcome A E → Bool) : List NodeId :=
  jsSort ((outcomes.entries.filter (tag ·.2)).map (·.1))

def report (s : Sched T A E) : RunReport A E where
  outcomes := s.outcomes
  completed := pick s.outcomes Outcome.isCompleted
  failed := pick s.outcomes Outcome.isFailed
  blocked := pick s.outcomes Outcome.isBlocked
  peakConcurrency := s.peak

end Program

section Results

variable {T : Type u} {A : Type v} {E : Type w} {job : Job T A}

/-- Exactly the acyclic graphs without dangling dependencies are run. -/
theorem launch_ok_iff {s : Sched T A E} :
    launch job = .ok s ↔ s = {} ∧ Acyclic job.graph ∧ DanglingFree job.graph := by
  unfold launch
  rw [← WorkGraph.danglingEdges_nil]
  simp only
  split
  · rename_i some_
    refine iff_of_false nofun fun ⟨_, _, none_⟩ => ?_
    rw [none_] at some_
    exact Nat.lt_irrefl 0 some_
  · rename_i none_
    have free := List.length_eq_zero_iff.mp (Nat.eq_zero_of_not_pos none_)
    cases sorted : job.graph.topoSort with
    | cyclic involved =>
      refine iff_of_false nofun fun ⟨_, acyclic, _⟩ => ?_
      obtain ⟨order, other⟩ := topoSort_ordered acyclic
      rw [sorted] at other
      cases other
    | ordered order =>
      constructor
      · intro same
        exact ⟨(Except.ok.inj same).symm, topoSort_acyclic sorted, free⟩
      · rintro ⟨rfl, _, _⟩
        rfl

theorem launch_ok (acyclic : Acyclic job.graph) (free : DanglingFree job.graph) :
    (launch job : Except Unrunnable (Sched T A E)) = .ok {} :=
      launch_ok_iff.mpr ⟨rfl, acyclic, free⟩

theorem mem_pick {outcomes : Table NodeId (Outcome A E)} {tag : Outcome A E → Bool} {id : NodeId} :
    id ∈ pick outcomes tag ↔ ∃ outcome, outcomes.get? id = some outcome ∧ tag outcome = true := by
  simp only [pick, mem_jsSort, List.mem_map, List.mem_filter, Prod.exists, Table.mem_entries]
  constructor
  · rintro ⟨other, outcome, ⟨found, tagged⟩, rfl⟩
    exact ⟨outcome, found, tagged⟩
  · rintro ⟨outcome, found, tagged⟩
    exact ⟨id, outcome, ⟨found, tagged⟩, rfl⟩

/-- The upstream of a node depends on the values of its ancestors only. -/
theorem upstreamOf_congr {values others : Table NodeId A} {node : WorkNode T}
    (stored : node ∈ job.graph.nodes.values)
    (same : ∀ id, Ancestor job.graph id node.id → values.get? id = others.get? id) :
    upstreamOf job values node = upstreamOf job others node := by
  refine work_congr (fun id => Ancestor job.graph id node.id) ?_ ?_ _ _ ?_ _
  · intro seen id ancestor
    simp only [collect, same id ancestor]
  · intro seen id ancestor dep pushed
    unfold collect at pushed
    split at pushed
    · cases pushed
    · cases found : job.graph.nodes.get? id with
      | none => simp [found] at pushed
      | some inner =>
        simp only [found] at pushed
        exact Relation.TransGen.tail ancestor ⟨inner, found, pushed⟩
  · intro dep named
    exact .single ((dependsOn_value stored dep).mpr (List.mem_reverse.mp named))

end Results

end Metahumotonic.Agent
