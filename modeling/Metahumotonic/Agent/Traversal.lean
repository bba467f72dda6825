import Metahumotonic.Agent.WorkGraph

/-! The walk over the knowledge graph (`ts/src/agent/Traversal.ts`): a breadth-first search
whose frontier is scored, bounded and deduplicated. -/
namespace Metahumotonic.Agent.Traversal

open Library

inductive Direction where
  | out
  | in_
  deriving DecidableEq, Repr

structure GraphNeighbor where
  direction : Direction
  type : String
  name : String
  labels : List String
  deriving DecidableEq, Repr

/-- A page of neighbours. -/
structure NodeNeighbors where
  degree : Nat
  neighbors : List GraphNeighbor
  truncated : Bool
  deriving DecidableEq, Repr

/-- `kg.neighbors`, by the name and the limit. -/
abbrev Neighbors := String → Nat → NodeNeighbors

/-- The edge by which a node was reached. -/
structure Via where
  type : String
  direction : Direction
  from_ : String
  deriving DecidableEq, Repr

structure Visited where
  name : String
  depth : Nat
  degree : Nat
  via : Option Via
  truncated : Bool
  deriving DecidableEq, Repr

/-- `maxNodes` is `none` for a budget without end. -/
structure WalkOptions (S : Type u) where
  maxNodes : Option Nat
  maxDepth : Nat
  branching : Nat
  score : GraphNeighbor → Visited → S
  excludeTypes : List String

inductive StoppedBecause where
  | exhausted
  | maxNodes
  | maxDepth
  deriving DecidableEq, Repr

structure WalkResult where
  seed : String
  visited : List Visited
  unexplored : List String
  stoppedBecause : StoppedBecause
  deriving DecidableEq, Repr

def defaultScore (n : GraphNeighbor) (_ : Visited) : Int := if n.direction = .out then 1 else 0

def defaultWalk : WalkOptions Int where
  maxNodes := some 40
  maxDepth := 3
  branching := 8
  score := defaultScore
  excludeTypes := []

/-- The variables of the loop, and a record of what was expanded, which the program does not keep.
-/
structure WalkState where
  seen : Finset String
  visited : List Visited
  unexplored : List String := []
  queue : List Visited
  stoppedBecause : StoppedBecause := .exhausted
  expanded : List Visited := []
  deriving DecidableEq

section Program

variable {S : Type u} [LinearOrder S] [Zero S] (opts : WalkOptions S) (kg : Neighbors)
    (seed : String)

/-- The budget of nodes is used up. -/
def WalkOptions.full (count : Nat) : Bool :=
  match opts.maxNodes with
  | none => false
  | some m => m ≤ count

/-- The edges that lead on, best first; edges of the same score stay in order. -/
def candidates (page : NodeNeighbors) (current : Visited) (seen : Finset String) :
    List GraphNeighbor :=
  let scored := (page.neighbors.filter fun n => n.name ≠ "" ∧ n.type ∉ opts.excludeTypes ∧
    n.name ∉ seen).map
    fun n => (n, opts.score n current)
  let admitted := scored.filter fun c => 0 ≤ c.2
  ((admitted.insertionSort fun a b => b.2 ≤ a.2).take opts.branching).map (·.1)

/-- The node at the other end of an edge. -/
def reached (current : Visited) (n : GraphNeighbor) : Visited where
  name := n.name
  depth := current.depth + 1
  degree := 0
  via := some ⟨n.type, n.direction, current.name⟩
  truncated := false

/-- One candidate: it is new or not, and there is room for it or not. -/
def offer (current : Visited) (s : WalkState) (n : GraphNeighbor) : WalkState :=
  if n.name ∈ s.seen then s
  else if opts.full s.visited.length then
    { s with
      seen := insert n.name s.seen
      unexplored := s.unexplored ++ [n.name]
      stoppedBecause := .maxNodes }
  else
    { s with
      seen := insert n.name s.seen
      visited := s.visited ++ [reached current n]
      queue := s.queue ++ [reached current n] }

/-- What is left in the queue is not explored. -/
def drain (s : WalkState) : WalkState :=
  { s with
    unexplored := s.unexplored ++ s.queue.map (·.name)
    queue := []
    stoppedBecause := .maxNodes }

/-- One turn of the loop, after `current` was taken from the queue. -/
def turn (head : NodeNeighbors) (current : Visited) (s : WalkState) : WalkState :=
  if opts.maxDepth ≤ current.depth then { s with stoppedBecause := .maxDepth }
  else
    let page := if current.name = seed then head else kg current.name opts.branching
    let offered := (candidates opts page current s.seen).foldl (offer opts current) s
    let next := { offered with expanded := s.expanded ++ [current] }
    if opts.full next.visited.length then drain next else next

def loop (head : NodeNeighbors) : Nat → WalkState → WalkState
  | 0, s => s
  | fuel + 1, s =>
    match s.queue with
    | [] => s
    | current :: rest => loop head fuel (turn opts kg seed head current { s with queue := rest })

/-- The loop with no bound on its turns. -/
inductive LoopEnds (head : NodeNeighbors) : WalkState → WalkState → Prop
  | empty (s : WalkState) (none_ : s.queue = []) : LoopEnds head s s
  | turn (s final : WalkState) (current : Visited) (rest : List Visited)
    (here : s.queue = current :: rest)
      (ends : LoopEnds head
        (Traversal.turn opts kg seed head current { s with queue := rest }) final) :
      LoopEnds head s final

def start : WalkState :=
  let head := kg seed opts.branching
  let seedNode : Visited := ⟨seed, 0, head.degree, none, head.truncated⟩
  { seen := {seed}, visited := [seedNode], queue := [seedNode] }

/-- A bound on the nodes that are taken from the queue. -/
def turns : Nat := Nat.pow (opts.branching + 1) (opts.maxDepth + 1)

def walkState : WalkState := loop opts kg seed (kg seed opts.branching) (turns opts)
    (start opts kg seed)

def walk : WalkResult :=
  let s := walkState opts kg seed
  { seed := seed
    visited := s.visited
    unexplored := jsSort s.unexplored.dedup
    stoppedBecause := s.stoppedBecause }

end Program

/-- Every visited node as work that waits for the node it was reached from. -/
def toWorkNodes (result : WalkResult) : List (WorkNode Visited) :=
  result.visited.map fun v =>
    { id := v.name
      payload := v
      dependsOn := match v.via with
        | none => []
        | some via => [via.from_]
      writeSet := [] }

end Metahumotonic.Agent.Traversal
