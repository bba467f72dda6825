import Metahumotonic.Kg.KnowledgeGraph
import Metahumotonic.Library.CypherEdges

/-! The effect of a planned statement, told by the nodes that are there before it. A
statement that does not find the nodes that it matches first does nothing; a dispatch
writes its node in any case, and its relationships as far as it finds the other ends. -/
namespace Metahumotonic.Kg

open Library
open Library.Cypher (Node Clause Row)

abbrev Nodes := List (Node Scalar)

def named (name : String) (node : Node Scalar) : Bool := node.props "name" == some (.text name)

/-- There is a node of that name. -/
def known (nodes : Nodes) (name : String) : Bool := nodes.any (named name)

/-- The node at a position is of a kind. -/
def At (nodes : Nodes) (i : Nat) (kind : Node Scalar → Bool) : Prop :=
  ∃ node, nodes[i]? = some node ∧ kind node = true

structure PlannedNode where
  label : String
  name : String
  values : List (String × Scalar)

def PlannedNode.is (n : PlannedNode) : Node Scalar → Bool := Node.is n.label "name" (.text n.name)

def propsOf (s : Statement) : List (String × Scalar) :=
  match s.params.lookup "props" with
  | some (.props values) => values
  | _ => []

/-- The relationships that a statement names, between nodes before and after it has written its own.
-/
def Joins (before after : Nodes) (intent : WriteIntent) (a : Nat) (type : String)
    (b : Nat) : Prop :=
  match intent with
  | .recordFinding f => type = "HAS_FINDING" ∧ (∃ hub ∈ f.hub, At before a (named hub)) ∧
      At after b (Node.is "ResearchFinding" "name" (.text f.name))
  | .recordLesson _ => False
  | .recordDispatch d =>
    At after a (Node.is "DispatchHyperedge" "name" (.text d.name)) ∧ known after d.parent ∧
      (type = "PRODUCED_BY" ∧ At after b (named d.parent) ∨
        type = "DISPATCHED" ∧ ∃ child ∈ d.children, At after b (named child))
  | .linkNodes k => type = k.relType ∧ At before a (named k.source) ∧ At before b (named k.target)

section
variable (prov : Provenance) (nowIso : String)

/-- The node that an intent writes, with the values of its statement. -/
def plannedNode (intent : WriteIntent) : Option PlannedNode :=
  match intent with
  | .recordFinding f => some ⟨"ResearchFinding", f.name, propsOf (plan intent prov nowIso)⟩
  | .recordLesson l => some ⟨"Lesson", l.name, propsOf (plan intent prov nowIso)⟩
  | .recordDispatch d => some ⟨"DispatchHyperedge", d.name, propsOf (plan intent prov nowIso)⟩
  | .linkNodes _ => none

/-- The nodes that a statement matches before it writes are there. -/
def findsEnds (nodes : Nodes) : WriteIntent → Bool
  | .recordFinding f => f.hub.all (known nodes)
  | .recordLesson _ => true
  | .recordDispatch _ => true
  | .linkNodes k => known nodes k.source && known nodes k.target

def made (n : PlannedNode) (nodes : Nodes) : Nodes :=
  if nodes.any n.is then nodes
  else nodes ++ [⟨[n.label], fun key => if key = "name" then some (.text n.name) else none⟩]

def mergeInto (n : PlannedNode) (nodes : Nodes) : Nodes :=
  (made n nodes).map fun node => if n.is node then node.setAll n.values else node

def nodesAfter (nodes : Nodes) (intent : WriteIntent) : Nodes :=
  match plannedNode prov nowIso intent with
  | some n => if findsEnds nodes intent then mergeInto n nodes else nodes
  | none => nodes

/-- The relationships that a statement writes. -/
def WritesEdge (nodes : Nodes) (intent : WriteIntent) (a : Nat) (type : String) (b : Nat) : Prop :=
  Joins nodes (nodesAfter prov nowIso nodes intent) intent a type b

/-- A relationship with the run and the actor that linked it last. -/
def mark (e : Cypher.Edge Scalar) : Cypher.Edge Scalar :=
  { e with props := Cypher.overlay [("run_id", .text prov.runId),
    ("actor", .text prov.actor)] e.props }

/-- What the statement of a link leaves on the relationships between its ends. -/
def marked (nodes : Nodes) (intent : WriteIntent) (e : Cypher.Edge Scalar) : Cypher.Edge Scalar :=
  match intent with
  | .linkNodes k =>
    if e.type = k.relType ∧ nodes[e.source]?.any (named k.source) ∧ nodes[e.target]?.any
      (named k.target) then
      mark prov e
    else e
  | _ => e

/-- The effect of a statement. New relationships lie behind the old ones, between ends that had
none. -/
structure Effect (intent : WriteIntent) (g after : KnowledgeGraph) : Prop where
  nodes : after.nodes = nodesAfter prov nowIso g.nodes intent
  linked : ∀ a t b, after.Linked a t b ↔
    g.Linked a t b ∨ WritesEdge prov nowIso g.nodes intent a t b
  edges : ∃ new, after.edges = (g.edges ++ new).map (marked prov g.nodes intent) ∧
    ∀ e ∈ new, ¬ g.Linked e.source e.type e.target

end

/-! The clauses of a statement have this effect. -/

def env (params : Params) : Cypher.Params Scalar where
  value name := match params.lookup name with
    | some (.scalar v) => some v
    | _ => none
  list name := match params.lookup name with
    | some (.texts texts) => texts.map .text
    | _ => []
  map name := match params.lookup name with
    | some (.props values) => values
    | _ => []

theorem known_iff {nodes : Nodes} {name : String} : known nodes name = true ↔ ∃ i, At nodes i
    (named name) := by
  simp only [known, List.any_eq_true, At]
  constructor
  · rintro ⟨node, there, holds⟩
    obtain ⟨i, found⟩ := List.mem_iff_getElem?.mp there
    exact ⟨i, node, found, holds⟩
  · rintro ⟨i, node, found, holds⟩
    exact ⟨node, List.mem_of_getElem? found, holds⟩

theorem at_lt {nodes : Nodes} {i : Nat} {kind : Node Scalar → Bool} (there : At nodes i kind) :
    i < nodes.length := by
  obtain ⟨node, found, _⟩ := there
  exact (List.getElem?_eq_some_iff.mp found).1

/-- The values of a statement leave the name alone. -/
theorem propsOf_name (intent : WriteIntent) (prov : Provenance) (nowIso : String) :
    member? (propsOf (plan intent prov nowIso)) "name" = none := by
  cases intent with
  | recordFinding f =>
    obtain ⟨name, description, evidence, citation, status, hub⟩ := f
    cases hub <;> cases citation <;> rfl
  | recordLesson l =>
    obtain ⟨name, wrongAssumption, truth, problem, solution, mechanism, citation⟩ := l
    cases citation <;> rfl
  | recordDispatch d =>
    obtain ⟨name, parent, children, kind, stoppedBecause, citation⟩ := d
    cases citation <;> rfl
  | linkNodes k => rfl

section
variable {prov : Provenance} {nowIso : String}

theorem plannedNode_name {intent : WriteIntent} {n : PlannedNode}
    (planned : plannedNode prov nowIso intent = some n) :
    member? n.values "name" = none := by
  cases intent with
  | recordFinding f =>
    cases planned
    exact propsOf_name (.recordFinding f) prov nowIso
  | recordLesson l =>
    cases planned
    exact propsOf_name (.recordLesson l) prov nowIso
  | recordDispatch d =>
    cases planned
    exact propsOf_name (.recordDispatch d) prov nowIso
  | linkNodes k => cases planned

theorem setAll_name {n : PlannedNode} (plain : member? n.values "name" = none)
    (node : Node Scalar) :
    (node.setAll n.values).props "name" = node.props "name" := by
  simp only [Node.setAll, Cypher.overlay, plain, Option.none_or]

/-- A kind of nodes that is told by the labels and the name. -/
def ByName (kind : Node Scalar → Bool) : Prop :=
  ∀ node other : Node Scalar, node.labels = other.labels → node.props "name" = other.props "name" →
    kind node = kind other

theorem named_byName (name : String) : ByName (named name) := by
  intro node other _ same
  rw [named, named, same]

theorem is_byName (label name : String) : ByName (Node.is label "name" (.text name)) := by
  intro node other labels same
  rw [Node.is, Node.is, labels, same]

/-- The values that are set do not change what kind a node is of. -/
theorem at_mergeInto {n : PlannedNode} (plain : member? n.values "name" = none)
    {nodes : Nodes} {i : Nat}
    {kind : Node Scalar → Bool} (byName : ByName kind) : At (mergeInto n nodes) i kind ↔
      At (made n nodes) i kind := by
  have same : ∀ node : Node Scalar, kind (if n.is node then node.setAll n.values else node) =
      kind node := by
    intro node
    split
    · exact byName _ _ rfl (setAll_name plain node)
    · rfl
  simp only [At, mergeInto, List.getElem?_map, Option.map_eq_some_iff]
  constructor
  · rintro ⟨_, ⟨node, there, rfl⟩, holds⟩
    exact ⟨node, there, by rwa [same] at holds⟩
  · rintro ⟨node, there, holds⟩
    exact ⟨_, ⟨node, there, rfl⟩, by rwa [same]⟩

end

/-! The clauses, statement by statement. -/

/-- A merge and the setting of values, from rows that do not name the node yet. -/
theorem merge_set (params : Cypher.Params Scalar) {g : KnowledgeGraph} {rows : List (Row Scalar)}
    {x : String}
    {n : PlannedNode} (given : params.value "name" = some (.text n.name))
    (values : params.map "props" = n.values)
    (some_ : rows ≠ []) :
    let merged := Clause.run params g rows (.mergeNode x n.label "name" (.param "name"))
    let set := Clause.run params merged.1 merged.2 (.setAll x "props")
    set.1.nodes = mergeInto n g.nodes ∧ set.1.edges = g.edges ∧ ∀ row, row ∈ set.2 ↔
      ∃ before ∈ rows, ∃ i, At (made n g.nodes) i n.is ∧ row = before.set x (.node i) := by
  intro merged set
  obtain ⟨graph, bound⟩ := Cypher.mergeNode_rows x n.label "name" given some_
  obtain ⟨nodes, edges, _⟩ := g.mergeNode_nodes n.label "name" (.text n.name)
  obtain ⟨same, kept, set_⟩ := Cypher.setAll_rows params merged.1 merged.2 x "props"
  have made_ : merged.1.nodes = made n g.nodes := by
    rw [graph, nodes]
    rfl
  rw [← graph, made_] at bound
  have names : ∀ row, row ∈ merged.2 ↔ ∃ before ∈ rows, ∃ i, At (made n g.nodes) i n.is ∧
      row = before.set x (.node i) := by
    intro row
    rw [bound]
    constructor
    · rintro ⟨before, member, i, node, there, holds, rfl⟩
      exact ⟨before, member, i, ⟨node, there, holds⟩, rfl⟩
    · rintro ⟨before, member, i, ⟨node, there, holds⟩, rfl⟩
      exact ⟨before, member, i, node, there, holds, rfl⟩
  refine ⟨?_, ?_, fun row => ?_⟩
  · apply List.ext_getElem?
    intro i
    rw [set_, made_, mergeInto, List.getElem?_map, values]
    cases there : (made n g.nodes)[i]? with
    | none => rfl
    | some node =>
      have touched : merged.2.any (Cypher.nodeOf · x == some i) = n.is node := by
        rw [Bool.eq_iff_iff, List.any_eq_true]
        constructor
        · rintro ⟨row, member, same⟩
          obtain ⟨before, _, j, ⟨other, found, holds⟩, rfl⟩ := (names row).mp member
          rw [Cypher.nodeOf_set, if_pos rfl] at same
          have equal : j = i := by simpa using same
          rw [equal, there] at found
          cases found
          exact holds
        · intro holds
          obtain ⟨before, member⟩ := List.exists_mem_of_ne_nil _ some_
          refine ⟨before.set x (.node i),
            (names _).mpr ⟨before, member, i, ⟨node, there, holds⟩, rfl⟩, ?_⟩
          rw [Cypher.nodeOf_set, if_pos rfl]
          exact beq_self_eq_true _
      rw [Option.map_some, Option.map_some, touched]
  · rw [kept, graph, edges]
  · rw [same]
    exact names row

/-- The statement of an intent leaves this graph. -/
def written (prov : Provenance) (nowIso : String) (g : KnowledgeGraph) (intent : WriteIntent) :
    KnowledgeGraph :=
  (Cypher.run (env (plan intent prov nowIso).params) (clauses intent) g).1

section
variable {prov : Provenance} {nowIso : String} {g : KnowledgeGraph}

variable (prov nowIso) in
theorem marked_plain (nodes : Nodes)
    {intent : WriteIntent} (plain : plannedNode prov nowIso intent ≠ none)
    (edges : List (Cypher.Edge Scalar)) : edges.map (marked prov nodes intent) = edges := by
  cases intent with
  | linkNodes k => exact absurd rfl plain
  | _ => exact List.map_id' edges

/-- Where no relationship is written, the old ones stay. -/
theorem Effect.of_nodes {intent : WriteIntent} {after : KnowledgeGraph}
    (planned : plannedNode prov nowIso intent ≠ none)
    (nodes : after.nodes = nodesAfter prov nowIso g.nodes intent)
    (edges : after.edges = g.edges)
    (none_ : ∀ a t b, ¬ WritesEdge prov nowIso g.nodes intent a t b) :
    Effect prov nowIso intent g after where
  nodes := nodes
  linked a t b := by
    rw [Cypher.Graph.Linked, edges, ← Cypher.Graph.Linked, or_iff_left (none_ a t b)]
  edges := ⟨[], by rw [marked_plain prov nowIso g.nodes planned, List.append_nil, edges],
    List.forall_mem_nil _⟩

theorem written_lesson (l : RecordLesson) :
    Effect prov nowIso (.recordLesson l) g (written prov nowIso g (.recordLesson l)) := by
  have merged := merge_set (env (plan (.recordLesson l) prov nowIso).params) (g := g) (x := "l")
    (n := ⟨"Lesson", l.name, propsOf (plan (.recordLesson l) prov nowIso)⟩) rfl rfl
    (List.cons_ne_nil (fun _ => none) [])
  exact .of_nodes nofun merged.1 merged.2.1 fun _ _ _ => id

theorem written_finding_alone (f : RecordFinding) (alone : f.hub = none) :
    Effect prov nowIso (.recordFinding f) g (written prov nowIso g (.recordFinding f)) := by
  obtain ⟨name, description, evidence, citation, status, hub⟩ := f
  subst alone
  have merged := merge_set
    (env (plan (.recordFinding ⟨name, description, evidence, citation, status, none⟩) prov
      nowIso).params)
    (g := g) (x := "f") (n := ⟨"ResearchFinding", name,
      propsOf (plan (.recordFinding ⟨name, description, evidence, citation, status, none⟩)
        prov nowIso)⟩)
    rfl rfl (List.cons_ne_nil (fun _ => none) [])
  refine .of_nodes nofun merged.1 merged.2.1 ?_
  rintro a t b ⟨_, ⟨hub, member, _⟩, _⟩
  cases member

/-- The rows that a first match gives. -/
theorem mem_first {params : Cypher.Params Scalar} {x key name : String}
    (given : params.value key = some (.text name))
    {rows : List (Row Scalar)} {row : Row Scalar} :
    row ∈ (Clause.run params g rows (.matchNode x "name" (.param key))).2 ↔
      ∃ before ∈ rows, ∃ i, At g.nodes i (named name) ∧ row = before.set x (.node i) := by
  rw [Cypher.mem_matchNode]
  simp only [Cypher.Term.eval, given, Option.some.injEq]
  constructor
  · rintro ⟨before, member, v, rfl, i, node, there, holds, rfl⟩
    exact ⟨before, member, i, ⟨node, there, beq_iff_eq.mpr holds⟩, rfl⟩
  · rintro ⟨before, member, i, ⟨node, there, holds⟩, rfl⟩
    exact ⟨before, member, _, rfl, i, node, there, beq_iff_eq.mp holds, rfl⟩

theorem made_length (n : PlannedNode) (nodes : Nodes) :
    nodes.length ≤ (mergeInto n nodes).length := by
  rw [mergeInto, List.length_map, made]
  split
  · exact Nat.le_refl _
  · rw [List.length_append]
    exact Nat.le_add_right _ _

theorem run_finding (params : Cypher.Params Scalar) (hub type : String) {n : PlannedNode}
    (nameGiven : params.value "name" = some (.text n.name))
    (hubGiven : params.value "hub" = some (.text hub))
    (values : params.map "props" = n.values) (plain : member? n.values "name" = none)
    (column : Cypher.Column) :
    let result := (Cypher.run params [.matchNode "h" "name" (.param "hub"),
      .mergeNode "f" n.label "name" (.param "name"), .setAll "f" "props",
        .mergeEdge "h" none type "f",
      .return_ column "name"] g).1
    result.nodes = (if known g.nodes hub then mergeInto n g.nodes else g.nodes) ∧
      (∀ a t b, result.Linked a t b ↔
        g.Linked a t b ∨ t = type ∧ At g.nodes a (named hub) ∧ At (mergeInto n g.nodes) b n.is) ∧
      ∃ new, result.edges = g.edges ++ new ∧ ∀ e ∈ new, ¬ g.Linked e.source e.type e.target := by
  intro result
  have first : ∀ row,
      row ∈ (Clause.run params g [fun _ => none] (.matchNode "h" "name" (.param "hub"))).2 ↔
      ∃ i, At g.nodes i (named hub) ∧ row = Cypher.Row.set (fun _ => none) "h" (.node i) := by
    intro row
    rw [mem_first hubGiven]
    simp only [List.mem_singleton, exists_eq_left]
  obtain ⟨rows, starts⟩ : ∃ rows,
      Clause.run params g [fun _ => none] (.matchNode "h" "name" (.param "hub")) =
        (g, rows) := ⟨_, rfl⟩
  rw [starts] at first
  by_cases none_ : rows = []
  · have unknown : known g.nodes hub = false := by
      rw [Bool.eq_false_iff]
      intro there
      obtain ⟨i, at_⟩ := known_iff.mp there
      have member := (first _).mpr ⟨i, at_, rfl⟩
      rw [none_] at member
      cases member
    have same : result = g := by
      simp only [result, Cypher.run, List.foldl_cons, List.foldl_nil, starts, none_]
      rfl
    rw [same, unknown]
    refine ⟨rfl, fun a t b => ⟨.inl, ?_⟩, [], (List.append_nil _).symm, List.forall_mem_nil _⟩
    rintro (old | ⟨_, at_, _⟩)
    · exact old
    · rw [known_iff.mpr ⟨a, at_⟩] at unknown
      cases unknown
  · obtain ⟨row, member⟩ := List.exists_mem_of_ne_nil rows none_
    obtain ⟨i, at_, _⟩ := (first row).mp member
    have there : known g.nodes hub = true := known_iff.mpr ⟨i, at_⟩
    obtain ⟨nodes, edges, bound⟩ := merge_set params (g := g) (x := "f") nameGiven values none_
    have links := Cypher.mergeEdge_rows params
      (Clause.run params
        (Clause.run params g rows (.mergeNode "f" n.label "name" (.param "name"))).1
        (Clause.run params g rows (.mergeNode "f" n.label "name" (.param "name"))).2
        (.setAll "f" "props")).1
      (Clause.run params
        (Clause.run params g rows (.mergeNode "f" n.label "name" (.param "name"))).1
        (Clause.run params g rows (.mergeNode "f" n.label "name" (.param "name"))).2
        (.setAll "f" "props")).2
      "h" type "f" none
    have same : result = (Clause.run params
      (Clause.run params
        (Clause.run params g rows (.mergeNode "f" n.label "name" (.param "name"))).1
        (Clause.run params g rows (.mergeNode "f" n.label "name" (.param "name"))).2
        (.setAll "f" "props")).1
      (Clause.run params
        (Clause.run params g rows (.mergeNode "f" n.label "name" (.param "name"))).1
        (Clause.run params g rows (.mergeNode "f" n.label "name" (.param "name"))).2
        (.setAll "f" "props")).2
      (.mergeEdge "h" none type "f")).1 := by
      simp only [result, Cypher.run, List.foldl_cons, List.foldl_nil, starts]
      rfl
    rw [same, there]
    refine ⟨links.1.trans nodes, fun a t b => ?_, ?fresh⟩
    case fresh =>
      obtain ⟨new, appended, each⟩ := Cypher.mergeEdge_edges params
        (Clause.run params
          (Clause.run params g rows (.mergeNode "f" n.label "name" (.param "name"))).1
          (Clause.run params g rows (.mergeNode "f" n.label "name" (.param "name"))).2
          (.setAll "f" "props")).1
        (Clause.run params
          (Clause.run params g rows (.mergeNode "f" n.label "name" (.param "name"))).1
          (Clause.run params g rows (.mergeNode "f" n.label "name" (.param "name"))).2
          (.setAll "f" "props")).2
        "h" type "f" none
      rw [edges] at appended
      refine ⟨new, appended, fun e member => ?_⟩
      rw [Cypher.Graph.Linked, ← edges, ← Cypher.Graph.Linked]
      exact (each e member).1
    rw [links.2.1, nodes]
    have old : ∀ a t b, Cypher.Graph.Linked (Clause.run params
        (Clause.run params g rows (.mergeNode "f" n.label "name" (.param "name"))).1
        (Clause.run params g rows (.mergeNode "f" n.label "name" (.param "name"))).2
        (.setAll "f" "props")).1 a t b ↔
        g.Linked a t b := by
      intro a t b
      rw [Cypher.Graph.Linked, edges, Cypher.Graph.Linked]
    rw [old]
    apply or_congr_right
    apply and_congr_right
    rintro rfl
    constructor
    · rintro ⟨row, inside, source, target, _, _⟩
      obtain ⟨before, start, j, made_, rfl⟩ := (bound row).mp inside
      obtain ⟨i, at_, rfl⟩ := (first before).mp start
      have apart : ¬ "h" = "f" := by decide
      rw [Cypher.nodeOf_set, if_neg apart, Cypher.nodeOf_set, if_pos rfl] at source
      rw [Cypher.nodeOf_set, if_pos rfl] at target
      cases source
      cases target
      exact ⟨at_, (at_mergeInto plain (is_byName _ _)).mpr made_⟩
    · rintro ⟨at_, is_⟩
      have made_ := (at_mergeInto plain (is_byName _ _)).mp is_
      refine ⟨_, (bound _).mpr ⟨_, (first _).mpr ⟨a, at_, rfl⟩, b, made_, rfl⟩, ?_, ?_,
        ?_, at_lt is_⟩
      · have apart : ¬ "h" = "f" := by decide
        rw [Cypher.nodeOf_set, if_neg apart, Cypher.nodeOf_set, if_pos rfl]
      · rw [Cypher.nodeOf_set, if_pos rfl]
      · exact (at_lt at_).trans_le (made_length n g.nodes)

end

end Metahumotonic.Kg
