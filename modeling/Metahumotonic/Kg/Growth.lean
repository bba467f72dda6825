import Metahumotonic.Kg.StatementEffects

/-! A graph only grows as a batch is written: nodes and relationships keep their places, a
new node is of a kind that was not there, and a new relationship lies between ends that had
none of its type. -/
namespace Metahumotonic.Kg

open Library
open Library.Cypher (Node)

/-- What a statement can see of a node. -/
def shape (node : Node Scalar) : List String × Option Scalar := (node.labels, node.props "name")

theorem ByName.shape {kind : Node Scalar → Bool} (byName : ByName kind) {node other : Node Scalar}
    (same : shape node = shape other) : kind node = kind other :=
  byName node other (congrArg Prod.fst same) (congrArg Prod.snd same)

/-- One graph has grown out of another. -/
structure Grows (g h : KnowledgeGraph) : Prop where
  nodes : ∀ (i : Nat) node, g.nodes[i]? = some node → ∃ later, h.nodes[i]? = some later ∧
    shape later = shape node
  made : ∀ i label name, g.nodes.length ≤ i → At h.nodes i (Node.is label "name" (.text name)) →
    ∀ j, ¬ At g.nodes j (Node.is label "name" (.text name))
  edges : ∀ (k : Nat) e, g.edges[k]? = some e → ∃ later, h.edges[k]? = some later ∧
    later.source = e.source ∧
    later.type = e.type ∧ later.target = e.target
  fresh : ∀ (k : Nat) e, g.edges.length ≤ k → h.edges[k]? = some e →
    ¬ g.Linked e.source e.type e.target

namespace Grows

variable {g h k : KnowledgeGraph}

theorem refl (g : KnowledgeGraph) : Grows g g where
  nodes _ node there := ⟨node, there, rfl⟩
  made _ _ _ beyond there := absurd (at_lt there) (Nat.not_lt.mpr beyond)
  edges _ e there := ⟨e, there, rfl, rfl, rfl⟩
  fresh _ _ beyond there := absurd (List.getElem?_eq_some_iff.mp there).1 (Nat.not_lt.mpr beyond)

theorem at_ (grows : Grows g h) {kind : Node Scalar → Bool} (byName : ByName kind) {i : Nat}
    (there : At g.nodes i kind) : At h.nodes i kind := by
  obtain ⟨node, found, holds⟩ := there
  obtain ⟨later, kept, same⟩ := grows.nodes i node found
  exact ⟨later, kept, (byName.shape same).trans holds⟩

theorem at_back (grows : Grows g h) {kind : Node Scalar → Bool} (byName : ByName kind) {i : Nat}
    (old : i < g.nodes.length) (there : At h.nodes i kind) : At g.nodes i kind := by
  obtain ⟨node, found, holds⟩ := there
  obtain ⟨later, kept, same⟩ := grows.nodes i _ (List.getElem?_eq_getElem old)
  rw [found] at kept
  cases kept
  exact ⟨_, List.getElem?_eq_getElem old, (byName.shape same).symm.trans holds⟩

theorem length_le (grows : Grows g h) : g.nodes.length ≤ h.nodes.length := by
  by_contra shorter
  have old : h.nodes.length < g.nodes.length := Nat.lt_of_not_le shorter
  obtain ⟨later, kept, _⟩ := grows.nodes h.nodes.length _ (List.getElem?_eq_getElem old)
  exact Nat.lt_irrefl _ (List.getElem?_eq_some_iff.mp kept).1

theorem linked (grows : Grows g h) {a b : Nat} {t : String} (linked : g.Linked a t b) :
    h.Linked a t b := by
  obtain ⟨e, member, source, type, target⟩ := linked
  obtain ⟨k, there⟩ := List.mem_iff_getElem?.mp member
  obtain ⟨later, kept, same⟩ := grows.edges k e there
  exact ⟨later, List.mem_of_getElem? kept, same.1.trans source, same.2.1.trans type,
    same.2.2.trans target⟩

theorem trans (first : Grows g h) (second : Grows h k) : Grows g k where
  nodes i node there := by
    obtain ⟨middle, found, same⟩ := first.nodes i node there
    obtain ⟨last, kept, alike⟩ := second.nodes i middle found
    exact ⟨last, kept, alike.trans same⟩
  made i label name beyond there j old := by
    by_cases middle : i < h.nodes.length
    · exact first.made i label name beyond
        (second.at_back (is_byName label name) middle there) j old
    · exact second.made i label name (Nat.le_of_not_lt middle) there j
        (first.at_ (is_byName label name) old)
  edges i e there := by
    obtain ⟨middle, found, source, type, target⟩ := first.edges i e there
    obtain ⟨last, kept, source', type', target'⟩ := second.edges i middle found
    exact ⟨last, kept, source'.trans source, type'.trans type, target'.trans target⟩
  fresh i e beyond there := by
    by_cases middle : i < h.edges.length
    · have found := List.getElem?_eq_getElem middle
      obtain ⟨last, kept, source, type, target⟩ := second.edges i _ found
      rw [there] at kept
      cases kept
      rw [source, type, target]
      exact first.fresh i _ beyond found
    · exact fun old => second.fresh i e (Nat.le_of_not_lt middle) there (first.linked old)

end Grows

section
variable {prov : Provenance} {nowIso : String} {nodes : Nodes} {intent : WriteIntent}

theorem marked_ends (prov : Provenance) (nodes : Nodes) (intent : WriteIntent)
    (e : Cypher.Edge Scalar) :
    (marked prov nodes intent e).source = e.source ∧ (marked prov nodes intent e).type = e.type ∧
      (marked prov nodes intent e).target = e.target := by
  unfold marked
  split
  · split <;> exact ⟨rfl, rfl, rfl⟩
  · exact ⟨rfl, rfl, rfl⟩

/-- What a statement makes of a node that is there. -/
def touched (prov : Provenance) (nowIso : String) (nodes : Nodes) (intent : WriteIntent)
    (node : Node Scalar) :
    Node Scalar :=
  match plannedNode prov nowIso intent with
  | some n => if findsEnds nodes intent && n.is node then node.setAll n.values else node
  | none => node

/-- The node that a statement makes, when it makes one. -/
def newNode (n : PlannedNode) : Node Scalar :=
  Node.setAll n.values ⟨[n.label], fun key => if key = "name" then some (.text n.name) else none⟩

theorem touched_shape (node : Node Scalar) :
    shape (touched prov nowIso nodes intent node) = shape node := by
  unfold touched
  split
  · rename_i n planned
    split
    · exact Prod.ext rfl (setAll_name (plannedNode_name planned) node)
    · rfl
  · rfl

theorem newNode_name {n : PlannedNode} (plain : member? n.values "name" = none) :
    (newNode n).props "name" = some (.text n.name) := by
  rw [newNode, setAll_name plain]
  simp only [if_true]

/-- The new node has one label, and the name that was asked for. -/
theorem newNode_is {n : PlannedNode} (plain : member? n.values "name" = none)
    {label name : String} :
    Node.is label "name" (.text name) (newNode n) = true ↔ label = n.label ∧ name = n.name := by
  rw [Node.is, newNode_name plain]
  simp only [newNode, Node.setAll, List.contains_cons, List.contains_nil, Bool.or_false,
    Bool.and_eq_true,
    beq_iff_eq, Option.some.injEq, Scalar.text.injEq]
  exact and_congr_right fun _ => eq_comm

/-- The old nodes are touched, and at most one new node of the planned kind follows them. -/
theorem nodesAfter_cases (prov : Provenance) (nowIso : String) (nodes : Nodes)
    (intent : WriteIntent) :
    nodesAfter prov nowIso nodes intent = nodes.map (touched prov nowIso nodes intent) ∨
      ∃ n, plannedNode prov nowIso intent = some n ∧ findsEnds nodes intent = true ∧
        nodes.any n.is = false ∧
        nodesAfter prov nowIso nodes intent = nodes.map (touched prov nowIso nodes intent) ++
          [newNode n] := by
  unfold nodesAfter touched
  cases planned : plannedNode prov nowIso intent with
  | none => exact .inl (List.map_id' nodes).symm
  | some n =>
    cases finds : findsEnds nodes intent with
    | false => exact .inl (by simp)
    | true =>
      simp only [if_true, Bool.true_and, mergeInto, made]
      cases absent : nodes.any n.is with
      | true => exact .inl rfl
      | false =>
        refine .inr ⟨n, rfl, trivial, absent, ?_⟩
        have fits : n.is ⟨[n.label], fun key => if key = "name" then some (.text n.name)
            else none⟩ = true := by
          simp [PlannedNode.is, Node.is]
        simp only [Bool.false_eq_true, if_false, List.map_append, List.map_cons, List.map_nil,
          fits, if_true]
        rfl

theorem nodesAfter_old {i : Nat} (old : i < nodes.length) :
    (nodesAfter prov nowIso nodes intent)[i]? = nodes[i]?.map
    (touched prov nowIso nodes intent) := by
  rcases nodesAfter_cases prov nowIso nodes intent with same | ⟨n, _, _, _, same⟩
  · rw [same, List.getElem?_map]
  · rw [same, List.getElem?_append_left (by rwa [List.length_map]), List.getElem?_map]

/-- A node behind the old ones is the planned one. -/
theorem nodesAfter_new {i : Nat} {node : Node Scalar} (beyond : nodes.length ≤ i)
    (there : (nodesAfter prov nowIso nodes intent)[i]? = some node) :
    ∃ n, plannedNode prov nowIso intent = some n ∧ findsEnds nodes intent = true ∧
      nodes.any n.is = false ∧
      node = newNode n := by
  rcases nodesAfter_cases prov nowIso nodes intent with same | ⟨n, planned, finds, absent, same⟩
  · rw [same] at there
    have bound := (List.getElem?_eq_some_iff.mp there).1
    rw [List.length_map] at bound
    exact absurd bound (Nat.not_lt.mpr beyond)
  · refine ⟨n, planned, finds, absent, ?_⟩
    rw [same, List.getElem?_append_right (by rwa [List.length_map])] at there
    exact (List.mem_singleton.mp (List.mem_of_getElem? there))

theorem Effect.grows {g h : KnowledgeGraph} (effect : Effect prov nowIso intent g h) :
    Grows g h where
  nodes i node there := by
    have old := (List.getElem?_eq_some_iff.mp there).1
    refine ⟨touched prov nowIso g.nodes intent node, ?_, touched_shape node⟩
    rw [effect.nodes, nodesAfter_old old, there, Option.map_some]
  made i label name beyond there j old := by
    obtain ⟨node, found, holds⟩ := there
    rw [effect.nodes] at found
    obtain ⟨n, planned, _, absent, rfl⟩ := nodesAfter_new beyond found
    obtain ⟨rfl, rfl⟩ := (newNode_is (plannedNode_name planned)).mp holds
    obtain ⟨other, member, is_⟩ := old
    rw [List.any_eq_false] at absent
    exact absent other (List.mem_of_getElem? member) is_
  edges k e there := by
    obtain ⟨new, edges, _⟩ := effect.edges
    have old := (List.getElem?_eq_some_iff.mp there).1
    refine ⟨marked prov g.nodes intent e, ?_, marked_ends prov g.nodes intent e⟩
    rw [edges, List.getElem?_map, List.getElem?_append_left old, there, Option.map_some]
  fresh k e beyond there := by
    obtain ⟨new, edges, fresh⟩ := effect.edges
    rw [edges, List.getElem?_map, List.getElem?_append_right beyond,
      Option.map_eq_some_iff] at there
    obtain ⟨e, found, rfl⟩ := there
    obtain ⟨source, type, target⟩ := marked_ends prov g.nodes intent e
    rw [source, type, target]
    exact fresh e (List.mem_of_getElem? found)

end

/-- What the statements of the intents leave, one after the other. -/
def leaves (prov : Provenance) (nowIso : String) (intents : List WriteIntent) (g : KnowledgeGraph) :
    KnowledgeGraph :=
  intents.foldl (written prov nowIso) g

section
variable {prov : Provenance} {nowIso : String}

theorem leaves_append (before after : List WriteIntent) (g : KnowledgeGraph) :
    leaves prov nowIso (before ++ after) g = leaves prov nowIso after
      (leaves prov nowIso before g) :=
  List.foldl_append

theorem leaves_grows (prov : Provenance) (nowIso : String) (intents : List WriteIntent)
    (g : KnowledgeGraph) :
    Grows g (leaves prov nowIso intents g) := by
  induction intents generalizing g with
  | nil => exact .refl g
  | cons intent rest ih => exact (written_effect prov nowIso g intent).grows.trans (ih _)

/-- The kinds of nodes that a statement may make. -/
def kindOf : WriteIntent → Option (String × String)
  | .recordFinding f => some ("ResearchFinding", f.name)
  | .recordLesson l => some ("Lesson", l.name)
  | .recordDispatch d => some ("DispatchHyperedge", d.name)
  | .linkNodes _ => none

theorem planned_kind {intent : WriteIntent} {n : PlannedNode}
    (planned : plannedNode prov nowIso intent = some n) :
    kindOf intent = some (n.label, n.name) := by
  cases intent <;> cases planned <;> rfl

/-- Nodes behind the old ones are of the kind of a statement. -/
theorem leaves_made {intents : List WriteIntent} {g : KnowledgeGraph} {i : Nat}
    (beyond : g.nodes.length ≤ i)
    (there : i < (leaves prov nowIso intents g).nodes.length) : ∃ intent ∈ intents, ∃ label name,
      kindOf intent = some (label, name) ∧
        At (leaves prov nowIso intents g).nodes i (Node.is label "name" (.text name)) := by
  induction intents generalizing g with
  | nil => exact absurd there (Nat.not_lt.mpr beyond)
  | cons intent rest ih =>
    by_cases later : (written prov nowIso g intent).nodes.length ≤ i
    · obtain ⟨other, member, found⟩ := ih later there
      exact ⟨other, List.mem_cons_of_mem _ member, found⟩
    · obtain ⟨node, found⟩ : ∃ node, (written prov nowIso g intent).nodes[i]? = some node :=
        ⟨_, List.getElem?_eq_getElem (Nat.lt_of_not_le later)⟩
      have at_ := found
      rw [(written_effect prov nowIso g intent).nodes] at at_
      obtain ⟨n, planned, _, _, rfl⟩ := nodesAfter_new beyond at_
      have here : At (written prov nowIso g intent).nodes i
          (Node.is n.label "name" (.text n.name)) :=
        ⟨_, found, (newNode_is (plannedNode_name planned)).mpr ⟨rfl, rfl⟩⟩
      exact ⟨intent, List.mem_cons_self, n.label, n.name, planned_kind planned,
        (leaves_grows prov nowIso rest _).at_ (is_byName n.label n.name) here⟩

theorem leaves_new {intents : List WriteIntent} {g : KnowledgeGraph} {i : Nat}
    (beyond : g.nodes.length ≤ i)
    {x : String} (there : At (leaves prov nowIso intents g).nodes i (named x)) :
    ∃ intent ∈ intents, ∃ label, kindOf intent = some (label, x) := by
  obtain ⟨intent, member, label, name, kind, node, found, is_⟩ := leaves_made beyond (at_lt there)
  obtain ⟨other, same, called⟩ := there
  rw [found] at same
  cases same
  rw [Node.is, Bool.and_eq_true, beq_iff_eq] at is_
  rw [named, is_.2, beq_iff_eq, Option.some.injEq, Scalar.text.injEq] at called
  exact ⟨intent, member, label, called ▸ kind⟩

end

end Metahumotonic.Kg
