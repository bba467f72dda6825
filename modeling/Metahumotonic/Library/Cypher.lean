import Metahumotonic.Library.Json

/-! Property graphs, and clauses of Cypher that match, merge and set. A clause takes a graph
and the rows of variables bound so far to a graph and the next rows. A clause that writes
goes through the rows in order and sees what it wrote before; a row for which nothing is
matched is dropped. Nothing is deleted, so a node is known by its position. -/
namespace Metahumotonic.Library.Cypher

variable {α : Type} [DecidableEq α]

structure Node (α : Type) where
  labels : List String
  props : String → Option α

structure Edge (α : Type) where
  source : Nat
  type : String
  target : Nat
  props : String → Option α

structure Graph (α : Type) where
  nodes : List (Node α)
  edges : List (Edge α)
  closed : ∀ e ∈ edges, e.source < nodes.length ∧ e.target < nodes.length

/-- `+=`: the given entries over those that are there. -/
def overlay (values : List (String × α)) (props : String → Option α) : String → Option α :=
  fun key => (member? values key).or (props key)

omit [DecidableEq α] in
theorem overlay_twice (values : List (String × α)) (props : String → Option α) :
    overlay values (overlay values props) = overlay values props := by
  funext key
  simp only [overlay]
  cases member? values key <;> rfl

namespace Node

def is (label key : String) (value : α) (node : Node α) : Bool :=
  node.labels.contains label && node.props key == some value

def setAll (values : List (String × α)) (node : Node α) : Node α :=
  { node with props := overlay values node.props }

end Node

namespace Graph

def empty : Graph α := ⟨[], [], List.forall_mem_nil _⟩

/-- The positions of the nodes of a kind. -/
def find (g : Graph α) (kind : Node α → Bool) : List Nat :=
  (List.range g.nodes.length).filter fun i => g.nodes[i]?.any kind

def addNode (g : Graph α) (node : Node α) : Graph α where
  nodes := g.nodes ++ [node]
  edges := g.edges
  closed e there := by
    rw [List.length_append]
    exact ⟨Nat.lt_add_right _ (g.closed e there).1, Nat.lt_add_right _ (g.closed e there).2⟩

/-- The nodes that the pattern matches; one is made if there is none. -/
def mergeNode (g : Graph α) (label key : String) (value : α) : Graph α × List Nat :=
  match g.find (Node.is label key value) with
  | [] => (g.addNode ⟨[label], fun k => if k = key then some value else none⟩, [g.nodes.length])
  | found => (g, found)

def setNode (g : Graph α) (at_ : Nat) (values : List (String × α)) : Graph α where
  nodes := g.nodes.mapIdx fun i node => if i = at_ then node.setAll values else node
  edges := g.edges
  closed e there := by
    rw [List.length_mapIdx]
    exact g.closed e there

/-- There is a relationship of this type between two positions. -/
def Linked (g : Graph α) (source : Nat) (type : String) (target : Nat) : Prop :=
  ∃ e ∈ g.edges, e.source = source ∧ e.type = type ∧ e.target = target

def findEdges (g : Graph α) (source : Nat) (type : String) (target : Nat) : List Nat :=
  (List.range g.edges.length).filter fun i =>
    g.edges[i]?.any fun e => e.source == source && e.type == type && e.target == target

def addEdge (g : Graph α) (e : Edge α)
    (inside : e.source < g.nodes.length ∧ e.target < g.nodes.length) :
    Graph α where
  nodes := g.nodes
  edges := g.edges ++ [e]
  closed f there := by
    rcases List.mem_append.mp there with old | new
    · exact g.closed f old
    · exact List.mem_singleton.mp new ▸ inside

def mergeEdge (g : Graph α) (source : Nat) (type : String) (target : Nat) : Graph α × List Nat :=
  if inside : source < g.nodes.length ∧ target < g.nodes.length then
    match g.findEdges source type target with
    | [] => (g.addEdge ⟨source, type, target, fun _ => none⟩ inside, [g.edges.length])
    | found => (g, found)
  else (g, [])

def setEdge (g : Graph α) (at_ : Nat) (values : List (String × α)) : Graph α where
  nodes := g.nodes
  edges := g.edges.mapIdx fun i e => if i = at_
    then { e with props := overlay values e.props } else e
  closed e there := by
    obtain ⟨i, inside, rfl⟩ := List.mem_mapIdx.mp there
    have known := g.closed _ (List.getElem_mem inside)
    split <;> exact known

end Graph

inductive Binding (α : Type) where
  | node (position : Nat)
  | edge (position : Nat)
  | value (v : α)

abbrev Row (α : Type) := String → Option (Binding α)

def Row.set (row : Row α) (x : String) (b : Binding α) : Row α :=
  fun y => if y = x then some b else row y

/-- The parameters of a statement: values, lists and maps. -/
structure Params (α : Type) where
  value : String → Option α
  list : String → List α
  map : String → List (String × α)

inductive Term where
  | param (name : String)
  | var (name : String)
  deriving DecidableEq, Repr

def Term.eval (params : Params α) (row : Row α) : Term → Option α
  | .param name => params.value name
  | .var x =>
    match row x with
    | some (.value v) => some v
    | _ => none

inductive Column where
  | property (x key : String)
  | type (x : String)
  | collectDistinct (x key : String)
  deriving DecidableEq, Repr

inductive Clause where
  | matchNode (x key : String) (term : Term)
  | mergeNode (x label key : String) (term : Term)
  | setAll (x param : String)
  | mergeEdge (x : String) (bound : Option String) (type y : String)
  | setEdge (x : String) (assignments : List (String × String))
  | keep (x : String)
  | unwind (param x : String)
  | return_ (column : Column) (name : String)
  deriving DecidableEq, Repr

def nodeOf (row : Row α) (x : String) : Option Nat :=
  match row x with
  | some (.node i) => some i
  | _ => none

def edgeOf (row : Row α) (x : String) : Option Nat :=
  match row x with
  | some (.edge i) => some i
  | _ => none

abbrev Step (α : Type) := Graph α → Row α → Graph α × List (Row α)

/-- A clause that writes, row by row. -/
def eachRow (step : Step α) : Graph α → List (Row α) → Graph α × List (Row α)
  | g, [] => (g, [])
  | g, row :: rest =>
    let here := step g row
    let later := eachRow step here.1 rest
    (later.1, here.2 ++ later.2)

def mergeNodeStep (params : Params α) (x label key : String) (term : Term) : Step α := fun g row =>
  match term.eval params row with
  | some v => ((g.mergeNode label key v).1, (g.mergeNode label key v).2.map fun i =>
    row.set x (.node i))
  | none => (g, [])

def setAllStep (params : Params α) (x param : String) : Step α := fun g row =>
  match nodeOf row x with
  | some i => (g.setNode i (params.map param), [row])
  | none => (g, [row])

def mergeEdgeStep (x : String) (bound : Option String) (type y : String) : Step α := fun g row =>
  match nodeOf row x, nodeOf row y with
  | some i, some j => ((g.mergeEdge i type j).1, (g.mergeEdge i type j).2.map fun k =>
      match bound with
      | some z => row.set z (.edge k)
      | none => row)
  | _, _ => (g, [])

def setEdgeStep (params : Params α) (x : String) (assignments : List (String × String)) : Step α :=
  fun g row =>
    match edgeOf row x with
    | some i => (g.setEdge i (assignments.filterMap fun a => (params.value a.2).map (a.1, ·)),
      [row])
    | none => (g, [row])

def Clause.run (params : Params α) (g : Graph α) (rows : List (Row α)) :
    Clause → Graph α × List (Row α)
  | .matchNode x key term => (g, rows.flatMap fun row =>
      match term.eval params row with
      | some v => (g.find fun node => node.props key == some v).map fun i => row.set x (.node i)
      | none => [])
  | .mergeNode x label key term => eachRow (mergeNodeStep params x label key term) g rows
  | .setAll x param => eachRow (setAllStep params x param) g rows
  | .mergeEdge x bound type y => eachRow (mergeEdgeStep x bound type y) g rows
  | .setEdge x assignments => eachRow (setEdgeStep params x assignments) g rows
  | .keep x => (g, rows.map fun row y => if y = x then row y else none)
  | .unwind param x => (g, rows.flatMap fun row => (params.list param).map fun v =>
    row.set x (.value v))
  | .return_ _ _ => (g, rows)

/-- The clauses one after the other, from one row without variables. -/
def run (params : Params α) (clauses : List Clause) (g : Graph α) : Graph α × List (Row α) :=
  clauses.foldl (fun state clause => clause.run params state.1 state.2) (g, [fun _ => none])

/-- The distinct values of a property over the rows. -/
def collected (g : Graph α) (rows : List (Row α)) (x key : String) : List α :=
  (rows.filterMap fun row => (nodeOf row x).bind fun i => g.nodes[i]?.bind (·.props key)).eraseDups

/-! The text of a clause. -/

def Term.text : Term → String
  | .param name => "$" ++ name
  | .var x => x

def Column.text : Column → String
  | .property x key => x ++ "." ++ key
  | .type x => "type(" ++ x ++ ")"
  | .collectDistinct x key => "collect(DISTINCT " ++ x ++ "." ++ key ++ ")"

def keyed (x key : String) (term : Term) : String :=
  "(" ++ x ++ " \x7b" ++ key ++ ": " ++ term.text ++ "\x7d)"

def Clause.text : Clause → String
  | .matchNode x key term => "MATCH " ++ keyed x key term
  | .mergeNode x label key term => "MERGE " ++ keyed (x ++ ":" ++ label) key term
  | .setAll x param => "SET " ++ x ++ " += $" ++ param
  | .mergeEdge x none type y => "MERGE (" ++ x ++ ")-[:" ++ type ++ "]->(" ++ y ++ ")"
  | .mergeEdge x (some z) type y => "MERGE (" ++ x ++ ")-[" ++ z ++ ":`" ++ type ++
    "`]->(" ++ y ++ ")"
  | .setEdge x assignments => "SET " ++ String.intercalate ", "
    (assignments.map fun a => x ++ "." ++ a.1 ++ " = $" ++ a.2)
  | .keep x => "WITH " ++ x
  | .unwind param x => "UNWIND $" ++ param ++ " AS " ++ x
  | .return_ column name => "RETURN " ++ column.text ++ " AS " ++ name

/-! What each clause does. -/

namespace Graph

omit [DecidableEq α] in
theorem mem_find {g : Graph α} {kind : Node α → Bool} {i : Nat} :
    i ∈ g.find kind ↔ ∃ node, g.nodes[i]? = some node ∧ kind node = true := by
  simp only [find, List.mem_filter, List.mem_range, Option.any_eq_true]
  constructor
  · rintro ⟨_, found⟩
    exact found
  · rintro ⟨node, there, holds⟩
    exact ⟨(List.getElem?_eq_some_iff.mp there).1, node, there, holds⟩

/-- Whether a node is made, and that the nodes that come back are those of the pattern. -/
theorem mergeNode_nodes (g : Graph α) (label key : String) (value : α) :
    (g.mergeNode label key value).1.nodes =
        (if g.nodes.any (Node.is label key value) then g.nodes
         else g.nodes ++ [⟨[label], fun k => if k = key then some value else none⟩]) ∧
      (g.mergeNode label key value).1.edges = g.edges ∧
      ∀ i, i ∈ (g.mergeNode label key value).2 ↔
        ∃ node, (g.mergeNode label key value).1.nodes[i]? = some node ∧
          Node.is label key value node = true := by
  unfold mergeNode
  cases found : g.find (Node.is label key value) with
  | nil =>
    have nobody : ∀ (i : Nat) node, g.nodes[i]? = some node →
        Node.is label key value node = false := by
      intro i node there
      cases holds : Node.is label key value node with
      | false => rfl
      | true =>
        have member := mem_find.mpr ⟨node, there, holds⟩
        rw [found] at member
        cases member
    have none_ : g.nodes.any (Node.is label key value) = false := by
      rw [List.any_eq_false]
      intro node there
      obtain ⟨i, inside, rfl⟩ := List.getElem_of_mem there
      rw [nobody i _ (List.getElem?_eq_getElem inside)]
      exact Bool.false_ne_true
    refine ⟨by rw [none_]; rfl, rfl, fun i => ?_⟩
    simp only [addNode, List.mem_singleton]
    constructor
    · rintro rfl
      refine ⟨_, by rw [List.getElem?_append_right (Nat.le_refl _), Nat.sub_self]; rfl, ?_⟩
      simp [Node.is]
    · rintro ⟨node, there, holds⟩
      by_cases inside : i < g.nodes.length
      · rw [List.getElem?_append_left inside] at there
        rw [nobody i node there] at holds
        cases holds
      · have bound := (List.getElem?_eq_some_iff.mp there).1
        rw [List.length_append, List.length_singleton] at bound
        omega
  | cons first rest =>
    have some_ : g.nodes.any (Node.is label key value) = true := by
      obtain ⟨node, there, holds⟩ := mem_find.mp (found ▸ List.mem_cons_self : first ∈ g.find _)
      exact List.any_eq_true.mpr ⟨node, List.mem_of_getElem? there, holds⟩
    refine ⟨by rw [some_]; rfl, rfl, fun i => ?_⟩
    simp only
    rw [← found]
    exact mem_find

omit [DecidableEq α] in
theorem mem_findEdges {g : Graph α} {i j : Nat} {type : String} {k : Nat} :
    k ∈ g.findEdges i type j ↔ ∃ e, g.edges[k]? = some e ∧ e.source = i ∧ e.type = type ∧
      e.target = j := by
  simp only [findEdges, List.mem_filter, List.mem_range, Option.any_eq_true,
    Bool.and_eq_true, beq_iff_eq,
    and_assoc]
  constructor
  · rintro ⟨_, found⟩
    exact found
  · rintro ⟨e, there, holds⟩
    exact ⟨(List.getElem?_eq_some_iff.mp there).1, e, there, holds⟩

omit [DecidableEq α] in
/-- After a merge the relationship is there, and no other was made. -/
theorem mergeEdge_links (g : Graph α) (i : Nat) (type : String) (j : Nat) :
    (g.mergeEdge i type j).1.nodes = g.nodes ∧
      (∀ a t b, (g.mergeEdge i type j).1.Linked a t b ↔
        g.Linked a t b ∨ (i < g.nodes.length ∧ j < g.nodes.length) ∧ a = i ∧ t = type ∧ b = j) ∧
      ((g.mergeEdge i type j).2 ≠ [] ↔ i < g.nodes.length ∧ j < g.nodes.length) := by
  unfold mergeEdge
  by_cases inside : i < g.nodes.length ∧ j < g.nodes.length
  · rw [dif_pos inside]
    cases found : g.findEdges i type j with
    | nil =>
      refine ⟨rfl, fun a t b => ?_, by simp [inside]⟩
      simp only [Linked, addEdge, List.mem_append, List.mem_singleton, inside, true_and]
      constructor
      · rintro ⟨e, old | rfl, rfl, rfl, rfl⟩
        · exact .inl ⟨e, old, rfl, rfl, rfl⟩
        · exact .inr ⟨rfl, rfl, rfl⟩
      · rintro (⟨e, old, same⟩ | ⟨rfl, rfl, rfl⟩)
        · exact ⟨e, .inl old, same⟩
        · exact ⟨_, .inr rfl, rfl, rfl, rfl⟩
    | cons first rest =>
      refine ⟨rfl, fun a t b => ⟨.inl, ?_⟩, by simp [inside]⟩
      rintro (old | ⟨_, rfl, rfl, rfl⟩)
      · exact old
      · obtain ⟨e, there, same⟩ :=
          mem_findEdges.mp (found ▸ List.mem_cons_self : first ∈ g.findEdges _ _ _)
        exact ⟨e, List.mem_of_getElem? there, same⟩
  · rw [dif_neg inside]
    exact ⟨rfl, fun a t b => ⟨.inl, fun either => either.elim id fun new => absurd new.1 inside⟩,
      by simp [inside]⟩

omit [DecidableEq α] in
theorem setEdge_links (g : Graph α) (at_ : Nat) (values : List (String × α)) (a : Nat)
    (t : String) (b : Nat) :
    (g.setEdge at_ values).Linked a t b ↔ g.Linked a t b := by
  simp only [Linked, setEdge, List.mem_mapIdx]
  constructor
  · rintro ⟨e, ⟨i, inside, rfl⟩, same⟩
    refine ⟨g.edges[i], List.getElem_mem inside, ?_⟩
    split at same <;> exact same
  · rintro ⟨e, there, same⟩
    obtain ⟨i, inside, rfl⟩ := List.getElem_of_mem there
    refine ⟨_, ⟨i, inside, rfl⟩, ?_⟩
    split <;> exact same

theorem mergeNode_found {g : Graph α} {label key : String} {value : α} {i : Nat} {node : Node α}
    (there : g.nodes[i]? = some node) (holds : Node.is label key value node = true) :
    (g.mergeNode label key value).1 = g := by
  unfold mergeNode
  have member := mem_find.mpr ⟨node, there, holds⟩
  split
  · rename_i none_
    rw [none_] at member
    cases member
  · rfl

theorem mergeNode_exists (g : Graph α) (label key : String) (value : α) :
    ∃ (i : Nat) (node : Node α), (g.mergeNode label key value).1.nodes[i]? = some node ∧
      Node.is label key value node = true := by
  obtain ⟨nodes, _, _⟩ := g.mergeNode_nodes label key value
  rw [nodes]
  split
  · rename_i some_
    obtain ⟨node, there, holds⟩ := List.any_eq_true.mp some_
    obtain ⟨i, found⟩ := List.mem_iff_getElem?.mp there
    exact ⟨i, node, found, holds⟩
  · refine ⟨g.nodes.length,
      _, by rw [List.getElem?_append_right (Nat.le_refl _), Nat.sub_self]; rfl, ?_⟩
    simp [Node.is]

end Graph

omit [DecidableEq α] in
theorem nodeOf_set (row : Row α) (x y : String) (i : Nat) :
    nodeOf (row.set x (.node i)) y = if y = x then some i else nodeOf row y := by
  unfold nodeOf Row.set
  by_cases same : y = x
  · rw [if_pos same, if_pos same]
  · rw [if_neg same, if_neg same]

section
variable {params : Params α}

theorem mem_matchNode {g : Graph α} {rows : List (Row α)} {x key : String} {term : Term}
    {row : Row α} :
    row ∈ (Clause.run params g rows (.matchNode x key term)).2 ↔
      ∃ before ∈ rows, ∃ v, term.eval params before = some v ∧ ∃ i node, g.nodes[i]? = some node ∧
        node.props key = some v ∧ row = before.set x (.node i) := by
  simp only [Clause.run, List.mem_flatMap]
  constructor
  · rintro ⟨before, member, made⟩
    split at made
    · rename_i v given
      obtain ⟨i, found, rfl⟩ := List.mem_map.mp made
      obtain ⟨node, there, holds⟩ := Graph.mem_find.mp found
      exact ⟨before, member, v, given, i, node, there, beq_iff_eq.mp holds, rfl⟩
    · cases made
  · rintro ⟨before, member, v, given, i, node, there, holds, rfl⟩
    refine ⟨before, member, ?_⟩
    rw [given]
    exact List.mem_map.mpr ⟨i, Graph.mem_find.mpr ⟨node, there, beq_iff_eq.mpr holds⟩, rfl⟩

theorem mem_keep {g : Graph α} {rows : List (Row α)} {x : String} {row : Row α} :
    row ∈ (Clause.run params g rows (.keep x)).2 ↔
      ∃ before ∈ rows, row = fun y => if y = x then before y else none := by
  simp only [Clause.run, List.mem_map]
  constructor <;> rintro ⟨before, member, rfl⟩ <;> exact ⟨before, member, rfl⟩

theorem mem_unwind {g : Graph α} {rows : List (Row α)} {param x : String} {row : Row α} :
    row ∈ (Clause.run params g rows (.unwind param x)).2 ↔
      ∃ before ∈ rows, ∃ v ∈ params.list param, row = before.set x (.value v) := by
  simp only [Clause.run, List.mem_flatMap, List.mem_map]
  constructor
  · rintro ⟨before, member, v, listed, rfl⟩
    exact ⟨before, member, v, listed, rfl⟩
  · rintro ⟨before, member, v, listed, rfl⟩
    exact ⟨before, member, v, listed, rfl⟩

theorem mergeNode_settled {g : Graph α} {x label key name : String} {v : α}
    (given : params.value name = some v)
    (there : ∃ (i : Nat) (node : Node α), g.nodes[i]? = some node ∧ Node.is label key v node = true)
    (rows : List (Row α)) :
    (eachRow (mergeNodeStep params x label key (.param name)) g rows).1 = g ∧
      ∀ row, row ∈ (eachRow (mergeNodeStep params x label key (.param name)) g rows).2 ↔
        ∃ before ∈ rows, ∃ i node, g.nodes[i]? = some node ∧ Node.is label key v node = true ∧
          row = before.set x (.node i) := by
  obtain ⟨k, known, found, holds⟩ := there
  have same := Graph.mergeNode_found found holds
  have ids := (g.mergeNode_nodes label key v).2.2
  rw [same] at ids
  induction rows with
  | nil => simp [eachRow]
  | cons first rest ih =>
    have step : mergeNodeStep params x label key (.param name) g first =
        (g, (g.mergeNode label key v).2.map fun i => first.set x (.node i)) := by
      simp only [mergeNodeStep, Term.eval, given, same]
    simp only [eachRow, step]
    refine ⟨ih.1, fun row => ?_⟩
    simp only [List.mem_append, List.mem_map, ih.2, ids, List.mem_cons, exists_eq_or_imp]
    apply or_congr_left
    constructor
    · rintro ⟨i, ⟨node, there, fits⟩, rfl⟩
      exact ⟨i, node, there, fits, rfl⟩
    · rintro ⟨i, node, there, fits, rfl⟩
      exact ⟨i, ⟨node, there, fits⟩, rfl⟩

/-- Every row gets every node of the pattern, after one was made if there was none. -/
theorem mergeNode_rows {g : Graph α} {rows : List (Row α)} (x label key : String)
    {name : String} {v : α}
    (given : params.value name = some v) (some_ : rows ≠ []) :
    (Clause.run params g rows (.mergeNode x label key (.param name))).1 =
    (g.mergeNode label key v).1 ∧
      ∀ row, row ∈ (Clause.run params g rows (.mergeNode x label key (.param name))).2 ↔
        ∃ before ∈ rows, ∃ i node, (g.mergeNode label key v).1.nodes[i]? = some node ∧
          Node.is label key v node = true ∧ row = before.set x (.node i) := by
  obtain ⟨first, rest, rfl⟩ := List.exists_cons_of_ne_nil some_
  have settled := mergeNode_settled (x := x) given (g.mergeNode_exists label key v) rest
  have ids := (g.mergeNode_nodes label key v).2.2
  have step : mergeNodeStep params x label key (.param name) g first =
      ((g.mergeNode label key v).1, (g.mergeNode label key v).2.map fun i =>
        first.set x (.node i)) := by
    simp only [mergeNodeStep, Term.eval, given]
  simp only [Clause.run, eachRow, step]
  refine ⟨settled.1, fun row => ?_⟩
  simp only [List.mem_append, List.mem_map, settled.2, ids, List.mem_cons, exists_eq_or_imp]
  apply or_congr_left
  constructor
  · rintro ⟨i, ⟨node, there, fits⟩, rfl⟩
    exact ⟨i, node, there, fits, rfl⟩
  · rintro ⟨i, node, there, fits, rfl⟩
    exact ⟨i, ⟨node, there, fits⟩, rfl⟩

variable (params) in
/-- The nodes that the rows name are set, and the rows stay. -/
theorem setAll_rows (g : Graph α) (rows : List (Row α)) (x param : String) :
    (Clause.run params g rows (.setAll x param)).2 = rows ∧
      (Clause.run params g rows (.setAll x param)).1.edges = g.edges ∧
      ∀ i, (Clause.run params g rows (.setAll x param)).1.nodes[i]? = (g.nodes[i]?).map fun node =>
        if rows.any (nodeOf · x == some i) then node.setAll (params.map param) else node := by
  simp only [Clause.run]
  induction rows generalizing g with
  | nil => simp [eachRow]
  | cons row rest ih =>
    cases bound : nodeOf row x with
    | none =>
      have step : setAllStep params x param g row = (g, [row]) := by simp only [setAllStep, bound]
      obtain ⟨same, edges, nodes⟩ := ih g
      simp only [eachRow, step, List.singleton_append, same, edges, true_and]
      intro i
      rw [nodes]
      simp [bound]
    | some j =>
      have step : setAllStep params x param g row = (g.setNode j (params.map param), [row]) := by
        simp only [setAllStep, bound]
      obtain ⟨same, edges, nodes⟩ := ih (g.setNode j (params.map param))
      simp only [eachRow, step, List.singleton_append, same, edges, true_and]
      refine ⟨rfl, fun i => ?_⟩
      rw [nodes, Graph.setNode, List.getElem?_mapIdx, Option.map_map]
      congr 1
      funext node
      simp only [Function.comp, List.any_cons, bound, Option.some_beq_some,
        Bool.or_eq_true, beq_iff_eq]
      by_cases here : i = j
      · subst here
        simp only [if_true, true_or]
        split
        · simp only [Node.setAll, overlay_twice]
        · rfl
      · simp [here, Ne.symm here]

variable (params) in
/-- Relationships are made between what the rows name. -/
theorem mergeEdge_rows (g : Graph α) (rows : List (Row α)) (x type y : String) (z : Option String) :
    (Clause.run params g rows (.mergeEdge x z type y)).1.nodes = g.nodes ∧
      (∀ a t b, (Clause.run params g rows (.mergeEdge x z type y)).1.Linked a t b ↔
        g.Linked a t b ∨ t = type ∧ ∃ row ∈ rows, nodeOf row x = some a ∧ nodeOf row y = some b ∧
          a < g.nodes.length ∧ b < g.nodes.length) ∧
      (z = none → ∀ row, row ∈ (Clause.run params g rows (.mergeEdge x z type y)).2 ↔
        row ∈ rows ∧ ∃ a b, nodeOf row x = some a ∧ nodeOf row y = some b ∧
          a < g.nodes.length ∧ b < g.nodes.length) := by
  simp only [Clause.run]
  induction rows generalizing g with
  | nil => simp [eachRow]
  | cons row rest ih =>
    cases source : nodeOf row x with
    | none =>
      have step : mergeEdgeStep x z type y g row = (g, []) := by simp only [mergeEdgeStep, source]
      obtain ⟨nodes, links, kept⟩ := ih g
      simp only [eachRow, step, List.nil_append, nodes, links, List.mem_cons,
        exists_eq_or_imp, source,
        reduceCtorEq, false_and, false_or, implies_true, true_and]
      intro bound row'
      rw [kept bound]
      constructor
      · rintro ⟨member, found⟩
        exact ⟨.inr member, found⟩
      · rintro ⟨rfl | member, a, b, there, found⟩
        · rw [source] at there
          cases there
        · exact ⟨member, a, b, there, found⟩
    | some i =>
      cases target : nodeOf row y with
      | none =>
        have step : mergeEdgeStep x z type y g row = (g, []) := by
          simp only [mergeEdgeStep, source, target]
        obtain ⟨nodes, links, kept⟩ := ih g
        simp only [eachRow, step, List.nil_append, nodes, links, List.mem_cons,
          exists_eq_or_imp, target,
          reduceCtorEq, false_and, and_false, false_or, implies_true, true_and]
        intro bound row'
        rw [kept bound]
        constructor
        · rintro ⟨member, found⟩
          exact ⟨.inr member, found⟩
        · rintro ⟨rfl | member, a, b, here, there, found⟩
          · rw [target] at there
            cases there
          · exact ⟨member, a, b, here, there, found⟩
      | some j =>
        obtain ⟨here, made, some_⟩ := g.mergeEdge_links i type j
        obtain ⟨nodes, links, kept⟩ := ih (g.mergeEdge i type j).1
        have step : (mergeEdgeStep x z type y g row).1 = (g.mergeEdge i type j).1 := by
          simp only [mergeEdgeStep, source, target]
        simp only [eachRow, step]
        rw [here] at nodes links kept
        refine ⟨nodes, fun a t b => ?_, fun bound row' => ?_⟩
        · rw [links, made]
          simp only [List.mem_cons, exists_eq_or_imp, source, target, Option.some.injEq]
          constructor
          · rintro ((old | ⟨inside, rfl, rfl, rfl⟩) | ⟨rfl, later⟩)
            · exact .inl old
            · exact .inr ⟨rfl, .inl ⟨rfl, rfl, inside⟩⟩
            · exact .inr ⟨rfl, .inr later⟩
          · rintro (old | ⟨rfl, ⟨rfl, rfl, inside⟩ | later⟩)
            · exact .inl (.inl old)
            · exact .inl (.inr ⟨inside, rfl, rfl, rfl⟩)
            · exact .inr ⟨rfl, later⟩
        · subst bound
          have rows : ∀ r, r ∈ (mergeEdgeStep x none type y g row).2 ↔
              r = row ∧ i < g.nodes.length ∧ j < g.nodes.length := by
            intro r
            rw [← some_]
            simp only [mergeEdgeStep, source, target, List.mem_map]
            constructor
            · rintro ⟨k, member, rfl⟩
              exact ⟨rfl, List.ne_nil_of_mem member⟩
            · rintro ⟨rfl, nonempty⟩
              obtain ⟨k, member⟩ := List.exists_mem_of_ne_nil _ nonempty
              exact ⟨k, member, rfl⟩
          rw [List.mem_append, rows, kept rfl, List.mem_cons]
          constructor
          · rintro (⟨rfl, inside⟩ | ⟨member, found⟩)
            · exact ⟨.inl rfl, i, j, source, target, inside⟩
            · exact ⟨.inr member, found⟩
          · rintro ⟨rfl | member, a, b, first, second, inside⟩
            · rw [source, Option.some.injEq] at first
              rw [target, Option.some.injEq] at second
              exact .inl ⟨rfl, first ▸ inside.1, second ▸ inside.2⟩
            · exact .inr ⟨member, a, b, first, second, inside⟩

theorem setEdge_rows (g : Graph α) (rows : List (Row α)) (x : String)
    (assignments : List (String × String)) :
    (Clause.run params g rows (.setEdge x assignments)).1.nodes = g.nodes ∧
      ∀ a t b, (Clause.run params g rows (.setEdge x assignments)).1.Linked a t b ↔
        g.Linked a t b := by
  simp only [Clause.run]
  induction rows generalizing g with
  | nil => exact ⟨rfl, fun _ _ _ => .rfl⟩
  | cons row rest ih =>
    cases bound : edgeOf row x with
    | none =>
      have step : setEdgeStep params x assignments g row = (g, [row]) := by
        simp only [setEdgeStep, bound]
      simp only [eachRow, step]
      exact ih g
    | some i =>
      have step : setEdgeStep params x assignments g row =
          (g.setEdge i (assignments.filterMap fun a => (params.value a.2).map (a.1, ·)),
            [row]) := by
        simp only [setEdgeStep, bound]
      obtain ⟨nodes, links⟩ :=
        ih (g.setEdge i (assignments.filterMap fun a => (params.value a.2).map (a.1, ·)))
      simp only [eachRow, step]
      exact ⟨nodes, fun a t b => (links a t b).trans (g.setEdge_links _ _ a t b)⟩

end

end Metahumotonic.Library.Cypher
