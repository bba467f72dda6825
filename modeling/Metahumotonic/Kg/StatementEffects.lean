import Metahumotonic.Kg.Effects

/-! The effect of a dispatch and of a link, and so of every planned statement. A dispatch
goes through its parents first and, when there is one, through its children. -/
namespace Metahumotonic.Kg

open Library
open Library.Cypher (Node Clause Row)

section
variable {params : Cypher.Params Scalar} {g : KnowledgeGraph} {rows : List (Row Scalar)}

/-- The row that binds one variable. -/
def only (x : String) (i : Nat) : Row Scalar := Row.set (fun _ => none) x (.node i)

theorem keep_only {row : Row Scalar} {x : String} {i : Nat} (bound : row x = some (.node i)) :
    (fun y => if y = x then row y else none) = only x i := by
  funext y
  by_cases same : y = x
  · rw [if_pos same, same, bound, only, Row.set, if_pos rfl]
  · rw [if_neg same, only, Row.set, if_neg same]

theorem nodeOf_only (x : String) (i : Nat) : Cypher.nodeOf (only x i) x = some i := by
  rw [only, Cypher.nodeOf_set, if_pos rfl]

def step (params : Cypher.Params Scalar) (state : KnowledgeGraph × List (Row Scalar))
    (clause : Clause) :
    KnowledgeGraph × List (Row Scalar) := clause.run params state.1 state.2

theorem run_eq_foldl (params : Cypher.Params Scalar) (clauses : List Clause) (g : KnowledgeGraph) :
    Cypher.run params clauses g = clauses.foldl (step params) (g, [fun _ => none]) := rfl

/-- A merge and the setting of values, from the start of a statement. -/
theorem merge_reaches (params : Cypher.Params Scalar) {x : String} {n : PlannedNode}
    (given : params.value "name" = some (.text n.name)) (values : params.map "props" = n.values) :
    ∃ set rows, [Clause.mergeNode x n.label "name" (.param "name"), .setAll x "props"].foldl
      (step params)
        (g, [fun _ => none]) = (set, rows) ∧ set.nodes = mergeInto n g.nodes ∧ set.edges = g.edges ∧
      ∀ row, row ∈ rows ↔ ∃ i, At (made n g.nodes) i n.is ∧ row = only x i := by
  obtain ⟨nodes, edges, bound⟩ := merge_set params (g := g) (x := x) given values
    (List.cons_ne_nil (fun _ => none) [])
  refine ⟨_, _, rfl, nodes, edges, fun row => (bound row).trans ?_⟩
  simp only [List.mem_singleton, exists_eq_left]
  rfl

/-- From the made nodes to the parent, with one row for each of them if there is a parent. -/
theorem link_parent (type : String) {parent : String} {made_ : Nat → Prop}
    (given : params.value "parent" = some (.text parent))
    (inside : ∀ i, made_ i → i < g.nodes.length)
    (start : ∀ row, row ∈ rows ↔ ∃ i, made_ i ∧ row = only "d" i) :
    let after := [Clause.keep "d", .matchNode "p" "name" (.param "parent"),
      .mergeEdge "d" none type "p",
      .keep "d"].foldl (step params) (g, rows)
    after.1.nodes = g.nodes ∧
      (∀ a t b, after.1.Linked a t b ↔ g.Linked a t b ∨ t = type ∧ made_ a ∧
        At g.nodes b (named parent)) ∧
      (∃ new, after.1.edges = g.edges ++ new ∧ ∀ e ∈ new, ¬ g.Linked e.source e.type e.target) ∧
      ∀ row, row ∈ after.2 ↔ known g.nodes parent = true ∧ ∃ i, made_ i ∧ row = only "d" i := by
  intro after
  obtain ⟨first, kept⟩ : ∃ first, Clause.run params g rows (.keep "d") = (g, first) := ⟨_, rfl⟩
  have members : ∀ row, row ∈ first ↔ ∃ i, made_ i ∧ row = only "d" i := by
    intro row
    have mem : row ∈ (Clause.run params g rows (.keep "d")).2 ↔ _ := Cypher.mem_keep
    rw [kept] at mem
    rw [mem]
    constructor
    · rintro ⟨before, member, rfl⟩
      obtain ⟨i, held, rfl⟩ := (start before).mp member
      exact ⟨i, held, keep_only (by rw [only, Row.set, if_pos rfl])⟩
    · rintro ⟨i, held, rfl⟩
      exact ⟨only "d" i, (start _).mpr ⟨i, held, rfl⟩,
        (keep_only (by rw [only, Row.set, if_pos rfl])).symm⟩
  obtain ⟨second, matched⟩ : ∃ second,
      Clause.run params g first (.matchNode "p" "name" (.param "parent")) = (g, second) := ⟨_, rfl⟩
  have pairs : ∀ row, row ∈ second ↔
      ∃ i, made_ i ∧ ∃ j, At g.nodes j (named parent) ∧ row = (only "d" i).set "p" (.node j) := by
    intro row
    have mem : row ∈ (Clause.run params g first (.matchNode "p" "name" (.param "parent"))).2 ↔ _ :=
      mem_first given
    rw [matched] at mem
    rw [mem]
    constructor
    · rintro ⟨before, member, j, there, rfl⟩
      obtain ⟨i, held, rfl⟩ := (members before).mp member
      exact ⟨i, held, j, there, rfl⟩
    · rintro ⟨i, held, j, there, rfl⟩
      exact ⟨only "d" i, (members _).mpr ⟨i, held, rfl⟩, j, there, rfl⟩
  have ends : ∀ i j, Cypher.nodeOf ((only "d" i).set "p" (.node j)) "d" = some i ∧
      Cypher.nodeOf ((only "d" i).set "p" (.node j)) "p" = some j := by
    intro i j
    have apart : ¬ "d" = "p" := by decide
    rw [Cypher.nodeOf_set, Cypher.nodeOf_set, if_neg apart, if_pos rfl, nodeOf_only]
    exact ⟨rfl, rfl⟩
  obtain ⟨nodes, links, live⟩ := Cypher.mergeEdge_rows params g second "d" type "p" none
  obtain ⟨new, appended, fresh⟩ := Cypher.mergeEdge_edges params g second "d" type "p" none
  have graph : after.1 = (Clause.run params g second (.mergeEdge "d" none type "p")).1 := by
    simp only [after, List.foldl_cons, List.foldl_nil, step, kept, matched]
    rfl
  have left : after.2 =
      (Clause.run params (Clause.run params g second (.mergeEdge "d" none type "p")).1
      (Clause.run params g second (.mergeEdge "d" none type "p")).2 (.keep "d")).2 := by
    simp only [after, List.foldl_cons, List.foldl_nil, step, kept, matched]
  rw [graph, left]
  refine ⟨nodes, fun a t b => ?_, ⟨new, appended, fun e member => (fresh e member).1⟩,
    fun row => ?_⟩
  · rw [links]
    apply or_congr_right
    apply and_congr_right
    rintro rfl
    constructor
    · rintro ⟨row, member, source, target, _, _⟩
      obtain ⟨i, held, j, there, rfl⟩ := (pairs row).mp member
      rw [(ends i j).1] at source
      rw [(ends i j).2] at target
      cases source
      cases target
      exact ⟨held, there⟩
    · rintro ⟨held, there⟩
      exact ⟨_, (pairs _).mpr ⟨a, held, b, there, rfl⟩, (ends a b).1, (ends a b).2, inside a held,
        at_lt there⟩
  · rw [Cypher.mem_keep]
    constructor
    · rintro ⟨before, member, rfl⟩
      obtain ⟨i, held, j, there, rfl⟩ := (pairs before).mp ((live rfl before).mp member).1
      refine ⟨known_iff.mpr ⟨j, there⟩, i, held, keep_only ?_⟩
      have apart : ¬ "d" = "p" := by decide
      rw [Row.set, if_neg apart, only, Row.set, if_pos rfl]
    · rintro ⟨there, i, held, rfl⟩
      obtain ⟨j, there⟩ := known_iff.mp there
      refine ⟨(only "d" i).set "p" (.node j),
        (live rfl _).mpr ⟨(pairs _).mpr ⟨i, held, j, there, rfl⟩, i, j,
        (ends i j).1, (ends i j).2, inside i held, at_lt there⟩, (keep_only ?_).symm⟩
      have apart : ¬ "d" = "p" := by decide
      rw [Row.set, if_neg apart, only, Row.set, if_pos rfl]

/-- From the nodes of the rows to every child. -/
theorem link_children (type : String) {children : List String} {made_ : Nat → Prop}
    (given : params.list "children" = children.map .text)
    (inside : ∀ i, made_ i → i < g.nodes.length)
    (start : ∀ row, row ∈ rows ↔ ∃ i, made_ i ∧ row = only "d" i) (column : Cypher.Column) :
    let after := [Clause.unwind "children" "childName", .matchNode "c" "name" (.var "childName"),
      .mergeEdge "d" none type "c", .return_ column "name"].foldl (step params) (g, rows)
    after.1.nodes = g.nodes ∧
      (∀ a t b, after.1.Linked a t b ↔
        g.Linked a t b ∨ t = type ∧ made_ a ∧ ∃ child ∈ children, At g.nodes b (named child)) ∧
      ∃ new, after.1.edges = g.edges ++ new ∧ ∀ e ∈ new, ¬ g.Linked e.source e.type e.target := by
  intro after
  obtain ⟨first, unwound⟩ : ∃ first, Clause.run params g rows (.unwind "children" "childName") =
      (g, first) :=
    ⟨_, rfl⟩
  have members : ∀ row, row ∈ first ↔ ∃ i, made_ i ∧ ∃ child ∈ children,
      row = (only "d" i).set "childName" (.value (.text child)) := by
    intro row
    have mem : row ∈ (Clause.run params g rows (.unwind "children" "childName")).2 ↔ _ :=
      Cypher.mem_unwind
    rw [unwound] at mem
    rw [mem, given]
    constructor
    · rintro ⟨before, member, v, listed, rfl⟩
      obtain ⟨i, held, rfl⟩ := (start before).mp member
      obtain ⟨child, there, rfl⟩ := List.mem_map.mp listed
      exact ⟨i, held, child, there, rfl⟩
    · rintro ⟨i, held, child, there, rfl⟩
      exact ⟨only "d" i, (start _).mpr ⟨i, held, rfl⟩, _, List.mem_map_of_mem there, rfl⟩
  obtain ⟨second, matched⟩ : ∃ second,
      Clause.run params g first (.matchNode "c" "name" (.var "childName")) = (g, second) := ⟨_, rfl⟩
  have pairs : ∀ row, row ∈ second ↔ ∃ i, made_ i ∧ ∃ child ∈ children, ∃ j,
      At g.nodes j (named child) ∧
      row = ((only "d" i).set "childName" (.value (.text child))).set "c" (.node j) := by
    have reads : ∀ i child, Cypher.Term.eval params
        ((only "d" i).set "childName" (.value (.text child))) (.var "childName") =
          some (.text child) := by
      intro i child
      rw [Cypher.Term.eval, Row.set, if_pos rfl]
    intro row
    have mem : row ∈ (Clause.run params g first (.matchNode "c" "name" (.var "childName"))).2 ↔ _ :=
      Cypher.mem_matchNode
    rw [matched] at mem
    rw [mem]
    constructor
    · rintro ⟨before, member, v, read, j, node, there, holds, rfl⟩
      obtain ⟨i, held, child, listed, rfl⟩ := (members before).mp member
      rw [reads] at read
      cases read
      exact ⟨i, held, child, listed, j, ⟨node, there, beq_iff_eq.mpr holds⟩, rfl⟩
    · rintro ⟨i, held, child, listed, j, ⟨node, there, holds⟩, rfl⟩
      exact ⟨_, (members _).mpr ⟨i, held, child, listed, rfl⟩, _, reads i child, j, node, there,
        beq_iff_eq.mp holds, rfl⟩
  have ends : ∀ i child j,
      Cypher.nodeOf (((only "d" i).set "childName" (.value (.text child))).set "c" (.node j))
        "d" = some i ∧
      Cypher.nodeOf (((only "d" i).set "childName" (.value (.text child))).set "c" (.node j)) "c" =
        some j := by
    intro i child j
    have apart : ¬ "d" = "c" := by decide
    have other : ¬ "d" = "childName" := by decide
    rw [Cypher.nodeOf_set, Cypher.nodeOf_set, if_neg apart, if_pos rfl, Cypher.nodeOf, Row.set,
      if_neg other,
      ← Cypher.nodeOf, nodeOf_only]
    exact ⟨rfl, rfl⟩
  obtain ⟨nodes, links, _⟩ := Cypher.mergeEdge_rows params g second "d" type "c" none
  obtain ⟨new, appended, fresh⟩ := Cypher.mergeEdge_edges params g second "d" type "c" none
  have graph : after.1 = (Clause.run params g second (.mergeEdge "d" none type "c")).1 := by
    simp only [after, List.foldl_cons, List.foldl_nil, step, unwound, matched]
    rfl
  rw [graph]
  refine ⟨nodes, fun a t b => ?_, new, appended, fun e member => (fresh e member).1⟩
  rw [links]
  apply or_congr_right
  apply and_congr_right
  rintro rfl
  constructor
  · rintro ⟨row, member, source, target, _, _⟩
    obtain ⟨i, held, child, listed, j, there, rfl⟩ := (pairs row).mp member
    rw [(ends i child j).1] at source
    rw [(ends i child j).2] at target
    cases source
    cases target
    exact ⟨held, child, listed, there⟩
  · rintro ⟨held, child, listed, there⟩
    exact ⟨_, (pairs _).mpr ⟨a, held, child, listed, b, there, rfl⟩, (ends a child b).1,
      (ends a child b).2,
      inside a held, at_lt there⟩

end

section
variable {prov : Provenance} {nowIso : String} {g : KnowledgeGraph}

theorem written_dispatch (d : RecordDispatch) :
    Effect prov nowIso (.recordDispatch d) g (written prov nowIso g (.recordDispatch d)) := by
  let n : PlannedNode :=
    ⟨"DispatchHyperedge", d.name, propsOf (plan (.recordDispatch d) prov nowIso)⟩
  let params := env (plan (.recordDispatch d) prov nowIso).params
  have plain : member? n.values "name" = none := propsOf_name (.recordDispatch d) prov nowIso
  obtain ⟨set, rows, reached, setNodes, setEdges, bound⟩ := merge_reaches (g := g) params (x := "d")
    (n := n) rfl rfl
  have start : ∀ row, row ∈ rows ↔ ∃ i, At (mergeInto n g.nodes) i n.is ∧ row = only "d" i := by
    intro row
    rw [bound]
    simp only [at_mergeInto plain (is_byName n.label n.name), PlannedNode.is]
  have inside : ∀ i, At (mergeInto n g.nodes) i n.is → i < set.nodes.length :=
    fun i there => setNodes ▸ at_lt there
  obtain ⟨⟨up, rows'⟩, climbed⟩ :
      ∃ state, [Clause.keep "d", .matchNode "p" "name" (.param "parent"),
      .mergeEdge "d" none "PRODUCED_BY" "p", .keep "d"].foldl (step params) (set, rows) =
        state := ⟨_, rfl⟩
  have parent : params.value "parent" = some (.text d.parent) := rfl
  have children : params.list "children" = d.children.map .text := rfl
  have first := link_parent "PRODUCED_BY" parent inside start
  rw [climbed] at first
  obtain ⟨upNodes, upLinks, ⟨new, upEdges, upFresh⟩, live⟩ := first
  have below : ∀ i, known set.nodes d.parent = true ∧ At (mergeInto n g.nodes) i n.is →
      i < up.nodes.length := by
    rintro i ⟨_, there⟩
    rw [upNodes]
    exact inside i there
  have alive : ∀ row, row ∈ rows' ↔
      ∃ i, (known set.nodes d.parent = true ∧ At (mergeInto n g.nodes) i n.is) ∧
        row = only "d" i := by
    intro row
    rw [live]
    simp only [and_assoc, exists_and_left]
  have second := link_children "DISPATCHED" children below alive (.property "d" "name")
  obtain ⟨lastNodes, lastLinks, later, lastEdges, lastFresh⟩ := second
  have whole : written prov nowIso g (.recordDispatch d) = ([Clause.unwind "children" "childName",
      .matchNode "c" "name" (.var "childName"), .mergeEdge "d" none "DISPATCHED" "c",
      .return_ (.property "d" "name") "name"].foldl (step params) (up, rows')).1 := by
    have split : clauses (.recordDispatch d) = [Clause.mergeNode "d" n.label "name" (.param "name"),
        .setAll "d" "props"] ++ ([Clause.keep "d", .matchNode "p" "name" (.param "parent"),
        .mergeEdge "d" none "PRODUCED_BY" "p", .keep "d"] ++ [Clause.unwind "children" "childName",
        .matchNode "c" "name" (.var "childName"), .mergeEdge "d" none "DISPATCHED" "c",
        .return_ (.property "d" "name") "name"]) := rfl
    rw [written, run_eq_foldl, split, List.foldl_append, List.foldl_append, reached, climbed]
  have linked : ∀ a t b, set.Linked a t b ↔ g.Linked a t b := by
    intro a t b
    rw [Cypher.Graph.Linked, setEdges, ← Cypher.Graph.Linked]
  rw [whole]
  refine ⟨?_, fun a t b => ?_, new ++ later, ?_, fun e member => ?_⟩
  · rw [lastNodes, upNodes, setNodes]
    rfl
  · rw [lastLinks, upLinks, linked, upNodes, setNodes, or_assoc]
    apply or_congr_right
    constructor
    · rintro (⟨rfl, made_, parent⟩ | ⟨rfl, ⟨there, made_⟩, child⟩)
      · exact ⟨made_, known_iff.mpr ⟨b, parent⟩, .inl ⟨rfl, parent⟩⟩
      · exact ⟨made_, there, .inr ⟨rfl, child⟩⟩
    · rintro ⟨made_, there, ⟨rfl, parent⟩ | ⟨rfl, child⟩⟩
      · exact .inl ⟨rfl, made_, parent⟩
      · exact .inr ⟨rfl, ⟨there, made_⟩, child⟩
  · rw [lastEdges, upEdges, setEdges, List.append_assoc]
    have planned : plannedNode prov nowIso (.recordDispatch d) ≠ none := Option.some_ne_none n
    exact (marked_plain prov nowIso g.nodes planned _).symm
  · rw [← linked]
    rcases List.mem_append.mp member with here | there
    · exact upFresh e here
    · exact fun old => lastFresh e there ((upLinks _ _ _).mpr (.inl old))

theorem written_link (k : LinkNodes) :
    Effect prov nowIso (.linkNodes k) g (written prov nowIso g (.linkNodes k)) := by
  let params := env (plan (.linkNodes k) prov nowIso).params
  obtain ⟨first, matched⟩ : ∃ first,
      Clause.run params g [fun _ => none] (.matchNode "a" "name" (.param "from")) = (g, first) :=
        ⟨_, rfl⟩
  obtain ⟨second, again⟩ : ∃ second,
      Clause.run params g first (.matchNode "b" "name" (.param "to")) = (g, second) := ⟨_, rfl⟩
  have pairs : ∀ row, row ∈ second ↔ ∃ i j, At g.nodes i (named k.source) ∧
      At g.nodes j (named k.target) ∧
      row = (only "a" i).set "b" (.node j) := by
    have from_ : params.value "from" = some (.text k.source) := rfl
    have to_ : params.value "to" = some (.text k.target) := rfl
    have sources : ∀ row,
        row ∈ (Clause.run params g [fun _ => none] (.matchNode "a" "name" (.param "from"))).2 ↔ _ :=
      fun row => mem_first from_
    have targets : ∀ row,
        row ∈ (Clause.run params g first (.matchNode "b" "name" (.param "to"))).2 ↔ _ :=
      fun row => mem_first to_
    rw [matched] at sources
    rw [again] at targets
    intro row
    rw [targets]
    constructor
    · rintro ⟨before, member, j, there, rfl⟩
      obtain ⟨_, start, i, here, rfl⟩ := (sources before).mp member
      obtain rfl := List.mem_singleton.mp start
      exact ⟨i, j, here, there, rfl⟩
    · rintro ⟨i, j, here, there, rfl⟩
      exact ⟨only "a" i, (sources _).mpr ⟨_, List.mem_singleton_self _, i, here, rfl⟩,
        j, there, rfl⟩
  have ends : ∀ i j, Cypher.nodeOf ((only "a" i).set "b" (.node j)) "a" = some i ∧
      Cypher.nodeOf ((only "a" i).set "b" (.node j)) "b" = some j := by
    intro i j
    have apart : ¬ "a" = "b" := by decide
    rw [Cypher.nodeOf_set, Cypher.nodeOf_set, if_neg apart, if_pos rfl, nodeOf_only]
    exact ⟨rfl, rfl⟩
  obtain ⟨nodes, links, _⟩ := Cypher.mergeEdge_rows params g second "a" k.relType "b" (some "r")
  obtain ⟨new, appended, fresh⟩ :=
    Cypher.mergeEdge_edges params g second "a" k.relType "b" (some "r")
  have bound := Cypher.mergeEdge_bound params g second "a" k.relType "b" "r"
  obtain ⟨⟨merged, rows⟩, met⟩ : ∃ state,
      Clause.run params g second (.mergeEdge "a" (some "r") k.relType "b") = state := ⟨_, rfl⟩
  rw [met] at nodes links appended bound
  obtain ⟨setNodes, setLinks⟩ := Cypher.setEdge_rows merged rows "r"
    [("run_id", "runId"), ("actor", "actor")]
  have setEdges := Cypher.setEdge_edges params merged rows "r"
    [("run_id", "runId"), ("actor", "actor")]
  have whole : written prov nowIso g (.linkNodes k) =
      (Clause.run params merged rows
        (.setEdge "r" [("run_id", "runId"), ("actor", "actor")])).1 := by
    have chain : Clause.run params (Clause.run params (Clause.run params g [fun _ => none]
          (.matchNode "a" "name" (.param "from"))).1 (Clause.run params g [fun _ => none]
          (.matchNode "a" "name" (.param "from"))).2 (.matchNode "b" "name" (.param "to"))).1
        (Clause.run params (Clause.run params g [fun _ => none]
          (.matchNode "a" "name" (.param "from"))).1 (Clause.run params g [fun _ => none]
          (.matchNode "a" "name" (.param "from"))).2 (.matchNode "b" "name" (.param "to"))).2
        (.mergeEdge "a" (some "r") k.relType "b") = (merged, rows) := by
      rw [matched, again, met]
    simp only [written, clauses, Cypher.run, List.foldl_cons, List.foldl_nil]
    rw [chain]
    rfl
  rw [whole]
  refine ⟨?_, fun a t b => ?_, new, ?_, fun e member => (fresh e member).1⟩
  · rw [setNodes, nodes]
    rfl
  · rw [setLinks, links]
    apply or_congr_right
    apply and_congr_right
    rintro rfl
    constructor
    · rintro ⟨row, member, source, target, _, _⟩
      obtain ⟨i, j, here, there, rfl⟩ := (pairs row).mp member
      rw [(ends i j).1] at source
      rw [(ends i j).2] at target
      cases source
      cases target
      exact ⟨here, there⟩
    · rintro ⟨here, there⟩
      exact ⟨_, (pairs _).mpr ⟨a, b, here, there, rfl⟩, (ends a b).1, (ends a b).2, at_lt here,
        at_lt there⟩
  · apply List.ext_getElem?
    intro i
    rw [setEdges, List.getElem?_map, ← appended]
    cases there : merged.edges[i]? with
    | none => rfl
    | some e =>
      have touched : rows.any (Cypher.edgeOf · "r" == some i) = true ↔ e.type = k.relType ∧
          (g.nodes[e.source]?.any (named k.source)) = true ∧
          (g.nodes[e.target]?.any (named k.target)) = true := by
        rw [List.any_eq_true]
        constructor
        · rintro ⟨row, member, same⟩
          obtain ⟨before, start, j, f, found, type, source, target, rfl⟩ := (bound row).mp member
          have equal : j = i := by simpa [Cypher.edgeOf, Row.set] using same
          rw [equal, there] at found
          cases found
          obtain ⟨a, b, here, there', rfl⟩ := (pairs before).mp start
          rw [(ends a b).1] at source
          rw [(ends a b).2] at target
          cases source
          cases target
          exact ⟨type, (Option.any_eq_true _ _).mpr here, (Option.any_eq_true _ _).mpr there'⟩
        · rintro ⟨type, source, target⟩
          have here : At g.nodes e.source (named k.source) := (Option.any_eq_true _ _).mp source
          have there' : At g.nodes e.target (named k.target) := (Option.any_eq_true _ _).mp target
          refine ⟨_, (bound _).mpr ⟨_, (pairs _).mpr ⟨_, _, here, there', rfl⟩, i, e, there, type,
            (ends _ _).1, (ends _ _).2, rfl⟩, ?_⟩
          simp [Cypher.edgeOf, Row.set]
      rw [Option.map_some, Option.map_some, marked]
      by_cases fits : e.type = k.relType ∧ (g.nodes[e.source]?.any (named k.source)) = true ∧
          (g.nodes[e.target]?.any (named k.target)) = true
      · rw [if_pos fits, if_pos (touched.mpr fits)]
        rfl
      · rw [if_neg fits, if_neg (fun held => fits (touched.mp held))]

theorem written_finding (f : RecordFinding) :
    Effect prov nowIso (.recordFinding f) g (written prov nowIso g (.recordFinding f)) := by
  cases given : f.hub with
  | none => exact written_finding_alone f given
  | some hub =>
    obtain ⟨name, description, evidence, citation, status, _⟩ := f
    obtain rfl : _ = some hub := given
    let f : RecordFinding := ⟨name, description, evidence, citation, status, some hub⟩
    let n : PlannedNode := ⟨"ResearchFinding", name, propsOf (plan (.recordFinding f) prov nowIso)⟩
    obtain ⟨nodes, links, new, edges, fresh⟩ := run_finding (g := g) (n := n)
      (env (plan (.recordFinding f) prov nowIso).params) hub "HAS_FINDING" rfl rfl rfl
      (propsOf_name (.recordFinding f) prov nowIso) (.property "f" "name")
    have after : nodesAfter prov nowIso g.nodes (.recordFinding f) =
        if known g.nodes hub then mergeInto n g.nodes else g.nodes := rfl
    refine ⟨nodes.trans after.symm, fun a t b => (links a t b).trans ?_, new, ?_, fresh⟩
    · apply or_congr_right
      rw [WritesEdge, Joins, after]
      apply and_congr_right
      rintro -
      constructor
      · rintro ⟨here, there⟩
        rw [if_pos (known_iff.mpr ⟨a, here⟩)]
        exact ⟨⟨hub, rfl, here⟩, there⟩
      · rintro ⟨⟨_, ⟨⟩, here⟩, there⟩
        rw [if_pos (known_iff.mpr ⟨a, here⟩)] at there
        exact ⟨here, there⟩
    · have planned : plannedNode prov nowIso (.recordFinding f) ≠ none := Option.some_ne_none n
      exact edges.trans (marked_plain prov nowIso g.nodes planned _).symm

/-- Every planned statement has its effect. -/
theorem written_effect (prov : Provenance) (nowIso : String) (g : KnowledgeGraph)
    (intent : WriteIntent) :
    Effect prov nowIso intent g (written prov nowIso g intent) := by
  cases intent with
  | recordFinding f => exact written_finding f
  | recordLesson l => exact written_lesson l
  | recordDispatch d => exact written_dispatch d
  | linkNodes k => exact written_link k

end

end Metahumotonic.Kg
