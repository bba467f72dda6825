import Metahumotonic.Library.Cypher

/-! Relationships at their positions. A merge leaves the old ones where they are and puts new
ones behind them, between ends that had none; the rows that it gives name every relationship
between the ends of a row. -/
namespace Metahumotonic.Library.Cypher

variable {α : Type} [DecidableEq α]

namespace Graph

omit [DecidableEq α] in
theorem mergeEdge_appends (g : Graph α) (i : Nat) (type : String) (j : Nat) :
    ∃ new, (g.mergeEdge i type j).1.edges = g.edges ++ new ∧
      ∀ e ∈ new, e.source = i ∧ e.type = type ∧ e.target = j ∧ ¬ g.Linked i type j := by
  unfold mergeEdge
  by_cases inside : i < g.nodes.length ∧ j < g.nodes.length
  · rw [dif_pos inside]
    cases found : g.findEdges i type j with
    | nil =>
      refine ⟨_, rfl, fun e member => ?_⟩
      obtain rfl := List.mem_singleton.mp member
      refine ⟨rfl, rfl, rfl, ?_⟩
      rintro ⟨e, there, same⟩
      obtain ⟨k, at_⟩ := List.mem_iff_getElem?.mp there
      have member := mem_findEdges.mpr ⟨e, at_, same⟩
      rw [found] at member
      cases member
    | cons first rest => exact ⟨[], (List.append_nil _).symm, List.forall_mem_nil _⟩
  · rw [dif_neg inside]
    exact ⟨[], (List.append_nil _).symm, List.forall_mem_nil _⟩

omit [DecidableEq α] in
/-- A merge gives every relationship between its two ends. -/
theorem mem_mergeEdge {g : Graph α} {i j : Nat} {type : String}
    (inside : i < g.nodes.length ∧ j < g.nodes.length) {k : Nat} :
    k ∈ (g.mergeEdge i type j).2 ↔
      ∃ e, (g.mergeEdge i type j).1.edges[k]? = some e ∧ e.source = i ∧ e.type = type ∧
        e.target = j := by
  unfold mergeEdge
  rw [dif_pos inside]
  cases found : g.findEdges i type j with
  | nil =>
    simp only [addEdge, List.mem_singleton]
    constructor
    · rintro rfl
      refine ⟨⟨i, type, j, fun _ => none⟩, ?_, rfl, rfl, rfl⟩
      rw [List.getElem?_append_right (Nat.le_refl _), Nat.sub_self]
      rfl
    · rintro ⟨e, there, same⟩
      by_cases before : k < g.edges.length
      · rw [List.getElem?_append_left before] at there
        have member := mem_findEdges.mpr ⟨e, there, same⟩
        rw [found] at member
        cases member
      · have bound := (List.getElem?_eq_some_iff.mp there).1
        rw [List.length_append, List.length_singleton] at bound
        omega
  | cons first rest =>
    simp only
    rw [← found]
    exact mem_findEdges

omit [DecidableEq α] in
theorem linked_of_append {g h : Graph α} {new : List (Edge α)}
    (edges : h.edges = g.edges ++ new) {a b : Nat}
    {t : String} (linked : g.Linked a t b) : h.Linked a t b := by
  obtain ⟨e, there, same⟩ := linked
  exact ⟨e, edges ▸ List.mem_append_left _ there, same⟩

end Graph

section
variable {params : Params α}

variable (params) in
/-- New relationships lie behind the old ones, between the ends of a row that had none. -/
theorem mergeEdge_edges (g : Graph α) (rows : List (Row α)) (x type y : String)
    (z : Option String) :
    ∃ new, (Clause.run params g rows (.mergeEdge x z type y)).1.edges = g.edges ++ new ∧
      ∀ e ∈ new, ¬ g.Linked e.source e.type e.target ∧ e.type = type ∧
        ∃ row ∈ rows, nodeOf row x = some e.source ∧ nodeOf row y = some e.target := by
  simp only [Clause.run]
  induction rows generalizing g with
  | nil => exact ⟨[], (List.append_nil _).symm, List.forall_mem_nil _⟩
  | cons row rest ih =>
    have step : ∃ new, (mergeEdgeStep x z type y g row).1.edges = g.edges ++ new ∧
        ∀ e ∈ new, ¬ g.Linked e.source e.type e.target ∧ e.type = type ∧
          nodeOf row x = some e.source ∧ nodeOf row y = some e.target := by
      unfold mergeEdgeStep
      cases source : nodeOf row x with
      | none => exact ⟨[], (List.append_nil _).symm, List.forall_mem_nil _⟩
      | some i =>
        cases target : nodeOf row y with
        | none => exact ⟨[], (List.append_nil _).symm, List.forall_mem_nil _⟩
        | some j =>
          obtain ⟨new, edges, each⟩ := g.mergeEdge_appends i type j
          refine ⟨new, edges, fun e member => ?_⟩
          obtain ⟨rfl, rfl, rfl, absent⟩ := each e member
          exact ⟨absent, rfl, rfl, rfl⟩
    obtain ⟨new, edges, each⟩ := step
    obtain ⟨later, more, others⟩ := ih (mergeEdgeStep x z type y g row).1
    refine ⟨new ++ later, ?_, fun e member => ?_⟩
    · rw [eachRow, more, edges, List.append_assoc]
    · rcases List.mem_append.mp member with here | there
      · obtain ⟨absent, same, ends⟩ := each e here
        exact ⟨absent, same, row, List.mem_cons_self, ends⟩
      · obtain ⟨absent, same, other, inside, ends⟩ := others e there
        refine ⟨fun linked => absent (Graph.linked_of_append edges linked), same, other, ?_, ends⟩
        exact List.mem_cons_of_mem _ inside

variable (params) in
/-- The rows of a merge name the relationships that lie between the ends of a row in the end. -/
theorem mergeEdge_bound (g : Graph α) (rows : List (Row α)) (x type y z : String) (row' : Row α) :
    row' ∈ (Clause.run params g rows (.mergeEdge x (some z) type y)).2 ↔
      ∃ row ∈ rows, ∃ k e,
        (Clause.run params g rows (.mergeEdge x (some z) type y)).1.edges[k]? = some e ∧
        e.type = type ∧ nodeOf row x = some e.source ∧ nodeOf row y = some e.target ∧
        row' = row.set z (.edge k) := by
  induction rows generalizing g with
  | nil => simp [Clause.run, eachRow]
  | cons row rest ih =>
    have later := mergeEdge_edges params (mergeEdgeStep x (some z) type y g row).1 rest x
      type y (some z)
    have closed := (Clause.run params (mergeEdgeStep x (some z) type y g row).1 rest
      (.mergeEdge x (some z) type y)).1.closed
    have nodes := (mergeEdge_rows params (mergeEdgeStep x (some z) type y g row).1 rest x type
      y (some z)).1
    have rest_ := ih (mergeEdgeStep x (some z) type y g row).1
    simp only [Clause.run] at later closed nodes rest_ ⊢
    rw [eachRow, List.mem_append, rest_]
    simp only [List.mem_cons, exists_eq_or_imp]
    apply or_congr_left
    -- what the first row names is not changed by the rows after it
    obtain ⟨new, edges, each⟩ := later
    cases source : nodeOf row x with
    | none => simp [mergeEdgeStep, source]
    | some i =>
      cases target : nodeOf row y with
      | none => simp [mergeEdgeStep, source, target]
      | some j =>
        obtain ⟨same, links, _⟩ := g.mergeEdge_links i type j
        have graph : (mergeEdgeStep x (some z) type y g row).1 = (g.mergeEdge i type j).1 := by
          simp only [mergeEdgeStep, source, target]
        have given : (mergeEdgeStep x (some z) type y g row).2 =
            (g.mergeEdge i type j).2.map fun k => row.set z (.edge k) := by
          simp only [mergeEdgeStep, source, target]
        rw [graph] at edges each closed nodes
        rw [given, List.mem_map, graph, edges]
        constructor
        · rintro ⟨k, member, rfl⟩
          have inside : i < g.nodes.length ∧ j < g.nodes.length :=
            (g.mergeEdge_links i type j).2.2.mp (List.ne_nil_of_mem member)
          obtain ⟨e, there, rfl, rfl, rfl⟩ := (Graph.mem_mergeEdge inside).mp member
          have before := (List.getElem?_eq_some_iff.mp there).1
          exact ⟨k, e, by rwa [List.getElem?_append_left before], rfl, rfl, rfl, rfl⟩
        · rintro ⟨k, e, there, rfl, first, second, rfl⟩
          cases first
          cases second
          have inside : e.source < g.nodes.length ∧ e.target < g.nodes.length := by
            have ends := closed e (edges ▸ List.mem_of_getElem? there)
            rwa [nodes, same] at ends
          refine ⟨k, (Graph.mem_mergeEdge inside).mpr ⟨e, ?_, rfl, rfl, rfl⟩, rfl⟩
          by_cases before : k < (g.mergeEdge e.source e.type e.target).1.edges.length
          · rwa [List.getElem?_append_left before] at there
          · rw [List.getElem?_append_right (Nat.le_of_not_lt before)] at there
            have absent := (each e (List.mem_of_getElem? there)).1
            exact absurd ((links _ _ _).mpr (.inr ⟨inside, rfl, rfl, rfl⟩)) absent

variable (params) in
/-- The relationships that the rows name are set. -/
theorem setEdge_edges (g : Graph α) (rows : List (Row α)) (x : String)
    (assignments : List (String × String))
    (k : Nat) :
    (Clause.run params g rows (.setEdge x assignments)).1.edges[k]? = (g.edges[k]?).map fun e =>
      if rows.any (edgeOf · x == some k) then
        { e with props := overlay (assignments.filterMap fun a =>
          (params.value a.2).map (a.1, ·)) e.props }
      else e := by
  simp only [Clause.run]
  induction rows generalizing g with
  | nil => simp [eachRow]
  | cons row rest ih =>
    cases bound : edgeOf row x with
    | none =>
      have step : (setEdgeStep params x assignments g row).1 = g := by
        simp only [setEdgeStep, bound]
      rw [eachRow, step, ih]
      simp [bound]
    | some i =>
      have step : (setEdgeStep params x assignments g row).1 =
          g.setEdge i (assignments.filterMap fun a => (params.value a.2).map (a.1, ·)) := by
        simp only [setEdgeStep, bound]
      rw [eachRow, step, ih, Graph.setEdge, List.getElem?_mapIdx, Option.map_map]
      congr 1
      funext e
      simp only [Function.comp, List.any_cons, bound, Option.some_beq_some,
        Bool.or_eq_true, beq_iff_eq]
      by_cases here : k = i
      · subst here
        simp only [if_true, true_or]
        split
        · simp only [overlay_twice]
        · rfl
      · simp [here, Ne.symm here]

end

end Metahumotonic.Library.Cypher
