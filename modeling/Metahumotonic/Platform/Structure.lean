import Metahumotonic.Library.DepthFirst
import Metahumotonic.Platform.ReadPath

/-! What the validation of a catalog decides: the search for dependency cycles finds those that
exist, and a catalog is accepted exactly if it is well structured. -/
namespace Metahumotonic.Platform
open Metahumotonic.Library Json

namespace Catalog

variable (graph : Catalog)

/-- An active dependency. -/
def DependsOn (a b : Text) : Prop :=
  ∃ edge ∈ graph.edges, edge.start = a ∧ edge.target = b ∧ edge.relation = lit "DEPENDS_ON" ∧
    edge.status = lit "ACTIVE"

theorem mem_dependencies {a b : Text} : b ∈ graph.dependencies a ↔ graph.DependsOn a b := by
  rw [dependencies, List.mem_map]
  constructor
  · rintro ⟨edge, member, rfl⟩
    obtain ⟨here, kind⟩ := List.mem_filter.mp member
    obtain ⟨start, relation, status⟩ := of_decide_eq_true kind
    exact ⟨edge, here, start, rfl, relation, status⟩
  · rintro ⟨edge, here, start, target, relation, status⟩
    exact ⟨edge, List.mem_filter.mpr ⟨here, decide_eq_true ⟨start, relation, status⟩⟩, target⟩

theorem dependsOn_eq : graph.DependsOn = fun a b => b ∈ graph.dependencies a := by
  funext a b
  exact propext (mem_dependencies graph).symm

/-! The search. -/

def cycleProblem (id : Text) : Text := lit "dependency cycle: " ++ id

/-- The walk that a search stands for. -/
def walkOf (s : DepthFirst.Search Text) : Walk := ⟨s.finished, s.active, s.cycles.map cycleProblem⟩

@[simp] theorem walkOf_active (s : DepthFirst.Search Text) : (walkOf s).active = s.active := rfl

@[simp] theorem walkOf_visited (s : DepthFirst.Search Text) : (walkOf s).visited = s.finished := rfl

theorem visit_explore (fuel : ℕ) (id : Text) (s : DepthFirst.Search Text) :
    graph.visit fuel id (walkOf s) = walkOf (DepthFirst.explore graph.dependencies fuel id s) := by
  induction fuel generalizing id s with
  | zero => rfl
  | succ fuel ih =>
    rw [visit, DepthFirst.explore, walkOf_active, walkOf_visited]
    by_cases active : id ∈ s.active
    · rw [if_pos active, if_pos active]
      simp only [walkOf, List.map_append, List.map_singleton]
      rfl
    · by_cases finished : id ∈ s.finished
      · rw [if_neg active, if_neg active, if_pos finished, if_pos finished]
      · rw [if_neg active, if_neg active, if_neg finished, if_neg finished]
        have within : (graph.dependencies id).foldl (fun walk child => graph.visit fuel child walk)
            (walkOf { s with active := s.active ++ [id] }) =
            walkOf ((graph.dependencies id).foldl
              (fun s child => DepthFirst.explore graph.dependencies fuel child s)
              { s with active := s.active ++ [id] }) :=
          List.foldl_hom walkOf fun s child => ih child s
        have start : (⟨s.finished, s.active ++ [id], (walkOf s).problems⟩ : Walk) =
            walkOf { s with active := s.active ++ [id] } := rfl
        rw [start, within]
        simp only [walkOf, Walk.mk.injEq, true_and, and_true]
        -- Two notions of equality on texts, which agree.
        rw [lawful_beq_subsingleton (instBEqOfDecidableEq : BEq Text) List.instBEq]

/-- The search for cycles, as a search that has no bound on its depth. -/
theorem cycleProblems_explores : ∃ t, DepthFirst.Explores graph.dependencies
    (graph.nodes.map Node.id) {} t ∧
    graph.cycleProblems = t.cycles.map cycleProblem := by
  have ends : ∀ a, ∀ b ∈ graph.dependencies a, b ∈ graph.edges.map Edge.target := by
    intro a b member
    obtain ⟨edge, here, -, target, -⟩ := (mem_dependencies graph).mp member
    exact List.mem_map.mpr ⟨edge, here, target⟩
  have deep : (graph.edges.map Edge.target).length + 2 ≤ graph.edges.length + 2 := by
    rw [List.length_map]
  refine ⟨_, DepthFirst.explores_roots ends (graph.nodes.map Node.id) deep, ?_⟩
  · have walks : (graph.nodes.map Node.id).foldl
        (fun walk id => graph.visit (graph.edges.length + 2) id walk)
        (walkOf {}) = walkOf ((graph.nodes.map Node.id).foldl
          (fun s id => DepthFirst.explore graph.dependencies (graph.edges.length + 2) id s) {}) :=
      List.foldl_hom walkOf fun s id => (visit_explore graph _ id s).symm ▸ rfl
    rw [cycleProblems]
    exact congrArg Walk.problems walks

/-- A dependency cycle is reported exactly if a declared node reaches one. -/
theorem cycleProblems_iff : graph.cycleProblems ≠ [] ↔
    ∃ node ∈ graph.nodes, ∃ c, Relation.ReflTransGen graph.DependsOn node.id c ∧
      Relation.TransGen graph.DependsOn c c := by
  obtain ⟨t, explores, problems⟩ := cycleProblems_explores graph
  rw [problems, ne_eq, List.map_eq_nil_iff, ← ne_eq, explores.cycles_iff, dependsOn_eq]
  constructor
  · rintro ⟨root, member, cycle⟩
    obtain ⟨node, here, rfl⟩ := List.mem_map.mp member
    exact ⟨node, here, cycle⟩
  · rintro ⟨node, here, cycle⟩
    exact ⟨node.id, List.mem_map_of_mem here, cycle⟩

/-! What is accepted. -/

/-- An active edge of a relation that leaves a node. -/
def Leaves (node : Node) (relation : Text) (edge : Edge) : Prop :=
  edge.start = node.id ∧ edge.relation = relation ∧ edge.status = lit "ACTIVE"

/-- Exactly one such edge, which leads to a target. -/
def Placed (node : Node) (relation target : Text) : Prop :=
  ∃ edge ∈ graph.edges, Leaves node relation edge ∧ edge.target = target ∧
    ∀ other ∈ graph.edges, Leaves node relation other → other = edge

/-- A declared node of one of some kinds. -/
def Declared (kinds : List Text) (id : Text) : Prop := ∃ node ∈ graph.nodes, node.id = id ∧
    node.kind ∈ kinds

/-- What an accepted catalog satisfies. -/
structure WellStructured : Prop where
  nodeIds : (graph.nodes.map Node.id).Nodup
  edgeIds : (graph.edges.map Edge.id).Nodup
  observationIds : (graph.observations.map Observation.id).Nodup
  endpoints : ∀ edge ∈ graph.edges,
    (∃ node ∈ graph.nodes, node.id = edge.start) ∧ ∃ node ∈ graph.nodes, node.id = edge.target
  subjects : ∀ observation ∈ graph.observations, ∃ node ∈ graph.nodes,
    node.id = observation.subjectId
  acyclic : ∀ id, ¬ Relation.TransGen graph.DependsOn id id
  placed : ∀ node ∈ graph.nodes, node.kind = lit "deployment" → ∃ deployment,
    node.deployment = some deployment ∧
    graph.Placed node (lit "DEPLOYMENT_OF") deployment.subjectId ∧
      graph.Placed node (lit "RUNS_ON") deployment.hostId
  deploymentOf : ∀ edge ∈ graph.edges, edge.relation = lit "DEPLOYMENT_OF" →
    graph.Declared [lit "deployment"] edge.start ∧ graph.Declared deployable edge.target
  runsOn : ∀ edge ∈ graph.edges, edge.relation = lit "RUNS_ON" →
    graph.Declared [lit "deployment"] edge.start ∧ graph.Declared [lit "host"] edge.target
  metadata : ∀ node ∈ graph.nodes, node.deployment.isSome = true → node.kind = lit "deployment"
  owners : ∀ node ∈ graph.nodes, node.ownerRepositoryId ≠ [] →
    graph.Declared [lit "repository"] node.ownerRepositoryId
  categories : ∀ node ∈ graph.nodes, node.category ≠ [] → node.kind = lit "program"
  aliases : ∀ node ∈ graph.nodes, node.aliases.Nodup
  expiry : ∀ observation ∈ graph.observations, timeOf observation.observedAt <
    timeOf observation.expiresAt
  snapshot : ∀ observation ∈ graph.observations, timeOf observation.observedAt ≤
    timeOf graph.observedAt

/-- Where a repeated key is a problem, the keys of items without problems are distinct. -/
theorem withEarlier_distinct {α : Type*} {problems : List α → α → List Text} {key : α → Text}
    (each : ∀ before x, problems before x = [] → key x ∉ before.map key) {items : List α}
    (none : withEarlier problems items = []) : (items.map key).Nodup := by
  rw [withEarlier_nil] at none
  induction items using List.reverseRecOn with
  | nil => exact List.nodup_nil
  | append_singleton items x ih =>
    have earlier := ih fun before y after split =>
      none before y (after ++ [x]) (by rw [split, List.append_assoc, List.cons_append])
    have fresh := each items x (none items x [] rfl)
    rw [List.map_append, List.map_singleton, List.nodup_append]
    refine ⟨earlier, List.nodup_singleton _, ?_⟩
    rintro a here b there rfl
    exact fresh (List.mem_singleton.mp there ▸ here)

theorem withEarlier_iff {α : Type*} {problems : List α → α → List Text} {key : α → Text}
    {Q : α → Prop}
    (each : ∀ before x, problems before x = [] ↔ key x ∉ before.map key ∧ Q x) (items : List α) :
    withEarlier problems items = [] ↔ (items.map key).Nodup ∧ ∀ x ∈ items, Q x := by
  constructor
  · intro none
    refine ⟨withEarlier_distinct (fun before x held => ((each before x).mp held).1) none,
      fun x member => ?_⟩
    rw [withEarlier_nil] at none
    obtain ⟨before, after, split⟩ := List.append_of_mem member
    exact ((each before x).mp (none before x after split)).2
  · rintro ⟨distinct, all⟩
    rw [withEarlier_nil]
    intro before x after split
    rw [each]
    refine ⟨fun here => ?_, all x (split ▸ List.mem_append_right _ List.mem_cons_self)⟩
    rw [split, List.map_append, List.map_cons, List.nodup_append] at distinct
    exact distinct.2.2 _ here _ List.mem_cons_self rfl

theorem has_iff (id : Text) : graph.has id = true ↔ ∃ node ∈ graph.nodes, node.id = id := by
  simp [has]

section Kinds

variable {graph} (distinct : (graph.nodes.map Node.id).Nodup)

include distinct

theorem kindById_eq_some {id kind : Text} :
    graph.kindById id = some kind ↔ ∃ node ∈ graph.nodes, node.id = id ∧ node.kind = kind := by
  unfold kindById
  constructor
  · intro found
    obtain ⟨node, first, rfl⟩ := Option.map_eq_some_iff.mp found
    exact ⟨node, List.mem_reverse.mp (List.mem_of_find?_eq_some first), by
      simpa using List.find?_some first, rfl⟩
  · rintro ⟨node, member, rfl, rfl⟩
    obtain ⟨other, first⟩ : ∃ other, (graph.nodes.reverse.find? fun other => other.id = node.id) =
        some other := by
      apply Option.isSome_iff_exists.mp
      rw [List.find?_isSome]
      exact ⟨node, List.mem_reverse.mpr member, by simp⟩
    have same : other.id = node.id := by simpa using List.find?_some first
    have there := List.mem_reverse.mp (List.mem_of_find?_eq_some first)
    rw [first, Option.map_some, List.inj_on_of_nodup_map distinct there member same]

theorem kindById_declared (id kind : Text) : graph.kindById id = some kind ↔ graph.Declared
    [kind] id := by
  rw [kindById_eq_some distinct, Declared]
  simp only [List.mem_singleton]

theorem kindById_any (id : Text) (kinds : List Text) :
    (graph.kindById id).any (kinds.contains ·) = true ↔ graph.Declared kinds id := by
  rw [Option.any_eq_true, Declared]
  constructor
  · rintro ⟨kind, found, listed⟩
    obtain ⟨node, member, same, rfl⟩ := (kindById_eq_some distinct).mp found
    exact ⟨node, member, same, List.contains_iff_mem.mp listed⟩
  · rintro ⟨node, member, same, listed⟩
    exact ⟨node.kind, (kindById_eq_some distinct).mpr ⟨node, member, same, rfl⟩,
      List.contains_iff_mem.mpr listed⟩

end Kinds

theorem oneEdge_iff (distinct : (graph.edges.map Edge.id).Nodup) (node : Node)
    (relation target : Text) :
    graph.oneEdge node relation target = true ↔ graph.Placed node relation target := by
  have mem : ∀ edge, edge ∈ (graph.edges.filter fun edge =>
      edge.start = node.id ∧ edge.relation = relation ∧ edge.status = lit "ACTIVE") ↔
      edge ∈ graph.edges ∧ Leaves node relation edge := by
    intro edge
    rw [List.mem_filter, decide_eq_true_iff, Leaves]
  have nodup := (List.Nodup.of_map _ distinct).filter fun edge =>
    decide (edge.start = node.id ∧ edge.relation = relation ∧ edge.status = lit "ACTIVE")
  simp only [oneEdge, Bool.decide_and, Bool.and_eq_true, decide_eq_true_eq]
  simp only [← Bool.decide_and] at mem nodup ⊢
  generalize (graph.edges.filter fun edge =>
    decide (edge.start = node.id ∧ edge.relation = relation ∧ edge.status = lit "ACTIVE")) =
      found at mem nodup ⊢
  constructor
  · rintro ⟨one, leads⟩
    obtain ⟨edge, rfl⟩ := List.length_eq_one_iff.mp one
    obtain ⟨here, leaves⟩ := (mem edge).mp List.mem_cons_self
    exact ⟨edge, here, leaves, Option.some.inj leads, fun other there also =>
      List.mem_singleton.mp ((mem other).mpr ⟨there, also⟩)⟩
  · rintro ⟨edge, here, leaves, leads, only⟩
    have single : found = [edge] := by
      apply List.perm_singleton.mp
      apply (List.perm_ext_iff_of_nodup nodup (List.nodup_singleton edge)).mpr
      intro other
      rw [mem, List.mem_singleton]
      constructor
      · exact fun held => only other held.1 held.2
      · rintro rfl
        exact ⟨here, leaves⟩
    rw [single]
    exact ⟨rfl, congrArg some leads⟩

/-! The three lists of problems, as conditions on each item. -/

def NodeSound (node : Node) : Prop :=
  node.aliases.Nodup ∧ (node.category ≠ [] → node.kind = lit "program") ∧
    (node.ownerRepositoryId ≠ [] →
      graph.kindById node.ownerRepositoryId = some (lit "repository")) ∧
    (node.kind = lit "deployment" ↔ node.deployment.isSome = true) ∧
    ∀ deployment, node.deployment = some deployment →
      (graph.kindById deployment.subjectId).any (deployable.contains ·) = true ∧
        graph.kindById deployment.hostId = some (lit "host") ∧
        graph.oneEdge node (lit "DEPLOYMENT_OF") deployment.subjectId = true ∧
        graph.oneEdge node (lit "RUNS_ON") deployment.hostId = true

theorem deploymentProblems_nil (node : Node) :
    graph.deploymentProblems node = [] ↔ ∀ deployment, node.deployment = some deployment →
      (graph.kindById deployment.subjectId).any (deployable.contains ·) = true ∧
        graph.kindById deployment.hostId = some (lit "host") ∧
        graph.oneEdge node (lit "DEPLOYMENT_OF") deployment.subjectId = true ∧
        graph.oneEdge node (lit "RUNS_ON") deployment.hostId = true := by
  unfold deploymentProblems
  cases node.deployment with
  | none => simp
  | some deployment =>
    simp only [List.append_eq_nil_iff, Option.some.injEq, forall_eq', ite_eq_left_iff,
      List.cons_ne_nil, imp_false,
      not_not, List.map_eq_nil_iff, List.filter_eq_nil_iff, List.mem_cons,
        List.not_mem_nil, or_false,
      forall_eq_or_imp, forall_eq, Bool.not_eq_true', Bool.not_eq_false, and_assoc]

theorem nodeProblems_nil (earlier : List Node) (node : Node) :
    graph.nodeProblems earlier node = [] ↔ node.id ∉ earlier.map Node.id ∧
      graph.NodeSound node := by
  simp only [nodeProblems, List.append_eq_nil_iff, deploymentProblems_nil, NodeSound,
    ite_eq_left_iff,
    ite_eq_right_iff, List.cons_ne_nil, imp_false, not_not, not_and, and_assoc]

def EdgeSound (edge : Edge) : Prop :=
  graph.has edge.start = true ∧ graph.has edge.target = true ∧
    (edge.relation = lit "DEPLOYMENT_OF" → graph.kindById edge.start = some (lit "deployment") ∧
      (graph.kindById edge.target).any (deployable.contains ·) = true) ∧
    (edge.relation = lit "RUNS_ON" → graph.kindById edge.start = some (lit "deployment") ∧
      graph.kindById edge.target = some (lit "host"))

theorem edgeProblems_nil (earlier : List Edge) (edge : Edge) :
    graph.edgeProblems earlier edge = [] ↔ edge.id ∉ earlier.map Edge.id ∧
      graph.EdgeSound edge := by
  simp only [edgeProblems, List.append_eq_nil_iff, EdgeSound, ite_eq_left_iff, ite_eq_right_iff,
    List.cons_ne_nil,
    imp_false, not_not, not_and, not_or, and_assoc, Bool.and_eq_true, Bool.not_eq_false,
      Classical.not_imp]

def ObservationSound (observation : Observation) : Prop :=
  graph.has observation.subjectId = true ∧
    timeOf observation.observedAt < timeOf observation.expiresAt ∧
    timeOf observation.observedAt ≤ timeOf graph.observedAt

theorem observationProblems_nil (earlier : List Observation) (observation : Observation) :
    graph.observationProblems earlier observation = [] ↔
      observation.id ∉ earlier.map Observation.id ∧ graph.ObservationSound observation := by
  simp only [observationProblems, List.append_eq_nil_iff, ObservationSound, ite_eq_left_iff,
    ite_eq_right_iff,
    List.cons_ne_nil, imp_false, not_not, not_le, not_lt, and_assoc]

theorem graphProblems_nil : graphProblems graph = [] ↔
    ((graph.nodes.map Node.id).Nodup ∧ ∀ node ∈ graph.nodes, graph.NodeSound node) ∧
      ((graph.edges.map Edge.id).Nodup ∧ ∀ edge ∈ graph.edges, graph.EdgeSound edge) ∧
      graph.cycleProblems = [] ∧ (graph.observations.map Observation.id).Nodup ∧
      ∀ observation ∈ graph.observations, graph.ObservationSound observation := by
  rw [graphProblems, List.append_eq_nil_iff, List.append_eq_nil_iff, List.append_eq_nil_iff,
    withEarlier_iff (nodeProblems_nil graph), withEarlier_iff (edgeProblems_nil graph),
    withEarlier_iff (observationProblems_nil graph), and_assoc, and_assoc]

/-- No cycle that a declared node reaches is no cycle at all, if the ends of edges are declared. -/
theorem cycleProblems_acyclic
    (endpoints : ∀ edge ∈ graph.edges, ∃ node ∈ graph.nodes, node.id = edge.start) :
    graph.cycleProblems = [] ↔ ∀ id, ¬ Relation.TransGen graph.DependsOn id id := by
  rw [← not_iff_not, ← ne_eq, cycleProblems_iff]
  push Not
  constructor
  · rintro ⟨_, _, c, _, cycle⟩
    exact ⟨c, cycle⟩
  · rintro ⟨id, cycle⟩
    obtain ⟨_, ⟨edge, member, start, _⟩, _⟩ := Relation.TransGen.head'_iff.mp cycle
    obtain ⟨node, here, same⟩ := endpoints edge member
    exact ⟨node, here, id, by rw [same, start], cycle⟩

theorem graphProblems_wellStructured : graphProblems graph = [] ↔ graph.WellStructured := by
  rw [graphProblems_nil]
  constructor
  · rintro ⟨⟨nodeIds, nodes⟩, ⟨edgeIds, edges⟩, cycles, observationIds, observations⟩
    have endpoints : ∀ edge ∈ graph.edges,
        (∃ node ∈ graph.nodes, node.id = edge.start) ∧ ∃ node ∈ graph.nodes,
          node.id = edge.target := by
      intro edge member
      exact ⟨(has_iff graph _).mp (edges edge member).1,
        (has_iff graph _).mp (edges edge member).2.1⟩
    exact {
      nodeIds
      edgeIds
      observationIds
      endpoints
      subjects := fun o member => (has_iff graph _).mp (observations o member).1
      acyclic := (cycleProblems_acyclic graph fun edge member =>
        (endpoints edge member).1).mp cycles
      placed := by
        intro node member kind
        obtain ⟨-, -, -, metadata, each⟩ := nodes node member
        obtain ⟨deployment, given⟩ := Option.isSome_iff_exists.mp (metadata.mp kind)
        obtain ⟨-, -, subject, host⟩ := each deployment given
        exact ⟨deployment, given, (oneEdge_iff graph edgeIds _ _ _).mp subject,
          (oneEdge_iff graph edgeIds _ _ _).mp host⟩
      deploymentOf := by
        intro edge member relation
        obtain ⟨start, target⟩ := (edges edge member).2.2.1 relation
        exact ⟨(kindById_declared nodeIds _ _).mp start, (kindById_any nodeIds _ _).mp target⟩
      runsOn := by
        intro edge member relation
        obtain ⟨start, target⟩ := (edges edge member).2.2.2 relation
        exact ⟨(kindById_declared nodeIds _ _).mp start, (kindById_declared nodeIds _ _).mp target⟩
      metadata := fun node member => (nodes node member).2.2.2.1.mpr
      owners := fun node member given => (kindById_declared nodeIds _ _).mp
        ((nodes node member).2.2.1 given)
      categories := fun node member => (nodes node member).2.1
      aliases := fun node member => (nodes node member).1
      expiry := fun o member => (observations o member).2.1
      snapshot := fun o member => (observations o member).2.2 }
  · intro sound
    refine ⟨⟨sound.nodeIds, fun node member =>
      ⟨sound.aliases node member, sound.categories node member, ?_, ?_, ?_⟩⟩,
      ⟨sound.edgeIds, fun edge member => ⟨?_, ?_, ?_, ?_⟩⟩, ?_, sound.observationIds,
        fun o member =>
        ⟨(has_iff graph _).mpr (sound.subjects o member), sound.expiry o member,
          sound.snapshot o member⟩⟩
    · exact fun given => (kindById_declared sound.nodeIds _ _).mpr (sound.owners node member given)
    · constructor
      · intro kind
        obtain ⟨deployment, given, -⟩ := sound.placed node member kind
        rw [given]
        rfl
      · exact sound.metadata node member
    · -- The kinds of subject and host follow from those of the ends of the edges.
      intro deployment given
      have kind := sound.metadata node member (by rw [given]; rfl)
      obtain ⟨other, given', subject, host⟩ := sound.placed node member kind
      rw [given] at given'
      cases given'
      obtain ⟨edge, here, leaves, leads, -⟩ := id subject
      obtain ⟨edge', here', leaves', leads', -⟩ := id host
      exact ⟨(kindById_any sound.nodeIds _ _).mpr
        (leads ▸ (sound.deploymentOf edge here leaves.2.1).2),
        (kindById_declared sound.nodeIds _ _).mpr
        (leads' ▸ (sound.runsOn edge' here' leaves'.2.1).2),
        (oneEdge_iff graph sound.edgeIds _ _ _).mpr subject,
        (oneEdge_iff graph sound.edgeIds _ _ _).mpr host⟩
    · exact (has_iff graph _).mpr (sound.endpoints edge member).1
    · exact (has_iff graph _).mpr (sound.endpoints edge member).2
    · intro relation
      obtain ⟨start, target⟩ := sound.deploymentOf edge member relation
      exact ⟨(kindById_declared sound.nodeIds _ _).mpr start,
        (kindById_any sound.nodeIds _ _).mpr target⟩
    · intro relation
      obtain ⟨start, target⟩ := sound.runsOn edge member relation
      exact ⟨(kindById_declared sound.nodeIds _ _).mpr start,
        (kindById_declared sound.nodeIds _ _).mpr target⟩
    · exact (cycleProblems_acyclic graph fun edge member => (sound.endpoints edge member).1).mpr
        sound.acyclic

end Catalog

/-- What the validation of a catalog decides. -/
structure Decides (input : Json) : Prop where
  /-- The visits end, to whatever depth they lead. -/
  ends : ∃ t, DepthFirst.Explores (Catalog.read input).dependencies
    ((Catalog.read input).nodes.map Node.id) {} t ∧
    (Catalog.read input).cycleProblems = t.cycles.map Catalog.cycleProblem
  cycles : (Catalog.read input).cycleProblems ≠ [] ↔ ∃ node ∈ (Catalog.read input).nodes, ∃ c,
    Relation.ReflTransGen (Catalog.read input).DependsOn node.id c ∧
      Relation.TransGen (Catalog.read input).DependsOn c c
  accepts : decodeCatalog input = some input ↔ (Catalog.read input).WellStructured

theorem catalog_decides (input : Json) (decodes : isPlatformCatalog input = true) :
    Decides input where
  ends := Catalog.cycleProblems_explores _
  cycles := Catalog.cycleProblems_iff _
  accepts := by
    rw [← Catalog.graphProblems_wellStructured, decodeCatalog, decodes]
    simp

/-! A program that its repository owns, on a service that was deployed on a host and that has a
datastore. -/

def declaredNode (kind id : String) (more : List (Text × Json)) : Json :=
  .object ([(lit "id", .text (lit id)), (lit "kind", .text (lit kind)),
    (lit "name", .text (lit id)),
    (lit "description", .text []), (lit "lifecycle", .text (lit "active")),
    (lit "integration", .text (lit "native")), (lit "evidence", .array [sampleEvidence])] ++ more)

def activeEdge (id relation start target : String) : Json :=
  .object [(lit "id", .text (lit id)), (lit "from", .text (lit start)),
    (lit "to", .text (lit target)),
    (lit "relation", .text (lit relation)), (lit "status", .text (lit "ACTIVE")),
    (lit "evidence", .array [sampleEvidence])]

def deployedApi : Json :=
  .object [(lit "subjectId", .text (lit "service:api")), (lit "hostId", .text (lit "host:a")),
    (lit "environment", .text (lit "production")), (lit "runtime", .text (lit "docker"))]

def deployedCatalog : Json :=
  .object [(lit "schema", .text (lit "metahumotonic/platform-catalog@1")),
    (lit "observedAt", .text (lit "2026-01-01T00:00:00Z")),
    (lit "nodes", .array
      [declaredNode "host" "host:a" [], declaredNode "repository" "repository:a" [],
      declaredNode "datastore" "datastore:a" [], declaredNode "service" "service:api" [],
      declaredNode "program" "program:a" [(lit "category", .text (lit "product")),
        (lit "ownerRepositoryId", .text (lit "repository:a"))],
      declaredNode "deployment" "deployment:api" [(lit "deployment", deployedApi)]]),
    (lit "edges", .array [activeEdge "edge:1" "DEPENDS_ON" "program:a" "service:api",
      activeEdge "edge:2" "DEPENDS_ON" "service:api" "datastore:a",
      activeEdge "edge:3" "DEPLOYMENT_OF" "deployment:api" "service:api",
      activeEdge "edge:4" "RUNS_ON" "deployment:api" "host:a"]),
    (lit "observations", .array [sampleObservation])]

theorem catalog_decides_sample : Decides deployedCatalog ∧
    (Catalog.read deployedCatalog).WellStructured := by
  have decides := catalog_decides deployedCatalog (by decide +kernel)
  have decodes : isPlatformCatalog deployedCatalog = true ∧
      graphProblems (Catalog.read deployedCatalog) = [] := by
    decide +kernel
  exact ⟨decides, decides.accepts.mp (decodeCatalog_iff.mpr ⟨decodes.1, decodes.2, rfl⟩)⟩

end Metahumotonic.Platform
