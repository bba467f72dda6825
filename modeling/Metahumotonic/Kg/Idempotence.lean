import Metahumotonic.Kg.Settled

/-! When a batch settles the graph. A run is steady when every statement finds the nodes that
it would find in the end; a steady run leaves a settled graph, and in a settled graph the
batch changes nothing but the time of writing. -/
namespace Metahumotonic.Kg

open Library
open Library.Cypher (Node)

section
variable {prov : Provenance} {nowIso : String} {intents : List WriteIntent} {g : KnowledgeGraph}

/-! To write again what is settled. -/

theorem names_alike {nodes others : Nodes} (alike : nodes.map shape = others.map shape)
    {kind : Node Scalar → Bool} (byName : ByName kind) {i : Nat} (there : At nodes i kind) :
    At others i kind := by
  obtain ⟨node, found, holds⟩ := there
  have same := congrArg (·[i]?) alike
  simp only [List.getElem?_map, found, Option.map_some] at same
  obtain ⟨other, kept, shape_⟩ := Option.map_eq_some_iff.mp same.symm
  exact ⟨other, kept, (byName.shape shape_).trans holds⟩

theorem known_alike {nodes others : Nodes} (alike : nodes.map shape = others.map shape)
    (x : String) :
    known nodes x = known others x := by
  rw [Bool.eq_iff_iff, known_iff, known_iff]
  exact ⟨fun ⟨i, there⟩ => ⟨i, names_alike alike (named_byName x) there⟩,
    fun ⟨i, there⟩ => ⟨i, names_alike alike.symm (named_byName x) there⟩⟩

/-- One statement over, in a graph that differs from the settled one in its values only. -/
theorem settled_step (nowIso : String) (settled : Settled prov intents g) {intent : WriteIntent}
    (member : intent ∈ intents)
    {h : KnowledgeGraph} (alike : h.nodes.map shape = g.nodes.map shape)
    (edges : h.edges = g.edges) :
    (written prov nowIso h intent).nodes = h.nodes.map (touched prov nowIso h.nodes intent) ∧
      (written prov nowIso h intent).edges = g.edges := by
  have effect := written_effect prov nowIso h intent
  have finds : findsEnds h.nodes intent = findsEnds g.nodes intent :=
    findsEnds_congr fun x _ => known_alike alike x
  have quiet : nodesAfter prov nowIso h.nodes intent = h.nodes.map
      (touched prov nowIso h.nodes intent) := by
    apply nodesAfter_quiet
    intro found label name kind
    obtain ⟨j, there⟩ := settled.made intent member (finds ▸ found) label name kind
    exact ⟨j, names_alike alike.symm (is_byName label name) there⟩
  refine ⟨effect.nodes.trans quiet, ?_⟩
  obtain ⟨new, after, fresh⟩ := effect.edges
  have nothing : new = [] := by
    rw [List.eq_nil_iff_forall_not_mem]
    intro e there
    apply fresh e there
    -- the statement joins nothing that is not joined already
    have linked : (written prov nowIso h intent).Linked e.source e.type e.target := by
      refine ⟨marked prov h.nodes intent e, ?_, marked_ends prov h.nodes intent e⟩
      rw [after]
      exact List.mem_map_of_mem (List.mem_append_right _ there)
    rcases (effect.linked _ _ _).mp linked with old | joins
    · exact old
    · have settledJoin : Joins g.nodes g.nodes intent e.source e.type e.target := by
        refine joins_mono (fun x _ i => names_alike alike (named_byName x)) (fun x _ i there => ?_)
          (fun _ label name _ i there => ?_) joins
        · rw [quiet, at_touched (named_byName x)] at there
          exact names_alike alike (named_byName x) there
        · rw [quiet, at_touched (is_byName label name)] at there
          exact names_alike alike (is_byName label name) there
      have old := settled.joined intent member _ _ _ settledJoin
      rwa [Cypher.Graph.Linked, ← edges, ← Cypher.Graph.Linked] at old
  rw [after, nothing, List.append_nil, edges]
  have same : ∀ e ∈ g.edges, marked prov h.nodes intent e = e := by
    intro e there
    have congr : marked prov h.nodes intent e = marked prov g.nodes intent e := by
      apply marked_congr
      · exact fun x _ =>
          ⟨names_alike alike (named_byName x), names_alike alike.symm (named_byName x)⟩
      · exact fun x _ =>
          ⟨names_alike alike (named_byName x), names_alike alike.symm (named_byName x)⟩
    rw [congr, settled.marked intent member e there]
  rw [List.map_congr_left same, List.map_id']

/-- What is written again in a settled graph are the values, statement after statement. -/
theorem settled_run (nowIso : String) (settled : Settled prov intents g)
    {before after : List WriteIntent}
    (split : intents = before ++ after) :
    (leaves prov nowIso before g).nodes.map shape = g.nodes.map shape ∧
      (leaves prov nowIso before g).edges = g.edges ∧
      ∀ (i : Nat) node other, (leaves prov nowIso before g).nodes[i]? = some node →
        g.nodes[i]? = some other →
        ∀ key, node.props key = (lastValue prov nowIso g.nodes before other key).or
          (other.props key) := by
  induction before using List.reverseRecOn generalizing after with
  | nil =>
    refine ⟨rfl, rfl, fun i node other there here key => ?_⟩
    rw [Option.some.inj (there.symm.trans here)]
    rfl
  | append_singleton before intent ih =>
    obtain ⟨alike, edges, values⟩ := ih (by rw [split, List.append_assoc])
    have member : intent ∈ intents := by rw [split]; simp
    obtain ⟨nodes, kept⟩ := settled_step nowIso settled member alike edges
    have shapes : ∀ node,
        shape (touched prov nowIso (leaves prov nowIso before g).nodes intent node) = shape node :=
      touched_shape
    rw [leaves_append]
    change (written prov nowIso (leaves prov nowIso before g) intent).nodes.map shape = _ ∧
      (written prov nowIso (leaves prov nowIso before g) intent).edges = _ ∧
      ∀ (i : Nat) node other, (written prov nowIso (leaves prov nowIso before g) intent).nodes[i]? =
        some node → _
    rw [nodes, List.map_map]
    refine ⟨(List.map_congr_left fun node _ => shapes node).trans alike, kept, ?_⟩
    intro i node other there here key
    rw [List.getElem?_map, Option.map_eq_some_iff] at there
    obtain ⟨node, found, rfl⟩ := there
    have same : shape node = shape other := by
      have at_ := congrArg (·[i]?) alike
      simpa only [List.getElem?_map, found, here, Option.map_some, Option.some.injEq] using at_
    have finds : findsEnds (leaves prov nowIso before g).nodes intent = findsEnds g.nodes intent :=
      findsEnds_congr fun x _ => known_alike alike x
    rw [touched_props, values i node other found here key, lastValue_snoc,
      valueFor_congr finds same, Option.or_assoc]

/-- A batch that is settled changes nothing but the time of writing. -/
theorem settled_again (settled : Settled prov intents g) (nowIso : String) :
    SameButTime (leaves prov nowIso intents g) g := by
  obtain ⟨alike, edges, values⟩ := settled_run nowIso settled (List.append_nil intents).symm
  refine ⟨?_, fun i node other there here => ?_, edges⟩
  · simpa only [List.length_map] using congrArg List.length alike
  · have same := congrArg (·[i]?) alike
    simp only [List.getElem?_map, there, here, Option.map_some, Option.some.injEq] at same
    refine ⟨congrArg Prod.fst same, fun key timeless => ?_⟩
    rw [values i node other there here key]
    cases last : lastValue prov nowIso g.nodes intents other key with
    | none => rfl
    | some v => exact (settled.values i other here key timeless nowIso v last).symm

/-! A steady run settles. -/

/-- Every statement of the run finds what it would find in the end. -/
def Steady (prov : Provenance) (nowIso : String) (intents : List WriteIntent)
    (g : KnowledgeGraph) : Prop :=
  ∀ before intent after, intents = before ++ intent :: after → ∀ x ∈ references intent, ∀ i,
    At (leaves prov nowIso intents g).nodes i (named x) →
      At (leaves prov nowIso before g).nodes i (named x)

variable {before after : List WriteIntent} {intent : WriteIntent}

theorem leaves_snoc (before : List WriteIntent) (intent : WriteIntent) (g : KnowledgeGraph) :
    leaves prov nowIso (before ++ [intent]) g = written prov nowIso
      (leaves prov nowIso before g) intent :=
  leaves_append before [intent] g

/-- What was left in the middle of a run has grown into what is left in the end. -/
theorem leaves_later (split : intents = before ++ after) :
    Grows (leaves prov nowIso before g) (leaves prov nowIso intents g) := by
  rw [split, leaves_append]
  exact leaves_grows prov nowIso after _

theorem steady_finds (steady : Steady prov nowIso intents g)
    (split : intents = before ++ intent :: after) :
    findsEnds (leaves prov nowIso intents g).nodes intent = findsEnds
      (leaves prov nowIso before g).nodes intent := by
  apply findsEnds_congr
  intro x member
  rw [Bool.eq_iff_iff, known_iff, known_iff]
  constructor
  · rintro ⟨i, there⟩
    exact ⟨i, steady before intent after split x member i there⟩
  · rintro ⟨i, there⟩
    exact ⟨i, (leaves_later split).at_ (named_byName x) there⟩

/-- A node of a statement's kind is there right after the statement, and stays where it is. -/
theorem steady_own (steady : Steady prov nowIso intents g)
    (split : intents = before ++ intent :: after)
    (finds : findsEnds (leaves prov nowIso intents g).nodes intent = true) {label name : String}
    (kind : kindOf intent = some (label, name)) :
    (∃ j, At (leaves prov nowIso (before ++ [intent]) g).nodes j
      (Node.is label "name" (.text name))) ∧
      ∀ i, At (leaves prov nowIso intents g).nodes i (Node.is label "name" (.text name)) →
        At (leaves prov nowIso (before ++ [intent]) g).nodes i
          (Node.is label "name" (.text name)) := by
  have made_ : ∃ j, At (leaves prov nowIso (before ++ [intent]) g).nodes j
      (Node.is label "name" (.text name)) := by
    rw [leaves_snoc, (written_effect prov nowIso _ intent).nodes]
    exact nodesAfter_made kind (steady_finds steady split ▸ finds)
  refine ⟨made_, fun i there => ?_⟩
  have later : Grows (leaves prov nowIso (before ++ [intent]) g) (leaves prov nowIso intents g) :=
    leaves_later (split.trans (List.append_cons before intent after))
  obtain ⟨j, old⟩ := made_
  by_contra absent
  have beyond : ¬ i < (leaves prov nowIso (before ++ [intent]) g).nodes.length :=
    fun inside => absent (later.at_back (is_byName label name) inside there)
  exact later.made i label name (Nat.le_of_not_lt beyond) there j old

/-- What a statement joins in the end it has joined in its turn. -/
theorem steady_joined (steady : Steady prov nowIso intents g)
    (split : intents = before ++ intent :: after)
    {a b : Nat} {t : String}
    (joins : Joins (leaves prov nowIso intents g).nodes (leaves prov nowIso intents g).nodes
      intent a t b) :
    (leaves prov nowIso (before ++ [intent]) g).Linked a t b := by
  have effect := written_effect prov nowIso (leaves prov nowIso before g) intent
  rw [leaves_snoc, effect.linked]
  refine .inr (joins_mono (steady before intent after split) (fun x member i there => ?_)
    (fun finds label name kind i there => ?_) joins)
  · rw [← effect.nodes]
    exact effect.grows.at_ (named_byName x) (steady before intent after split x member i there)
  · rw [← effect.nodes, ← leaves_snoc]
    exact (steady_own steady split finds kind).2 i there

/-- The marks of the statements so far lie on the relationships so far. -/
theorem steady_marked (steady : Steady prov nowIso intents g) (split : intents = before ++ after) :
    ∀ earlier ∈ before, ∀ e ∈ (leaves prov nowIso before g).edges,
      marked prov (leaves prov nowIso intents g).nodes earlier e = e := by
  induction before using List.reverseRecOn generalizing after with
  | nil => exact fun earlier member => absurd member List.not_mem_nil
  | append_singleton before intent ih =>
    have whole : intents = before ++ intent :: after := by rw [split, List.append_assoc]; rfl
    have marks := ih whole
    have effect := written_effect prov nowIso (leaves prov nowIso before g) intent
    obtain ⟨new, edges, fresh⟩ := effect.edges
    intro earlier member e there
    rw [leaves_snoc, edges, List.mem_map] at there
    obtain ⟨e, inside, rfl⟩ := there
    have final : marked prov (leaves prov nowIso before g).nodes intent e =
        marked prov (leaves prov nowIso intents g).nodes intent e := by
      apply marked_congr
      · exact fun x named_ =>
          ⟨(leaves_later whole).at_ (named_byName x), steady before intent after whole x named_ _⟩
      · exact fun x named_ =>
          ⟨(leaves_later whole).at_ (named_byName x), steady before intent after whole x named_ _⟩
    rw [final]
    rcases List.mem_append.mp member with old | last
    · rcases marked_eq e with plain | ⟨_, again⟩
      · rw [plain]
        rcases List.mem_append.mp inside with there | new_
        · exact marks earlier old e there
        -- an earlier statement that joins these ends would have left no room for a new relationship
        · rcases marked_eq e with done | ⟨joins, _⟩
          · exact done
          · obtain ⟨first, rest, rfl⟩ := List.append_of_mem old
            have there := steady_joined steady (by rw [whole, List.append_assoc]; rfl) joins
            exact absurd ((leaves_later (List.append_cons first earlier rest)).linked there)
              (fresh e new_)
      · rw [again, marked_mark]
    · rw [List.mem_singleton.mp last]
      exact marked_again prov _ intent e

/-- A statement sets a value in its turn when it would set one in the end. -/
theorem steady_value (steady : Steady prov nowIso intents g)
    (split : intents = before ++ intent :: after)
    {node other : Node Scalar} (same : shape node = shape other) (key : String) :
    valueFor prov nowIso (leaves prov nowIso before g).nodes intent node key =
      valueFor prov nowIso (leaves prov nowIso intents g).nodes intent other key :=
  valueFor_congr (steady_finds steady split).symm same

/-- The nodes so far carry what the statements so far set. -/
theorem steady_values (steady : Steady prov nowIso intents g) (split : intents = before ++ after) :
    ∀ (i : Nat) node, (leaves prov nowIso before g).nodes[i]? = some node → ∀ key v,
      lastValue prov nowIso (leaves prov nowIso intents g).nodes before node key = some v →
        node.props key = some v := by
  induction before using List.reverseRecOn generalizing after with
  | nil =>
    intro i node _ key v last
    cases last
  | append_singleton before intent ih =>
    have whole : intents = before ++ intent :: after := by rw [split, List.append_assoc]; rfl
    have carried := ih whole
    intro i node there key v last
    rw [leaves_snoc, (written_effect prov nowIso _ intent).nodes] at there
    rw [lastValue_snoc] at last
    by_cases old : i < (leaves prov nowIso before g).nodes.length
    · rw [nodesAfter_old old, Option.map_eq_some_iff] at there
      obtain ⟨node, found, rfl⟩ := there
      have same : shape (touched prov nowIso (leaves prov nowIso before g).nodes intent node) =
          shape node :=
        touched_shape node
      rw [touched_props, steady_value steady whole same.symm]
      cases here : valueFor prov nowIso (leaves prov nowIso intents g).nodes intent
          (touched prov nowIso (leaves prov nowIso before g).nodes intent node) key with
      | some w => rwa [here] at last
      | none =>
        rw [here, Option.none_or, lastValue_shape before same] at last
        exact carried i node found key v last
    · obtain ⟨n, planned, finds, absent, rfl⟩ := nodesAfter_new (Nat.le_of_not_lt old) there
      cases here : valueFor prov nowIso (leaves prov nowIso intents g).nodes intent
        (newNode n) key with
      | some w =>
        obtain ⟨m, same, _, _, set⟩ := valueFor_some here
        rw [planned] at same
        cases same
        rw [here, Option.some_or] at last
        simp only [newNode, Node.setAll, Cypher.overlay, set, Option.some_or, last]
      | none =>
        rw [here, Option.none_or] at last
        -- an earlier statement about this node would have made it
        obtain ⟨earlier, member, set⟩ := lastValue_some last
        obtain ⟨m, other, finds', is_, _⟩ := valueFor_some set
        obtain ⟨first, rest, rfl⟩ := List.append_of_mem member
        obtain ⟨⟨j, made_⟩, _⟩ := steady_own steady (by rw [whole, List.append_assoc]; rfl) finds'
          (planned_kind other)
        obtain ⟨label, name⟩ := (newNode_is (plannedNode_name planned)).mp is_
        obtain ⟨node, found, holds⟩ :=
          (leaves_later (List.append_cons first earlier rest)).at_ (is_byName m.label m.name) made_
        rw [List.any_eq_false] at absent
        rw [label, name] at holds
        exact absurd holds (absent node (List.mem_of_getElem? found))

/-- A steady run settles the graph. -/
theorem steady_settled (steady : Steady prov nowIso intents g) : Settled prov intents
    (leaves prov nowIso intents g) where
  made intent member finds label name kind := by
    obtain ⟨before, after, split⟩ := List.append_of_mem member
    obtain ⟨⟨j, there⟩, _⟩ := steady_own steady split finds kind
    exact ⟨j, (leaves_later (split.trans (List.append_cons before intent after))).at_
      (is_byName label name) there⟩
  joined intent member a t b joins := by
    obtain ⟨before, after, split⟩ := List.append_of_mem member
    exact (leaves_later (split.trans (List.append_cons before intent after))).linked
      (steady_joined steady split joins)
  marked intent member e there :=
    steady_marked steady (List.append_nil intents).symm intent member e there
  values i node there key timeless later v last := by
    rw [lastValue_time nowIso timeless] at last
    exact steady_values steady (List.append_nil intents).symm i node there key v last

end

end Metahumotonic.Kg
