import Mathlib.Data.List.Induction
import Metahumotonic.Kg.Growth

/-! Graphs that a batch has nothing left to do in. In a settled graph every node of the batch
is there, every relationship that its statements name is there and marked, and every node
carries the values that the last statement about it sets; to write the batch again changes
nothing but the time at which it was written. -/
namespace Metahumotonic.Kg

open Library
open Library.Cypher (Node)

/-- The names that a statement looks for: a hub, a parent, children, the ends of a link. -/
def references : WriteIntent → List String
  | .recordFinding f => f.hub.toList
  | .recordLesson _ => []
  | .recordDispatch d => d.parent :: d.children
  | .linkNodes k => [k.source, k.target]

theorem findsEnds_congr {nodes others : Nodes} {intent : WriteIntent}
    (same : ∀ x ∈ references intent, known nodes x = known others x) :
    findsEnds nodes intent = findsEnds others intent := by
  cases intent with
  | recordFinding f =>
    cases given : f.hub with
    | none => simp [findsEnds, given]
    | some hub => simp [findsEnds, given, same hub (by simp [references, given])]
  | recordLesson l => rfl
  | recordDispatch d => rfl
  | linkNodes k =>
    rw [findsEnds, findsEnds, same k.source List.mem_cons_self,
      same k.target (List.mem_cons_of_mem _ List.mem_cons_self)]

theorem joins_mono {intent : WriteIntent} {before after before' after' : Nodes}
    (starts : ∀ x ∈ references intent, ∀ i, At before i (named x) → At before' i (named x))
    (ends : ∀ x ∈ references intent, ∀ i, At after i (named x) → At after' i (named x))
    (own : findsEnds before intent = true → ∀ label name, kindOf intent = some (label, name) → ∀ i,
      At after i (Node.is label "name" (.text name)) →
        At after' i (Node.is label "name" (.text name)))
    {a b : Nat} {t : String} (joins : Joins before after intent a t b) :
      Joins before' after' intent a t b := by
  cases intent with
  | recordFinding f =>
    obtain ⟨type, ⟨hub, given, here⟩, there⟩ := joins
    have found : findsEnds before (.recordFinding f) = true := by
      rw [findsEnds, Option.mem_def.mp given, Option.all_some]
      exact known_iff.mpr ⟨a, here⟩
    have member : hub ∈ references (.recordFinding f) := Option.mem_toList.mpr given
    exact ⟨type, ⟨hub, given, starts hub member a here⟩, own found _ _ rfl b there⟩
  | recordLesson l => exact joins
  | recordDispatch d =>
    obtain ⟨here, parent, there⟩ := joins
    obtain ⟨i, up⟩ := known_iff.mp parent
    refine ⟨own rfl _ _ rfl a here, known_iff.mpr ⟨i, ends _ List.mem_cons_self i up⟩, ?_⟩
    rcases there with ⟨type, up⟩ | ⟨type, child, listed, down⟩
    · exact .inl ⟨type, ends _ List.mem_cons_self b up⟩
    · exact .inr ⟨type, child, listed, ends _ (List.mem_cons_of_mem _ listed) b down⟩
  | linkNodes k =>
    obtain ⟨type, here, there⟩ := joins
    exact ⟨type, starts _ List.mem_cons_self a here,
      starts _ (List.mem_cons_of_mem _ List.mem_cons_self) b there⟩

theorem mark_twice (prov : Provenance) (e : Cypher.Edge Scalar) :
    mark prov (mark prov e) = mark prov e := by
  simp only [mark, Cypher.overlay_twice]

/-- The mark of a link lies on what the link joins. -/
theorem marked_eq {prov : Provenance} {nodes : Nodes} {intent : WriteIntent}
    (e : Cypher.Edge Scalar) :
    marked prov nodes intent e = e ∨
      Joins nodes nodes intent e.source e.type e.target ∧
        marked prov nodes intent e = mark prov e := by
  unfold marked
  split
  · split
    · rename_i fits
      exact .inr ⟨⟨fits.1, (Option.any_eq_true _ _).mp fits.2.1,
        (Option.any_eq_true _ _).mp fits.2.2⟩, rfl⟩
    · exact .inl rfl
  · exact .inl rfl

theorem marked_congr (prov : Provenance) {nodes others : Nodes} {intent : WriteIntent}
    {e : Cypher.Edge Scalar}
    (source : ∀ x ∈ references intent, (At nodes e.source (named x) ↔ At others e.source (named x)))
    (target : ∀ x ∈ references intent, (At nodes e.target (named x) ↔ At others e.target (named x)))
      :
    marked prov nodes intent e = marked prov others intent e := by
  cases intent with
  | linkNodes k =>
    have first := source _ List.mem_cons_self
    have second := target _ (List.mem_cons_of_mem _ List.mem_cons_self)
    simp only [At, ← Option.any_eq_true] at first second
    simp only [marked, first, second]
  | _ => rfl

theorem marked_mark (prov : Provenance) (nodes : Nodes) (intent : WriteIntent)
    (e : Cypher.Edge Scalar) :
    marked prov nodes intent (mark prov e) = mark prov e := by
  rcases marked_eq (mark prov e) with plain | ⟨_, again⟩
  · exact plain
  · rw [again, mark_twice]

theorem marked_again (prov : Provenance) (nodes : Nodes) (intent : WriteIntent)
    (e : Cypher.Edge Scalar) :
    marked prov nodes intent (marked prov nodes intent e) = marked prov nodes intent e := by
  rcases marked_eq e with plain | ⟨_, again⟩
  · rw [plain, plain]
  · rw [again, marked_mark]

section
variable (prov : Provenance) (nowIso : String)

/-- The value that a statement sets at a node. -/
def valueFor (nodes : Nodes) (intent : WriteIntent) (node : Node Scalar) (key : String) :
    Option Scalar :=
  match plannedNode prov nowIso intent with
  | some n => if findsEnds nodes intent && n.is node then member? n.values key else none
  | none => none

/-- The value that the last of the statements sets that set one. -/
def lastValue (nodes : Nodes) (intents : List WriteIntent) (node : Node Scalar) (key : String) :
    Option Scalar :=
  intents.foldl (fun found intent => (valueFor prov nowIso nodes intent node key).or found) none

end

section
variable {prov : Provenance} {nowIso : String} {nodes others : Nodes} {intent : WriteIntent}
  {node other : Node Scalar} {key : String}

theorem valueFor_some {v : Scalar} (found : valueFor prov nowIso nodes intent node key = some v) :
    ∃ n, plannedNode prov nowIso intent = some n ∧ findsEnds nodes intent = true ∧
      n.is node = true ∧
      member? n.values key = some v := by
  unfold valueFor at found
  split at found
  · rename_i n planned
    split at found
    · rename_i applies
      rw [Bool.and_eq_true] at applies
      exact ⟨n, planned, applies.1, applies.2, found⟩
    · cases found
  · cases found

theorem touched_props : (touched prov nowIso nodes intent node).props key =
    (valueFor prov nowIso nodes intent node key).or (node.props key) := by
  unfold touched valueFor
  cases plannedNode prov nowIso intent with
  | none => rfl
  | some n =>
    dsimp only
    split <;> rfl

theorem valueFor_congr (finds : findsEnds nodes intent = findsEnds others intent)
    (same : shape node = shape other) :
    valueFor prov nowIso nodes intent node key = valueFor prov nowIso others intent other key := by
  unfold valueFor
  split
  · rename_i n _
    rw [finds, PlannedNode.is, (is_byName n.label n.name).shape same]
  · rfl

/-- Only the time of writing depends on the time. -/
theorem valueFor_time (later : String) (other_ : key ≠ "written_at") :
    valueFor prov nowIso nodes intent node key = valueFor prov later nodes intent node key := by
  have props : ∀ rest : List (String × Scalar),
      member? (stamp prov ++ [("written_at", .text nowIso)] ++ rest) key =
        member? (stamp prov ++ [("written_at", .text later)] ++ rest) key := by
    intro rest
    simp only [member?_append, member?_cons, if_neg other_]
  cases intent with
  | recordFinding f =>
    obtain ⟨name, description, evidence, citation, status, hub⟩ := f
    simp only [valueFor, plannedNode]
    congr 1
    cases hub <;> exact props _
  | recordLesson l =>
    simp only [valueFor, plannedNode]
    congr 1
    exact props _
  | recordDispatch d =>
    simp only [valueFor, plannedNode]
    congr 1
    exact props _
  | linkNodes k => rfl

theorem lastValue_snoc (before : List WriteIntent) : lastValue prov nowIso nodes
    (before ++ [intent]) node key =
    (valueFor prov nowIso nodes intent node key).or
    (lastValue prov nowIso nodes before node key) := by
  rw [lastValue, List.foldl_append]
  rfl

theorem lastValue_shape (intents : List WriteIntent) (same : shape node = shape other) :
    lastValue prov nowIso nodes intents node key = lastValue prov nowIso nodes intents
      other key := by
  unfold lastValue
  congr 1
  funext found intent
  rw [valueFor_congr rfl same]

theorem lastValue_time (later : String) (other_ : key ≠ "written_at") (intents : List WriteIntent) :
    lastValue prov nowIso nodes intents node key = lastValue prov later nodes intents node key := by
  unfold lastValue
  congr 1
  funext found intent
  rw [valueFor_time later other_]

theorem lastValue_some {intents : List WriteIntent} {v : Scalar}
    (found : lastValue prov nowIso nodes intents node key = some v) :
    ∃ intent ∈ intents, valueFor prov nowIso nodes intent node key = some v := by
  induction intents using List.reverseRecOn with
  | nil => cases found
  | append_singleton before intent ih =>
    rw [lastValue_snoc] at found
    cases here : valueFor prov nowIso nodes intent node key with
    | some w =>
      rw [here, Option.some_or] at found
      exact ⟨intent, by simp, here.trans found⟩
    | none =>
      rw [here, Option.none_or] at found
      obtain ⟨earlier, member, set⟩ := ih found
      exact ⟨earlier, List.mem_append_left _ member, set⟩

/-- The node that a statement plans is there after it, if the statement finds its ends. -/
theorem nodesAfter_made {label name : String} (kind : kindOf intent = some (label, name))
    (finds : findsEnds nodes intent = true) :
    ∃ j, At (nodesAfter prov nowIso nodes intent) j (Node.is label "name" (.text name)) := by
  obtain ⟨n, planned⟩ : ∃ n, plannedNode prov nowIso intent = some n := by
    cases intent with
    | linkNodes k => cases kind
    | _ => exact ⟨_, rfl⟩
  rw [planned_kind planned, Option.some.injEq, Prod.mk.injEq] at kind
  obtain ⟨rfl, rfl⟩ := kind
  have after : nodesAfter prov nowIso nodes intent = mergeInto n nodes := by
    rw [nodesAfter, planned]
    exact if_pos finds
  rw [after]
  simp only [at_mergeInto (plannedNode_name planned) (is_byName n.label n.name), made]
  split
  · rename_i there
    obtain ⟨node, member, holds⟩ := List.any_eq_true.mp there
    obtain ⟨j, found⟩ := List.mem_iff_getElem?.mp member
    exact ⟨j, node, found, holds⟩
  · refine ⟨nodes.length, _, by rw [List.getElem?_append_right (Nat.le_refl _), Nat.sub_self]; rfl,
      ?_⟩
    simp [Node.is]

/-- A statement whose node is there makes none. -/
theorem nodesAfter_quiet
    (there : findsEnds nodes intent = true → ∀ label name, kindOf intent = some (label, name) →
    ∃ j, At nodes j (Node.is label "name" (.text name))) :
    nodesAfter prov nowIso nodes intent = nodes.map (touched prov nowIso nodes intent) := by
  rcases nodesAfter_cases prov nowIso nodes intent with same | ⟨n, planned, finds, absent, _⟩
  · exact same
  · obtain ⟨j, node, found, holds⟩ := there finds _ _ (planned_kind planned)
    rw [List.any_eq_false] at absent
    exact absurd holds (absent node (List.mem_of_getElem? found))

theorem at_touched {kind : Node Scalar → Bool} (byName : ByName kind) {i : Nat} :
    At (nodes.map (touched prov nowIso others intent)) i kind ↔ At nodes i kind := by
  simp only [At, List.getElem?_map, Option.map_eq_some_iff]
  constructor
  · rintro ⟨_, ⟨node, there, rfl⟩, holds⟩
    exact ⟨node, there, (byName.shape (touched_shape node)).symm.trans holds⟩
  · rintro ⟨node, there, holds⟩
    exact ⟨_, ⟨node, there, rfl⟩, (byName.shape (touched_shape node)).trans holds⟩

end

/-- The statements have nothing left to do in the graph, but to say when. -/
structure Settled (prov : Provenance) (intents : List WriteIntent) (g : KnowledgeGraph) : Prop where
  made : ∀ intent ∈ intents, findsEnds g.nodes intent = true → ∀ label name,
    kindOf intent = some (label, name) →
    ∃ j, At g.nodes j (Node.is label "name" (.text name))
  joined : ∀ intent ∈ intents, ∀ a t b, Joins g.nodes g.nodes intent a t b → g.Linked a t b
  marked : ∀ intent ∈ intents, ∀ e ∈ g.edges, marked prov g.nodes intent e = e
  values : ∀ (i : Nat) node, g.nodes[i]? = some node → ∀ key ≠ "written_at", ∀ nowIso v,
    lastValue prov nowIso g.nodes intents node key = some v → node.props key = some v

/-- The same graph, up to the times of writing. -/
structure SameButTime (g h : KnowledgeGraph) : Prop where
  length : g.nodes.length = h.nodes.length
  nodes : ∀ (i : Nat) node other, g.nodes[i]? = some node → h.nodes[i]? = some other →
    node.labels = other.labels ∧ ∀ key ≠ "written_at", node.props key = other.props key
  edges : g.edges = h.edges

end Metahumotonic.Kg
