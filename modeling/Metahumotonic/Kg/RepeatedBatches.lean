import Metahumotonic.Library.Positions
import Metahumotonic.Kg.Idempotence
import Metahumotonic.Kg.Interpreter

/-! Batches that are applied again and again. A run that makes no node is steady, and so is
every run of a batch none of whose statements looks for a name that may still be made. A
batch can make nodes in no more runs than it has intents. -/
namespace Metahumotonic.Kg

open Library
open Library.Cypher (Node)

theorem SameButTime.refl (g : KnowledgeGraph) : SameButTime g g where
  length := rfl
  nodes i node other there here := by
    rw [there, Option.some.injEq] at here
    exact ⟨here ▸ rfl, fun key _ => here ▸ rfl⟩
  edges := rfl

theorem SameButTime.trans {g h k : KnowledgeGraph} (first : SameButTime g h)
    (second : SameButTime h k) :
    SameButTime g k where
  length := first.length.trans second.length
  nodes i node other there here := by
    have inside := (List.getElem?_eq_some_iff.mp there).1
    rw [first.length] at inside
    have middle := List.getElem?_eq_getElem inside
    obtain ⟨labels, values⟩ := first.nodes i node _ there middle
    obtain ⟨labels', values'⟩ := second.nodes i _ other middle here
    exact ⟨labels.trans labels', fun key timeless => (values key timeless).trans
      (values' key timeless)⟩
  edges := first.edges.trans second.edges

/-- No statement looks for a name that it or a later statement of the batch may make. -/
def SelfContained (intents : List WriteIntent) : Prop :=
  ∀ before intent after, intents = before ++ intent :: after → ∀ x ∈ references intent,
    ∀ other ∈ intent :: after, ∀ label, kindOf other ≠ some (label, x)

section
variable {prov : Provenance} {nowIso : String} {intents : List WriteIntent} {g : KnowledgeGraph}

theorem selfContained_steady (contained : SelfContained intents) :
    Steady prov nowIso intents g := by
  intro before intent after split x member i there
  by_cases old : i < (leaves prov nowIso before g).nodes.length
  · exact (leaves_later split).at_back (named_byName x) old there
  · rw [split, leaves_append] at there
    obtain ⟨other, later, label, kind⟩ := leaves_new (Nat.le_of_not_lt old) there
    exact absurd kind (contained before intent after split x member other later label)

/-- A run that makes no node finds at every statement what there is in the end. -/
theorem quiet_steady (quiet : (leaves prov nowIso intents g).nodes.length = g.nodes.length) :
    Steady prov nowIso intents g := by
  intro before intent after split x member i there
  have inside := at_lt there
  rw [quiet] at inside
  have grown := (leaves_grows prov nowIso before g).length_le
  exact (leaves_later split).at_back (named_byName x) (inside.trans_le grown) there

theorem quiet_again (quiet : (leaves prov nowIso intents g).nodes.length = g.nodes.length)
    (later : String) :
    SameButTime (leaves prov later intents (leaves prov nowIso intents g))
      (leaves prov nowIso intents g) :=
  settled_again (steady_settled (quiet_steady quiet)) later

/-- The node of an intent is not there. -/
def absent (nodes : Nodes) (intent : WriteIntent) : Bool :=
  (kindOf intent).any fun kind => !nodes.any (Node.is kind.1 "name" (.text kind.2))

theorem absent_iff {nodes : Nodes} {intent : WriteIntent} : absent nodes intent = true ↔
    ∃ label name, kindOf intent = some (label, name) ∧
      ∀ i, ¬ At nodes i (Node.is label "name" (.text name)) := by
  simp only [absent, Option.any_eq_true, Prod.exists, Bool.not_eq_true', List.any_eq_false]
  constructor
  · rintro ⟨label, name, kind, nobody⟩
    refine ⟨label, name, kind, ?_⟩
    rintro i ⟨node, there, holds⟩
    exact nobody node (List.mem_of_getElem? there) holds
  · rintro ⟨label, name, kind, nobody⟩
    refine ⟨label, name, kind, fun node member holds => ?_⟩
    obtain ⟨i, there⟩ := List.mem_iff_getElem?.mp member
    exact nobody i ⟨node, there, holds⟩

/-- A run that makes a node makes one of a kind that was not there. -/
theorem fewer_absent (made_ : (leaves prov nowIso intents g).nodes.length ≠ g.nodes.length) :
    intents.countP (absent (leaves prov nowIso intents g).nodes) < intents.countP
      (absent g.nodes) := by
  have grows := leaves_grows prov nowIso intents g
  have weaker : ∀ intent ∈ intents, absent (leaves prov nowIso intents g).nodes intent = true →
      absent g.nodes intent = true := by
    intro intent _ gone
    obtain ⟨label, name, kind, nobody⟩ := absent_iff.mp gone
    exact absent_iff.mpr ⟨label, name, kind, fun i there =>
      nobody i (grows.at_ (is_byName label name) there)⟩
  apply Nat.lt_of_le_of_ne (List.countP_mono_left weaker)
  intro same
  have more : g.nodes.length < (leaves prov nowIso intents g).nodes.length :=
    Nat.lt_of_le_of_ne grows.length_le made_.symm
  obtain ⟨intent, member, label, name, kind, there⟩ := leaves_made (Nat.le_refl _) more
  have before : absent g.nodes intent = true :=
    absent_iff.mpr ⟨label, name, kind, grows.made _ label name (Nat.le_refl _) there⟩
  have after := (countP_eq_iff weaker).mp same.symm intent member before
  obtain ⟨label', name', kind', nobody⟩ := absent_iff.mp after
  rw [kind, Option.some.injEq, Prod.mk.injEq] at kind'
  obtain ⟨rfl, rfl⟩ := kind'
  exact nobody _ there

/-- The graph after a number of runs, each at its time. -/
def repeated (prov : Provenance) (times : Nat → String) (intents : List WriteIntent)
    (g : KnowledgeGraph) :
    Nat → KnowledgeGraph
  | 0 => g
  | m + 1 => leaves prov (times m) intents (repeated prov times intents g m)

variable {times : Nat → String}

theorem quiet_from {k : Nat} (quiet : (repeated prov times intents g (k + 1)).nodes.length =
    (repeated prov times intents g k).nodes.length) {m : Nat} (later : k ≤ m) :
    (repeated prov times intents g (m + 1)).nodes.length =
    (repeated prov times intents g m).nodes.length := by
  induction m, later using Nat.le_induction with
  | base => exact quiet
  | succ m _ ih => exact (quiet_again ih (times (m + 1))).length

/-- One of the first runs makes no node. -/
theorem quiet_run (prov : Provenance) (times : Nat → String) (intents : List WriteIntent)
    (g : KnowledgeGraph) :
    ∃ k ≤ intents.length, (repeated prov times intents g (k + 1)).nodes.length =
      (repeated prov times intents g k).nodes.length := by
  by_contra busy
  simp only [not_exists, not_and] at busy
  have falling : ∀ k ≤ intents.length + 1,
      intents.countP (absent (repeated prov times intents g k).nodes) + k ≤ intents.length := by
    intro k
    induction k with
    | zero => exact fun _ => List.countP_le_length
    | succ k ih =>
      intro few
      have fewer : intents.countP (absent (repeated prov times intents g (k + 1)).nodes) <
          intents.countP (absent (repeated prov times intents g k).nodes) :=
            fewer_absent (busy k (by omega))
      have before := ih (by omega)
      omega
  have last := falling (intents.length + 1) (Nat.le_refl _)
  omega

/-- After one run more than there are intents nothing changes but the time. -/
theorem repeated_stable {m : Nat} (later : intents.length + 1 ≤ m) :
    SameButTime (repeated prov times intents g m)
      (repeated prov times intents g (intents.length + 1)) := by
  obtain ⟨k, few, quiet⟩ := quiet_run prov times intents g
  induction m, later using Nat.le_induction with
  | base => exact .refl _
  | succ m above ih =>
    obtain ⟨m, rfl⟩ := Nat.exists_eq_add_of_le' (Nat.le_trans (Nat.le_add_left 1 _) above)
    exact (quiet_again (quiet_from quiet (by omega)) (times (m + 1))).trans ih

end

/-! Batches as the port applies them. -/

section
variable {db : Database KnowledgeGraph} {guard : SchemaGuard} {batch : WriteBatch}
    {g : KnowledgeGraph}

theorem committed_leaves (standard : Standard db) (prov : Provenance) (nowIso : String)
    {intents : List WriteIntent}
    (decoded : ∀ intent ∈ intents, intent.decoded = true) (g : KnowledgeGraph) :
    committed db (intents.map fun intent => plan intent prov nowIso) g = leaves prov nowIso
      intents g := by
  induction intents generalizing g with
  | nil => rfl
  | cons intent rest ih =>
    have here := standard.write intent prov nowIso g (decoded intent List.mem_cons_self)
    have later := ih (fun other member => decoded other (List.mem_cons_of_mem _ member))
      (written prov nowIso g intent)
    rw [List.map_cons, committed, List.foldl_cons, here]
    exact later

/-- The graph that a call of `apply` leaves when no query fails. -/
def applied (db : Database KnowledgeGraph) (guard : SchemaGuard) (batch : WriteBatch)
    (nowIso : String)
    (g : KnowledgeGraph) : KnowledgeGraph :=
  (apply db guard (fun _ => none) batch nowIso ⟨g, 0⟩).2.graph

/-- The preflight does not depend on the time. -/
theorem refused_time (guard : SchemaGuard) (batch : WriteBatch) (t t' : String)
    (refused : Refused guard (statementsOf batch t)) : Refused guard (statementsOf batch t') := by
  obtain ⟨s, member, bad⟩ := refused
  obtain ⟨intent, there, rfl⟩ := List.mem_map.mp member
  refine ⟨plan intent batch.provenance t', List.mem_map_of_mem there, ?_⟩
  cases intent <;> exact bad

/-- A batch is applied whole, or not at all, at any time. -/
theorem applied_cases (standard : Standard db) (guard : SchemaGuard)
    (decoded : batch.decoded = true) :
    (∀ nowIso g, applied db guard batch nowIso g = g) ∨
      ∀ nowIso g, applied db guard batch nowIso g = leaves batch.provenance nowIso
        batch.intents g := by
  have each : ∀ intent ∈ batch.intents, intent.decoded = true := by
    simp only [WriteBatch.decoded, Bool.and_eq_true, List.all_eq_true] at decoded
    exact decoded.2
  by_cases refused : Refused guard (statementsOf batch "")
  · refine .inl fun nowIso g => ?_
    have bad := (refused_iff guard _).mpr (refused_time guard batch "" nowIso refused)
    rw [applied, apply, if_pos bad]
  · cases dry : batch.dryRun with
    | true =>
      refine .inl fun nowIso g => ?_
      have fine : ¬ Refused guard (statementsOf batch nowIso) :=
        fun bad => refused (refused_time guard batch nowIso "" bad)
      rw [← refused_iff] at fine
      rw [applied, apply, if_neg fine, if_pos dry]
    | false =>
      refine .inr fun nowIso g => ?_
      have fine : ¬ Refused guard (statementsOf batch nowIso) :=
        fun bad => refused (refused_time guard batch nowIso "" bad)
      obtain ⟨receipt, calls, ended⟩ := apply_ok db g dry fine (fun _ _ => rfl)
      rw [applied, ended]
      exact committed_leaves standard batch.provenance nowIso each g

/-- What a statement may make: one node of its own kind, and none that it looks for unless it is
a dispatch that looks for its own. -/
structure MakesOwn (intent : WriteIntent) (g after : KnowledgeGraph) : Prop where
  few : after.nodes.length ≤ g.nodes.length + 1
  own : ∀ (i : Nat) node, g.nodes.length ≤ i → after.nodes[i]? = some node → ∃ label name,
    kindOf intent = some (label, name) ∧
      label ∈ ["ResearchFinding", "Lesson", "DispatchHyperedge"] ∧
      node.labels = [label] ∧ node.props "name" = some (.text name)
  others : ∀ x ∈ references intent, known after.nodes x = true →
    known g.nodes x = true ∨ ∃ d, intent = .recordDispatch d ∧ x = d.name

theorem kindOf_label {intent : WriteIntent} {label name : String}
    (kind : kindOf intent = some (label, name)) :
    label ∈ ["ResearchFinding", "Lesson", "DispatchHyperedge"] := by
  cases intent <;> cases kind <;> simp

theorem written_makesOwn (prov : Provenance) (nowIso : String) (g : KnowledgeGraph)
    (intent : WriteIntent) :
    MakesOwn intent g (written prov nowIso g intent) := by
  have nodes := (written_effect prov nowIso g intent).nodes
  refine ⟨?_, fun i node beyond there => ?_, fun x member there => ?_⟩
  · rw [nodes]
    rcases nodesAfter_cases prov nowIso g.nodes intent with same | ⟨n, _, _, _, same⟩
    · rw [same, List.length_map]
      exact Nat.le_add_right _ _
    · rw [same, List.length_append, List.length_map, List.length_singleton]
  · rw [nodes] at there
    obtain ⟨n, planned, _, _, rfl⟩ := nodesAfter_new beyond there
    exact ⟨n.label, n.name, planned_kind planned, kindOf_label (planned_kind planned), rfl,
      newNode_name (plannedNode_name planned)⟩
  · obtain ⟨i, at_⟩ := known_iff.mp there
    by_cases old : i < g.nodes.length
    · exact .inl (known_iff.mpr
        ⟨i, (written_effect prov nowIso g intent).grows.at_back (named_byName x) old at_⟩)
    · obtain ⟨node, found, called⟩ := at_
      rw [nodes] at found
      obtain ⟨n, planned, finds, _, rfl⟩ := nodesAfter_new (Nat.le_of_not_lt old) found
      rw [named, newNode_name (plannedNode_name planned), beq_iff_eq, Option.some.injEq,
        Scalar.text.injEq] at called
      cases intent with
      | recordFinding f =>
        -- a finding is made only when its hub is there
        have hub : x ∈ f.hub := Option.mem_toList.mp member
        rw [findsEnds, Option.mem_def.mp hub, Option.all_some] at finds
        exact .inl finds
      | recordLesson l => cases member
      | recordDispatch d =>
        cases planned
        exact .inr ⟨d, rfl, called.symm⟩
      | linkNodes k => cases planned

/-- What applying a batch again and again does to a graph. -/
structure BatchLaws (db : Database KnowledgeGraph) (guard : SchemaGuard) (batch : WriteBatch)
    (g : KnowledgeGraph) :
    Prop where
  grows : ∀ nowIso, Grows g (applied db guard batch nowIso g)
  idempotent : SelfContained batch.intents → ∀ first second,
    SameButTime (applied db guard batch second (applied db guard batch first g))
      (applied db guard batch first g)
  stable : ∀ runs : Nat → KnowledgeGraph, runs 0 = g →
    (∀ m, ∃ nowIso, runs (m + 1) = applied db guard batch nowIso (runs m)) →
    ∀ m, batch.intents.length + 1 ≤ m → SameButTime (runs m) (runs (batch.intents.length + 1))
  makes : ∀ intent ∈ batch.intents, ∀ nowIso h, MakesOwn intent h
    (db.write (plan intent batch.provenance nowIso).cypher
      (plan intent batch.provenance nowIso).params h).2

theorem batch_laws (db : Database KnowledgeGraph) (standard : Standard db) (guard : SchemaGuard)
    (batch : WriteBatch)
    (decoded : batch.decoded = true) (g : KnowledgeGraph) : BatchLaws db guard batch g := by
  have each : ∀ intent ∈ batch.intents, intent.decoded = true := by
    simp only [WriteBatch.decoded, Bool.and_eq_true, List.all_eq_true] at decoded
    exact decoded.2
  have makes : ∀ intent ∈ batch.intents, ∀ nowIso h, MakesOwn intent h
      (db.write (plan intent batch.provenance nowIso).cypher
        (plan intent batch.provenance nowIso).params h).2 := by
    intro intent member nowIso h
    rw [standard.write intent batch.provenance nowIso h (each intent member)]
    exact written_makesOwn batch.provenance nowIso h intent
  rcases applied_cases standard guard decoded with nothing | whole
  · refine ⟨fun nowIso => ?_, fun _ first second => ?_, fun runs start next m _ => ?_, makes⟩
    · rw [nothing]
      exact .refl g
    · rw [nothing, nothing]
      exact .refl g
    · have same : ∀ m, runs m = g := by
        intro m
        induction m with
        | zero => exact start
        | succ m ih =>
          obtain ⟨nowIso, step⟩ := next m
          rw [step, nothing, ih]
      rw [same, same]
      exact .refl g
  · refine ⟨fun nowIso => ?_, fun contained first second =>
      ?_, fun runs start next m later => ?_, makes⟩
    · rw [whole]
      exact leaves_grows batch.provenance nowIso batch.intents g
    · rw [whole, whole]
      exact settled_again (steady_settled (selfContained_steady contained)) second
    · choose times next using next
      have same : ∀ m, runs m = repeated batch.provenance times batch.intents g m := by
        intro m
        induction m with
        | zero => exact start
        | succ m ih => rw [next, whole, ih, repeated]
      rw [same, same]
      exact repeated_stable later

end

/-- A finding under a hub that is missing, a dispatch with a child, and a link of a node to itself.
-/
def mixedBatch : WriteBatch :=
  { dryRun := false, provenance := { actor := "agent", runId := "run-1" }
    intents := [
      .recordFinding ⟨"finding-1", "described", "seen", .url "https://example.org", "open",
        some "hub-1"⟩,
      .recordDispatch ⟨"dispatch-1", "finding-1", ["finding-1"], "walk", "done",
        .url "https://example.org"⟩,
      sampleLesson "lesson-1", .linkNodes ⟨"lesson-1", "lesson-1", "REFINES"⟩] }

theorem batch_laws_mixed : BatchLaws interpreter
    (.make ["ResearchFinding", "Lesson", "DispatchHyperedge"]
    ["HAS_FINDING", "DISPATCHED", "PRODUCED_BY", "REFINES"]) mixedBatch .empty :=
  batch_laws interpreter interpreter_standard _ mixedBatch (by decide +kernel) .empty

/-- A dispatch that names itself as its parent. -/
def ownParent : WriteIntent :=
  .recordDispatch ⟨"dispatch-1", "dispatch-1", ["finding-1"], "walk", "done",
    .url "https://example.org"⟩

/-- It makes the parent that it names. -/
theorem parent_made : ∃ (db : Database KnowledgeGraph) (intent : WriteIntent) (prov : Provenance)
    (nowIso : String) (g : KnowledgeGraph) (x : String),
    Standard db ∧ intent.decoded = true ∧ x ∈ references intent ∧ known g.nodes x = false ∧
      known (db.write (plan intent prov nowIso).cypher (plan intent prov nowIso).params g).2.nodes
        x =
        true := by
  refine ⟨interpreter, ownParent, ⟨"agent", "run-1", ""⟩, "2026-01-01T00:00:00.000Z", .empty,
    "dispatch-1",
    interpreter_standard, by decide +kernel, by decide, rfl, ?_⟩
  rw [interpreter_standard.write ownParent _ _ _ (by decide +kernel)]
  decide +kernel

end Metahumotonic.Kg
