import Metahumotonic.Platform.Digest
import Metahumotonic.Platform.Graph

/-! Accepted documents: what their schemas say of their parts, and that nothing that is read of
them depends on the order of their members. -/
namespace Metahumotonic.Platform
open Metahumotonic.Library Json

/-! Every schema respects the order. -/

theorem respects_isLiteral (texts : List Text) : Respects (isLiteral texts) := respects_isText _

theorem respects_isBetween (least most : ℕ) : Respects (isBetween least most) := respects_isText _

theorem respects_isId : Respects isId := respects_isText _

theorem respects_isEvidence : Respects isEvidence := by
  apply respects_isStruct
  simp only [evidenceFields, List.forall_mem_cons, List.not_mem_nil, false_implies, implies_true,
    and_true, required]
  exact ⟨respects_isBetween _ _, respects_isLiteral _, respects_isText _, respects_isBetween _ _⟩

theorem respects_evidence : Respects (isArray 1 20 isEvidence) :=
  respects_isArray respects_isEvidence 1 20

theorem respects_isPlatformObservation : Respects isPlatformObservation := by
  apply respects_isStruct
  simp only [observationFields, List.forall_mem_cons, List.not_mem_nil, false_implies,
    implies_true, and_true,
    required]
  exact ⟨respects_isId, respects_isId, respects_isText _, respects_isText _, respects_isLiteral _,
    respects_isLiteral _, respects_evidence⟩

theorem respects_isDeployment : Respects (isStruct deploymentFields) := by
  apply respects_isStruct
  simp only [deploymentFields, List.forall_mem_cons, List.not_mem_nil, false_implies,
    implies_true, and_true,
    required, Json.optional]
  exact ⟨respects_isId, respects_isId, respects_isLiteral _, respects_isLiteral _,
    respects_isBetween _ _,
    respects_isBetween _ _⟩

theorem respects_isNode : Respects (isStruct nodeFields) := by
  apply respects_isStruct
  simp only [nodeFields, List.forall_mem_cons, List.not_mem_nil, false_implies, implies_true,
    and_true, required,
    Json.optional]
  exact ⟨respects_isId, respects_isLiteral _, respects_isBetween _ _,
    respects_isArray (respects_isBetween _ _) _ _,
    respects_isBetween _ _, respects_isLiteral _, respects_isLiteral _, respects_isLiteral _,
      respects_isId,
    respects_isDeployment, respects_isBetween _ _, respects_evidence⟩

theorem respects_isEdge : Respects (isStruct edgeFields) := by
  apply respects_isStruct
  simp only [edgeFields, List.forall_mem_cons, List.not_mem_nil, false_implies, implies_true,
    and_true, required]
  exact ⟨respects_isId, respects_isId, respects_isId, respects_isLiteral _, respects_isLiteral _,
    respects_evidence⟩

theorem respects_isPlatformCatalog : Respects isPlatformCatalog := by
  apply respects_isStruct
  simp only [catalogFields, List.forall_mem_cons, List.not_mem_nil, false_implies, implies_true,
    and_true, required,
    Json.optional]
  exact ⟨respects_isLiteral _, respects_isText _, respects_isArray respects_isNode _ _,
    respects_isArray respects_isEdge _ _, respects_isArray respects_isPlatformObservation _ _⟩

/-! The parts of an accepted struct. -/

theorem itemsAt_of_isStruct {fields : List Field}
    (distinct : (fields.map Field.name).Nodup) {v : Json}
    (accepted : isStruct fields v = true) {name : Text} {flag : Bool} {least most : ℕ}
    {item : Json → Bool}
    (listed : ⟨name, flag, isArray least most item⟩ ∈ fields) :
    (∀ x ∈ v.itemsAt name, item x = true) ∧ (v.itemsAt name).length ≤ most := by
  unfold itemsAt
  cases found : v.get name with
  | none => exact ⟨List.forall_mem_nil _, Nat.zero_le _⟩
  | some x =>
    have held := field_of_isStruct distinct accepted listed found
    cases x with
    | array items =>
      simp only [isArray, Bool.and_eq_true, decide_eq_true_eq, List.all_eq_true] at held
      exact ⟨held.2, held.1.2⟩
    | _ => exact ⟨List.forall_mem_nil _, Nat.zero_le _⟩

theorem textAt_of_isStruct {fields : List Field}
    (distinct : (fields.map Field.name).Nodup) {v : Json}
    (accepted : isStruct fields v = true) {name : Text} {accepts : Text → Bool}
    (listed : required name (isText accepts) ∈ fields) :
    v.get name = some (.text (v.textAt name)) ∧ accepts (v.textAt name) = true := by
  obtain ⟨x, found⟩ := get_of_isStruct accepted listed rfl
  have held := field_of_isStruct distinct accepted listed found
  cases x with
  | text s =>
    have read : v.textAt name = s := by
      have found' : v.get name = some (.text s) := found
      rw [textAt, found']
    rw [read]
    exact ⟨found, held⟩
  | _ => cases held

theorem catalog_distinct : (catalogFields.map Field.name).Nodup := by decide

theorem node_distinct : (nodeFields.map Field.name).Nodup := by decide

theorem observation_distinct : (observationFields.map Field.name).Nodup := by decide

theorem batch_distinct : (batchFields.map Field.name).Nodup := by decide

/-! Reading. -/

theorem map_congr_form {α : Type*} {read : Json → α} (accepts : Json → Bool)
    (congr : ∀ v w, Same v w → accepts v = true → read v = read w) {items others : List Json}
    (forms : items.map form = others.map form) (accepted : ∀ v ∈ items, accepts v = true) :
    items.map read = others.map read := by
  induction items generalizing others with
  | nil =>
    rw [List.map_nil, eq_comm, List.map_eq_nil_iff] at forms
    rw [forms]
  | cons v rest ih =>
    obtain ⟨w, later, rfl, here, tail⟩ := List.map_eq_cons_iff.mp forms.symm
    rw [List.map_cons, List.map_cons, congr v w here.symm (accepted v List.mem_cons_self),
      ih tail.symm fun x member => accepted x (List.mem_cons_of_mem _ member)]

theorem asText_congr {v w : Json} (same : Same v w) : asText v = asText w := by
  cases v with
  | text s => rw [same_text same]
  | _ =>
    cases w with
    | text s => cases same_text same.symm
    | _ => rfl

theorem deployment_congr {v w : Json} (same : Same v w) (plain : v.named = true) :
    Deployment.read v = Deployment.read w := by
  simp only [Deployment.read, same_textAt same plain]

theorem node_congr {v w : Json} (same : Same v w) (accepted : isStruct nodeFields v = true) :
    Node.read v = Node.read w := by
  have plain := named_of_isStruct accepted
  have aliases : (v.itemsAt (lit "aliases")).map asText = (w.itemsAt (lit "aliases")).map asText :=
    map_congr_form (fun _ => true) (fun _ _ same _ => asText_congr same)
      (same_itemsAt same plain _) fun _ _ => rfl
  have deployment : (v.get (lit "deployment")).map Deployment.read = (w.get (lit "deployment")).map
      Deployment.read := by
    have forms := same_get same plain (lit "deployment")
    cases found : v.get (lit "deployment") with
    | none =>
      rw [found] at forms
      rw [Option.map_eq_none_iff.mp forms.symm]
    | some x =>
      rw [found] at forms
      obtain ⟨y, there, equal⟩ := Option.map_eq_some_iff.mp forms.symm
      have listed : Json.optional (lit "deployment") (isStruct deploymentFields) ∈ nodeFields := by
        simp [nodeFields]
      have held : isStruct deploymentFields x = true :=
        field_of_isStruct node_distinct accepted listed found
      rw [there, Option.map_some, Option.map_some, deployment_congr (show Same x y from equal.symm)
        (named_of_isStruct held)]
  simp only [Node.read, idOf, kindOf, same_textAt same plain, aliases, deployment]

theorem edge_congr {v w : Json} (same : Same v w) (accepted : isStruct edgeFields v = true) :
    Edge.read v = Edge.read w := by
  simp only [Edge.read, idOf, same_textAt same (named_of_isStruct accepted)]

theorem observation_congr {v w : Json} (same : Same v w)
    (accepted : isPlatformObservation v = true) :
    Observation.read v = Observation.read w := by
  simp only [Observation.read, idOf, subjectIdOf, observedAtOf, expiresAtOf,
    same_textAt same (named_of_isStruct accepted)]

theorem catalog_nodes {v : Json} (accepted : isPlatformCatalog v = true) :
    (∀ x ∈ nodesOf v, isStruct nodeFields x = true) ∧ (nodesOf v).length ≤ 2000 := by
  have listed : required (lit "nodes") (isArray 0 2000 (isStruct nodeFields)) ∈ catalogFields := by
    simp [catalogFields]
  exact itemsAt_of_isStruct catalog_distinct accepted listed

theorem catalog_edges {v : Json} (accepted : isPlatformCatalog v = true) :
    (∀ x ∈ edgesOf v, isStruct edgeFields x = true) ∧ (edgesOf v).length ≤ 10000 := by
  have listed : required (lit "edges") (isArray 0 10000 (isStruct edgeFields)) ∈ catalogFields := by
    simp [catalogFields]
  exact itemsAt_of_isStruct catalog_distinct accepted listed

theorem catalog_observations {v : Json} (accepted : isPlatformCatalog v = true) :
    (∀ x ∈ observationsOf v, isPlatformObservation x = true) ∧
    (observationsOf v).length ≤ 10000 := by
  have listed : Json.optional (lit "observations") (isArray 0 10000 isPlatformObservation) ∈
      catalogFields := by
    simp [catalogFields]
  exact itemsAt_of_isStruct catalog_distinct accepted listed

theorem batch_observations {v : Json} (accepted : isObservationBatch v = true) :
    (∀ x ∈ observationsOf v, isPlatformObservation x = true) ∧ (observationsOf v).length ≤ 100 := by
  have listed : required (lit "observations") (isArray 1 100 isPlatformObservation) ∈
      batchFields := by
    simp [batchFields]
  exact itemsAt_of_isStruct batch_distinct accepted listed

/-- A catalog reads the same in any order of its members. -/
theorem catalog_congr {v w : Json} (same : Same v w) (accepted : isPlatformCatalog v = true) :
    Catalog.read v = Catalog.read w := by
  have plain := named_of_isStruct accepted
  have nodes : (nodesOf v).map Node.read = (nodesOf w).map Node.read :=
    map_congr_form _ (fun _ _ => node_congr) (same_itemsAt same plain _) (catalog_nodes accepted).1
  have edges : (edgesOf v).map Edge.read = (edgesOf w).map Edge.read :=
    map_congr_form _ (fun _ _ => edge_congr) (same_itemsAt same plain _) (catalog_edges accepted).1
  have observations : (observationsOf v).map Observation.read = (observationsOf w).map
      Observation.read :=
    map_congr_form _ (fun _ _ => observation_congr) (same_itemsAt same plain _)
      (catalog_observations accepted).1
  simp only [Catalog.read, observedAtOf, same_textAt same plain, nodes, edges, observations]

theorem decodeCatalog_iff {v w : Json} :
    decodeCatalog v = some w ↔ isPlatformCatalog v = true ∧
      graphProblems (.read v) = [] ∧ v = w := by
  unfold decodeCatalog
  split
  · rename_i held
    rw [Option.some.injEq]
    exact ⟨fun equal => ⟨held.1, held.2, equal⟩, fun all => all.2.2⟩
  · rename_i failed
    exact iff_of_false nofun fun all => failed ⟨all.1, all.2.1⟩

/-- A catalog that was accepted is accepted in any order of its members. -/
theorem decodeCatalog_congr {v w : Json} (same : Same v w) (decoded : decodeCatalog v = some v) :
    decodeCatalog w = some w := by
  obtain ⟨accepted, sound, -⟩ := decodeCatalog_iff.mp decoded
  refine decodeCatalog_iff.mpr ⟨?_, ?_, rfl⟩
  · exact (respects_isPlatformCatalog v w same).symm.trans accepted
  · rwa [← catalog_congr same accepted]

end Metahumotonic.Platform
