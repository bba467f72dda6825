import Metahumotonic.Platform.JsonLd
import Metahumotonic.Platform.Structure

/-! Whether the identifiers of a JSON-LD document tell its records apart. What a record is, is its
origin; each projection names the origins in its own way. -/
namespace Metahumotonic.Platform
open Metahumotonic.Library Json

inductive RecordKind where
  | node
  | edge
  | observation
  deriving DecidableEq, Repr

def RecordKind.text : RecordKind → Text
  | .node => lit "node"
  | .edge => lit "edge"
  | .observation => lit "observation"

/-- The part of an identifier that says what kind of thing it names. -/
inductive Scope where
  | document
  | record (kind : RecordKind)
  | evidence
  | runtime
  deriving DecidableEq, Repr

def Scope.text : Scope → Text
  | .document => lit "document"
  | .record kind => kind.text
  | .evidence => lit "evidence"
  | .runtime => lit "runtime"

/-- What an identifier is given to: the document, a record, or the evidence at a position of a
record. -/
inductive Origin where
  | document
  | record (kind : RecordKind) (id : Text)
  | evidence (kind : RecordKind) (id : Text) (index : ℕ)
  | runtime (id : Text) (index : ℕ)
  deriving DecidableEq, Repr

namespace Origin

def scope : Origin → Scope
  | .document => .document
  | .record kind _ => .record kind
  | .evidence _ _ _ => .evidence
  | .runtime _ _ => .runtime

/-- The record that something stands in. -/
def owner : Origin → Option (RecordKind × Text)
  | .document => none
  | .record kind id => some (kind, id)
  | .evidence kind id _ => some (kind, id)
  | .runtime id _ => some (.node, id)

/-- The id under which a catalog projects an origin. -/
def inventoryName : Origin → Text
  | .document => lit "catalog"
  | .record _ id => id
  | .evidence kind id index => indexed (kind.text ++ 58 :: id) index
  | .runtime id index => indexed id index

/-- The id under which an assessment projects an origin. -/
def realityName : Origin → Text
  | .document => lit "assessment"
  | .record _ id => id
  | .evidence _ id index => indexed id index
  | .runtime id index => indexed id index

end Origin

/-- A record and its evidence. -/
def originsOf (kind : RecordKind) (v : Json) : List Origin :=
  .record kind (idOf v) :: ((List.range (v.itemsAt (lit "evidence")).length).map
    (.evidence kind (idOf v)))

def runtimesOf (v : Json) : List Origin :=
  (List.range (v.itemsAt (lit "runtimeEvidence")).length).map (.runtime (idOf v))

/-- In an assessment a node has runtime evidence as well. -/
def assessedOrigins : RecordKind → Json → List Origin
  | .node, v => originsOf .node v ++ runtimesOf v
  | kind, v => originsOf kind v

def inventoryRecords (graph : Json) : RecordKind → List Json
  | .node => nodesOf graph
  | .edge => edgesOf graph
  | .observation => observationsOf graph

def realityRecords (graph : Json) : RecordKind → List Json
  | .node => nodesOf graph
  | .edge => edgesOf graph
  | .observation => []

/-- The origins of a document with some records of each kind. -/
def originsIn (records : RecordKind → List Json) (origins : RecordKind → Json → List Origin) :
    List Origin :=
  .document :: [RecordKind.node, .edge, .observation].flatMap fun kind =>
    (records kind).flatMap (origins kind)

def inventoryOrigins (graph : Json) : List Origin := originsIn (inventoryRecords graph) originsOf

def realityOrigins (graph : Json) : List Origin := originsIn (realityRecords graph) assessedOrigins

/-! The identifiers of the documents. -/

theorem get_append_of_absent (before after : Members) {k : Text}
    (absent : k ∉ before.map Prod.fst) :
    (Json.object (before ++ after)).get k = (Json.object after).get k := by
  have missing : member? before k = none := by
    rw [← Option.not_isSome_iff_eq_none]
    exact fun held => absent (hasName_iff.mp held)
  have both : (Json.object (before ++ after)).get k = member? (before ++ after) k := rfl
  rw [both, member?_append, missing, Option.none_or]
  rfl

theorem get_first (k : Text) (v : Json) (members : Members) :
    (Json.object ((k, v) :: members)).get k = some v := by
  have first : (Json.object ((k, v) :: members)).get k = member? ((k, v) :: members) k := rfl
  rw [first, member?_cons, if_pos rfl]

theorem not_mem_names_append {k : Text} {first second : Members} (one : k ∉ first.map Prod.fst)
    (two : k ∉ second.map Prod.fst) : k ∉ (first ++ second).map Prod.fst := by
  rw [List.map_append, List.mem_append, not_or]
  exact ⟨one, two⟩

theorem not_mem_names_given {k text key : Text} {value : Json} (other : k ≠ key) :
    k ∉ (given text key value).map Prod.fst := by
  rw [given]
  split
  · exact List.not_mem_nil
  · exact fun member => other (List.mem_singleton.mp member)

theorem get_later {j k : Text} (other : k ≠ j) (v : Json) (members : Members) :
    (Json.object ((j, v) :: members)).get k = (Json.object members).get k :=
  get_append_of_absent [(j, v)] members fun member => other (List.mem_singleton.mp member)

/-- The two keys under which evidence is listed. -/
def evidenceKeys : List Text := [lit "prov:wasDerivedFrom", lit "mh:runtimeEvidence"]

/-- The identifiers of a record that begins with its own and ends with its evidence. -/
theorem recordIdentifiers_eq {id : Text} (before after : Members) {derived runtime : List Json}
    (absent : ∀ k ∈ evidenceKeys, k ∉ before.map Prod.fst)
    (last : (Json.object after).itemsAt (lit "mh:runtimeEvidence") = runtime) :
    recordIdentifiers (recordOf id before derived after) = id :: (derived ++ runtime).map fun e =>
      e.textAt (lit "@id") := by
  have others : ∀ k ∈ evidenceKeys, k ∉ ((lit "@id", Json.text id) :: before).map Prod.fst := by
    intro k member
    have differs : ∀ k ∈ evidenceKeys, k ≠ lit "@id" := by decide
    rw [List.map_cons, List.mem_cons, not_or]
    exact ⟨differs k member, absent k member⟩
  rw [recordIdentifiers, recordOf, ← last, textAt, get_first, ← List.cons_append, itemsAt,
    itemsAt, itemsAt,
    get_append_of_absent _ _ (others _ List.mem_cons_self), get_first, get_append_of_absent _ _
      (others _ (by simp [evidenceKeys])),
    get_later (by decide)]

theorem recordIdentifiers_last {id : Text} (before : Members) {derived : List Json}
    (absent : ∀ k ∈ evidenceKeys, k ∉ before.map Prod.fst) :
    recordIdentifiers (recordOf id before derived []) = id :: derived.map fun e =>
      e.textAt (lit "@id") := by
  have none_ : (Json.object []).itemsAt (lit "mh:runtimeEvidence") = [] := rfl
  rw [recordIdentifiers_eq before [] absent none_, List.append_nil]

/-- What is read of the items of a list that was numbered, where it depends on the numbers only. -/
theorem map_mapIdx {α β γ : Type*} {f : ℕ → α → β} {g : β → γ} {h : ℕ → γ}
    (each : ∀ index item, g (f index item) = h index)
    (items : List α) : (items.mapIdx f).map g = (List.range items.length).map h := by
  apply List.ext_getElem
  · simp
  · intro index inside _
    simp [each]

theorem inventory_evidence (id : Text) (records : List Json) :
    (PlatformInventory.evidence id records).map (fun e => e.textAt (lit "@id")) =
      (List.range records.length).map fun index => PlatformInventory.iri (indexed id index)
      (lit "evidence") := by
  rw [PlatformInventory.evidence]
  apply map_mapIdx
  exact fun _ _ => rfl

def inventoryIri (o : Origin) : Text := PlatformInventory.iri o.inventoryName o.scope.text

def realityIri (o : Origin) : Text := BackendReality.iri o.realityName o.scope.text

theorem originsOf_inventory (kind : RecordKind) (v : Json) :
    (originsOf kind v).map inventoryIri = PlatformInventory.iri (idOf v) kind.text ::
      (PlatformInventory.derived kind.text v).map fun e => e.textAt (lit "@id") := by
  rw [PlatformInventory.derived, inventory_evidence, originsOf, List.map_cons, List.map_map]
  rfl

theorem originsOf_reality (kind : RecordKind) (v : Json) :
    (originsOf kind v).map realityIri = BackendReality.iri (idOf v) kind.text ::
      (BackendReality.derived v).map fun e => e.textAt (lit "@id") := by
  have below : (BackendReality.derived v).map (fun e => e.textAt (lit "@id")) =
      (List.range (v.itemsAt (lit "evidence")).length).map fun index =>
        BackendReality.iri (indexed (idOf v) index) (lit "evidence") := by
    apply map_mapIdx
    exact fun _ _ => rfl
  rw [below, originsOf, List.map_cons, List.map_map]
  rfl

theorem runtimesOf_reality (v : Json) :
    (runtimesOf v).map realityIri = (BackendReality.runtimeEvidence v).map fun e =>
      e.textAt (lit "@id") := by
  have below : (BackendReality.runtimeEvidence v).map (fun e => e.textAt (lit "@id")) =
      (List.range (v.itemsAt (lit "runtimeEvidence")).length).map fun index =>
        BackendReality.iri (indexed (idOf v) index) (lit "runtime") := by
    apply map_mapIdx
    exact fun _ _ => rfl
  rw [below, runtimesOf, List.map_map]
  rfl

theorem not_mem_names_deployment {k : Text} (other : k ∉ [lit "mh:environment", lit "mh:runtime",
    lit "mh:deploymentSubject", lit "mh:host", lit "mh:revision", lit "mh:image"]) (node : Json) :
    k ∉ (PlatformInventory.deploymentMembers node).map Prod.fst := by
  simp only [List.mem_cons, List.not_mem_nil, or_false, not_or] at other
  obtain ⟨environment, runtime, subject, host, revision, image⟩ := other
  unfold PlatformInventory.deploymentMembers
  cases node.get (lit "deployment") with
  | none => exact List.not_mem_nil
  | some deployment =>
    apply not_mem_names_append (not_mem_names_append _ (not_mem_names_given revision))
      (not_mem_names_given image)
    simp only [List.map_cons, List.map_nil, List.mem_cons, List.not_mem_nil, or_false, not_or]
    exact ⟨environment, runtime, subject, host⟩

theorem not_mem_names_node {k : Text}
    (other : k ∉ [lit "@type", lit "schema:identifier", lit "schema:name",
    lit "schema:description", lit "schema:alternateName", lit "mh:lifecycle", lit "mh:integration",
      lit "mh:category",
    lit "mh:ownerRepository", lit "mh:sourceKnowledgeRecord", lit "mh:environment",
      lit "mh:runtime",
    lit "mh:deploymentSubject", lit "mh:host", lit "mh:revision", lit "mh:image"]) (node : Json) :
    k ∉ (PlatformInventory.nodeMembers node).map Prod.fst := by
  simp only [List.mem_cons, List.not_mem_nil, or_false, not_or] at other
  obtain ⟨type, identifier, name, description, alternate, lifecycle, integration, category, owner,
      record, deployment⟩ :=
    other
  apply not_mem_names_append (not_mem_names_append (not_mem_names_append (not_mem_names_append _
    (not_mem_names_given category)) (not_mem_names_given owner)) (not_mem_names_given record))
  · apply not_mem_names_deployment
    simp only [List.mem_cons, List.not_mem_nil, or_false, not_or]
    exact deployment
  · simp only [List.map_cons, List.map_nil, List.mem_cons, List.not_mem_nil, or_false, not_or]
    exact ⟨type, identifier, name, description, alternate, lifecycle, integration⟩

theorem not_mem_names_assessed {k : Text}
    (other : k ∉ [lit "@type", lit "schema:identifier", lit "schema:name",
    lit "mh:implementation", lit "mh:runtime", lit "mh:decision", lit "mh:evidenceState",
      lit "mh:platformReference"])
    (dateParse : Text → Option ℤ) (now : ℤ) (node : Json) :
    k ∉ (BackendReality.nodeMembers dateParse now node).map Prod.fst := by
  simp only [List.mem_cons, List.not_mem_nil, or_false, not_or] at other
  obtain ⟨type, identifier, name, implementation, runtime, decision, state, platform⟩ := other
  apply not_mem_names_append _ (not_mem_names_given platform)
  simp only [List.map_cons, List.map_nil, List.mem_cons, List.not_mem_nil, or_false, not_or]
  exact ⟨type, identifier, name, implementation, runtime, decision, state⟩

/-! The identifiers of the records. -/

theorem inventory_node (node : Json) :
    recordIdentifiers (PlatformInventory.nodeRecord node) = (originsOf .node node).map
      inventoryIri := by
  have absent : ∀ k ∈ evidenceKeys, k ∉ (PlatformInventory.nodeMembers node).map Prod.fst := by
    intro k member
    apply not_mem_names_node
    revert k
    decide
  rw [originsOf_inventory]
  exact recordIdentifiers_last _ absent

theorem inventory_edge (edge : Json) :
    recordIdentifiers (PlatformInventory.edgeRecord edge) = (originsOf .edge edge).map
      inventoryIri := by
  rw [originsOf_inventory]
  apply recordIdentifiers_last
  simp only [List.map_cons, List.map_nil]
  decide

theorem inventory_observation (o : Json) :
    recordIdentifiers (PlatformInventory.observationRecord o) = (originsOf .observation o).map
      inventoryIri := by
  rw [originsOf_inventory]
  apply recordIdentifiers_last
  simp only [List.map_cons, List.map_nil]
  decide

theorem reality_node (dateParse : Text → Option ℤ) (now : ℤ) (node : Json) :
    recordIdentifiers (BackendReality.nodeRecord dateParse now node) =
      (originsOf .node node ++ runtimesOf node).map realityIri := by
  have absent : ∀ k ∈ evidenceKeys, k ∉ (BackendReality.nodeMembers dateParse now node).map
      Prod.fst := by
    intro k member
    apply not_mem_names_assessed
    revert k
    decide
  have last : (Json.object
      [(lit "mh:runtimeEvidence", .array (BackendReality.runtimeEvidence node))]).itemsAt
      (lit "mh:runtimeEvidence") = BackendReality.runtimeEvidence node := by
    rw [itemsAt, get_first]
  rw [BackendReality.nodeRecord, recordIdentifiers_eq _ _ absent last, List.map_append,
    List.map_append,
    originsOf_reality, runtimesOf_reality]
  rfl

theorem reality_edge (edge : Json) :
    recordIdentifiers (BackendReality.edgeRecord edge) = (originsOf .edge edge).map realityIri := by
  rw [originsOf_reality]
  apply recordIdentifiers_last
  simp only [List.map_cons, List.map_nil]
  decide

/-- The identifiers of a document whose records are given. -/
theorem identifiers_inventory (graph : Json) (source : Text) :
    identifiers (platformJsonLd graph source) = (inventoryOrigins graph).map inventoryIri := by
  have own : (platformJsonLd graph source).textAt (lit "@id") = inventoryIri .document := by
    rw [platformJsonLd, textAt, get_later (by decide), get_first]
    rfl
  have listed : (platformJsonLd graph source).itemsAt (lit "@graph") =
      (nodesOf graph).map PlatformInventory.nodeRecord ++ (edgesOf graph).map
        PlatformInventory.edgeRecord ++
        (observationsOf graph).map PlatformInventory.observationRecord := by
    rw [platformJsonLd, itemsAt, get_later (by decide), get_later (by decide),
      get_later (by decide),
      get_later (by decide), get_later (by decide), get_later (by decide), get_first]
  rw [identifiers, own, listed, inventoryOrigins, originsIn, List.map_cons]
  simp only [List.flatMap_append, List.map_append, List.flatMap_map, List.map_flatMap,
    inventory_node, inventory_edge,
    inventory_observation, List.flatMap_cons, List.flatMap_nil, inventoryRecords, List.append_nil,
      List.append_assoc]

theorem identifiers_reality (dateParse : Text → Option ℤ) (graph : Json) (now : ℤ) :
    identifiers (realityJsonLd dateParse graph now) = (realityOrigins graph).map realityIri := by
  have own : (realityJsonLd dateParse graph now).textAt (lit "@id") = realityIri .document := by
    rw [realityJsonLd, textAt, get_later (by decide), get_first]
    rfl
  have listed : (realityJsonLd dateParse graph now).itemsAt (lit "@graph") =
      (nodesOf graph).map (BackendReality.nodeRecord dateParse now) ++
        (edgesOf graph).map BackendReality.edgeRecord := by
    rw [realityJsonLd, itemsAt, get_later (by decide), get_later (by decide), get_later (by decide),
      get_later (by decide), get_later (by decide), get_later (by decide), get_first]
  rw [identifiers, own, listed, realityOrigins, originsIn, List.map_cons]
  simp only [List.flatMap_append, List.map_append, List.flatMap_map, List.map_flatMap, reality_node,
    reality_edge,
    List.flatMap_cons, List.flatMap_nil, realityRecords, assessedOrigins, List.append_nil]

/-! Different records are different origins. -/

theorem owner_originsOf {kind : RecordKind} {v : Json} {o : Origin}
    (member : o ∈ originsOf kind v) :
    o.owner = some (kind, idOf v) := by
  rcases List.mem_cons.mp member with rfl | below
  · rfl
  · obtain ⟨index, -, rfl⟩ := List.mem_map.mp below
    rfl

theorem owner_runtimesOf {v : Json} {o : Origin} (member : o ∈ runtimesOf v) :
    o.owner = some (.node, idOf v) := by
  obtain ⟨index, -, rfl⟩ := List.mem_map.mp member
  rfl

theorem owner_assessedOrigins {kind : RecordKind} {v : Json} {o : Origin}
    (member : o ∈ assessedOrigins kind v) :
    o.owner = some (kind, idOf v) := by
  cases kind with
  | node =>
    rcases List.mem_append.mp member with own | runtime
    · exact owner_originsOf own
    · exact owner_runtimesOf runtime
  | edge => exact owner_originsOf member
  | observation => exact owner_originsOf member

theorem nodup_originsOf (kind : RecordKind) (v : Json) : (originsOf kind v).Nodup := by
  rw [originsOf, List.nodup_cons]
  constructor
  · intro member
    obtain ⟨index, -, same⟩ := List.mem_map.mp member
    cases same
  · apply List.Nodup.map _ List.nodup_range
    intro i j same
    exact (Origin.evidence.inj same).2.2

theorem nodup_assessedOrigins (kind : RecordKind) (v : Json) : (assessedOrigins kind v).Nodup := by
  cases kind with
  | node =>
    rw [assessedOrigins, List.nodup_append]
    refine ⟨nodup_originsOf _ v, List.Nodup.map ?_ List.nodup_range, ?_⟩
    · intro i j same
      exact (Origin.runtime.inj same).2
    · rintro o own other runtime rfl
      obtain ⟨index, -, rfl⟩ := List.mem_map.mp runtime
      rcases List.mem_cons.mp own with same | below
      · cases same
      · obtain ⟨i, -, same⟩ := List.mem_map.mp below
        cases same
  | edge => exact nodup_originsOf _ v
  | observation => exact nodup_originsOf _ v

section Origins

variable {records : RecordKind → List Json} {origins : RecordKind → Json → List Origin}
  (owned : ∀ {kind v o}, o ∈ origins kind v → o.owner = some (kind, idOf v))

include owned

theorem owner_originsIn {o : Origin} (member : o ∈ originsIn records origins) :
    o = .document ∨ ∃ kind, ∃ v ∈ records kind, o.owner = some (kind, idOf v) := by
  rcases List.mem_cons.mp member with rfl | below
  · exact .inl rfl
  · obtain ⟨kind, -, inside⟩ := List.mem_flatMap.mp below
    obtain ⟨v, here, there⟩ := List.mem_flatMap.mp inside
    exact .inr ⟨kind, v, here, owned there⟩

/-- Where the ids of each kind are distinct, no origin is listed twice. -/
theorem nodup_originsIn (each : ∀ kind v, (origins kind v).Nodup)
    (distinct : ∀ kind, ((records kind).map idOf).Nodup) : (originsIn records origins).Nodup := by
  rw [originsIn, List.nodup_cons, List.nodup_flatMap]
  refine ⟨fun member => ?_, fun kind _ => ?_, ?_⟩
  · obtain ⟨kind, -, inside⟩ := List.mem_flatMap.mp member
    obtain ⟨v, -, there⟩ := List.mem_flatMap.mp inside
    cases owned there
  · rw [List.nodup_flatMap]
    refine ⟨fun v _ => each kind v, (List.pairwise_map.mp (distinct kind)).imp ?_⟩
    intro v w differ o first second
    exact differ (Prod.mk.inj (Option.some.inj ((owned first).symm.trans (owned second)))).2
  · have kinds : [RecordKind.node, .edge, .observation].Pairwise (· ≠ ·) := by decide
    refine kinds.imp ?_
    intro kind kind' differ o first second
    obtain ⟨v, -, here⟩ := List.mem_flatMap.mp first
    obtain ⟨w, -, there⟩ := List.mem_flatMap.mp second
    exact differ (Prod.mk.inj (Option.some.inj ((owned here).symm.trans (owned there)))).1

end Origins

/-! Names. -/

theorem Scope.text_injective {a b : Scope} (same : a.text = b.text) : a = b := by
  rcases a with _ | (_ | _ | _) | _ | _ <;> rcases b with _ | (_ | _ | _) | _ | _ <;>
    first | rfl | exact absurd same (by decide)

theorem decimal_no_colon (index : ℕ) : 58 ∉ decimal index := by
  intro member
  exact absurd (decimal_digits index 58 member) (by decide)

theorem indexed_injective {id id' : Text} {i j : ℕ} (same : indexed id i = indexed id' j) :
    id = id' ∧ i = j := by
  obtain ⟨ids, digits⟩ := last_separator (decimal_no_colon i) (decimal_no_colon j) same
  exact ⟨ids, by rw [← number_decimal i, ← number_decimal j, digits]⟩

theorem prefixed_injective {kind kind' : RecordKind} {id id' : Text}
    (same : kind.text ++ 58 :: id = kind'.text ++ 58 :: id') : kind = kind' ∧ id = id' := by
  cases kind <;> cases kind' <;> first
    | exact ⟨rfl, (List.cons.inj (List.append_cancel_left same)).2⟩
    | exact absurd (List.cons.inj same).1 (by decide)

/-- A catalog names its origins apart. -/
theorem inventoryName_injective {a b : Origin} (scopes : a.scope = b.scope)
    (names : a.inventoryName = b.inventoryName) :
    a = b := by
  cases a with
  | document =>
    cases b with
    | document => rfl
    | _ => cases scopes
  | record kind id =>
    cases b with
    | record kind' id' =>
      cases scopes
      exact congrArg (Origin.record kind) names
    | _ => cases scopes
  | evidence kind id index =>
    cases b with
    | evidence kind' id' index' =>
      obtain ⟨same, rfl⟩ := indexed_injective names
      obtain ⟨rfl, rfl⟩ := prefixed_injective same
      rfl
    | _ => cases scopes
  | runtime id index =>
    cases b with
    | runtime id' index' =>
      obtain ⟨rfl, rfl⟩ := indexed_injective names
      rfl
    | _ => cases scopes

/-- An assessment names its origins apart, but for evidence of records of two kinds with one id. -/
theorem realityName_cases {a b : Origin} (scopes : a.scope = b.scope)
    (names : a.realityName = b.realityName) :
    a = b ∨ ∃ kind kind' id, kind ≠ kind' ∧ a.owner = some (kind, id) ∧
      b.owner = some (kind', id) := by
  cases a with
  | document =>
    cases b with
    | document => exact .inl rfl
    | _ => cases scopes
  | record kind id =>
    cases b with
    | record kind' id' =>
      cases scopes
      exact .inl (congrArg (Origin.record kind) names)
    | _ => cases scopes
  | evidence kind id index =>
    cases b with
    | evidence kind' id' index' =>
      obtain ⟨rfl, rfl⟩ := indexed_injective names
      by_cases same : kind = kind'
      · exact .inl (congrArg (Origin.evidence · id index) same)
      · exact .inr ⟨kind, kind', id, same, rfl, rfl⟩
    | _ => cases scopes
  | runtime id index =>
    cases b with
    | runtime id' index' =>
      obtain ⟨rfl, rfl⟩ := indexed_injective names
      exact .inl rfl
    | _ => cases scopes

/-! The condition. -/

def Ascii (s : Text) : Prop := ∀ c ∈ s, c < 128

theorem ascii_of_isPlatformId {s : Text} (accepted : isPlatformId s = true) : Ascii s := by
  have letter : ∀ c : ℕ, (((decide (97 ≤ c) && decide (c ≤ 122)) || isDigit c) = true) →
      c < 128 := by
    intro c held
    simp only [isDigit, Bool.or_eq_true, Bool.and_eq_true, decide_eq_true_eq] at held
    omega
  unfold isPlatformId at accepted
  cases s with
  | nil => exact List.forall_mem_nil _
  | cons first rest =>
    simp only [Bool.and_eq_true, List.all_eq_true, Bool.or_eq_true, beq_iff_eq] at accepted
    intro c member
    rcases List.mem_cons.mp member with rfl | later
    · apply letter
      simpa using accepted.1.1
    · rcases accepted.2 c later with ((((held | rfl) | rfl) | rfl) | rfl) | rfl
      · apply letter
        simpa using held
      all_goals decide

theorem ascii_indexed {id : Text} (plain : Ascii id) (index : ℕ) : Ascii (indexed id index) := by
  intro c member
  rcases List.mem_append.mp member with own | later
  · exact plain c own
  · rcases List.mem_cons.mp later with rfl | digit
    · decide
    · have held := decimal_digits index c digit
      simp only [isDigit, Bool.and_eq_true, decide_eq_true_eq] at held
      omega

theorem ascii_prefixed (kind : RecordKind) {id : Text} (plain : Ascii id) :
    Ascii (kind.text ++ 58 :: id) := by
  have own : Ascii kind.text := by
    unfold Ascii
    cases kind <;> decide
  intro c member
  rcases List.mem_append.mp member with first | later
  · exact own c first
  · rcases List.mem_cons.mp later with rfl | inside
    · decide
    · exact plain c inside

theorem iriIn_injective {graph id id' scope scope' : Text} (plain : Ascii id) (plain' : Ascii id')
    (same : iriIn graph id scope = iriIn graph id' scope') : id = id' ∧ scope = scope' := by
  obtain ⟨before, after⟩ := last_separator (colon_not_mem_encoded plain)
    (colon_not_mem_encoded plain') same
  exact ⟨encodeURIComponent_injective plain plain' after,
    (List.cons.inj (List.append_cancel_left before)).2⟩

theorem ascii_inventoryName {o : Origin} (owned : ∀ kind id, o.owner = some (kind, id) → Ascii id) :
    Ascii o.inventoryName := by
  cases o with
  | document =>
    unfold Ascii
    decide
  | record kind id => exact owned kind id rfl
  | evidence kind id index => exact ascii_indexed (ascii_prefixed kind (owned kind id rfl)) index
  | runtime id index => exact ascii_indexed (owned .node id rfl) index

theorem ascii_realityName {o : Origin} (owned : ∀ kind id, o.owner = some (kind, id) → Ascii id) :
    Ascii o.realityName := by
  cases o with
  | document =>
    unfold Ascii
    decide
  | record kind id => exact owned kind id rfl
  | evidence kind id index => exact ascii_indexed (owned kind id rfl) index
  | runtime id index => exact ascii_indexed (owned .node id rfl) index

/-- The ids of the owners of listed origins are those of records. -/
theorem owned_ascii {records : RecordKind → List Json} {origins : RecordKind → Json → List Origin}
    (owned : ∀ {kind v o}, o ∈ origins kind v → o.owner = some (kind, idOf v))
    (plain : ∀ kind, ∀ v ∈ records kind, Ascii (idOf v)) {o : Origin}
    (member : o ∈ originsIn records origins)
    (kind : RecordKind) (id : Text) (owner : o.owner = some (kind, id)) : Ascii id := by
  rcases owner_originsIn owned member with rfl | ⟨kind', v, here, same⟩
  · cases owner
  · rw [same] at owner
    rw [← (Prod.mk.inj (Option.some.inj owner)).2]
    exact plain kind' v here

theorem inventory_identifiers_nodup {graph : Json}
    (plain : ∀ kind, ∀ v ∈ inventoryRecords graph kind, Ascii (idOf v))
    (distinct : ∀ kind, ((inventoryRecords graph kind).map idOf).Nodup) (source : Text) :
    (identifiers (platformJsonLd graph source)).Nodup := by
  rw [identifiers_inventory]
  apply List.Nodup.map_on
  · intro a ha b hb same
    have first := ascii_inventoryName (owned_ascii owner_originsOf plain ha)
    have second := ascii_inventoryName (owned_ascii owner_originsOf plain hb)
    obtain ⟨names, scopes⟩ := iriIn_injective first second same
    exact inventoryName_injective (Scope.text_injective scopes) names
  · exact nodup_originsIn owner_originsOf nodup_originsOf distinct

/-- Two records of an assessment share an identifier exactly if a node and an edge share an id. -/
theorem reality_identifiers_nodup {graph : Json}
    (plain : ∀ kind, ∀ v ∈ realityRecords graph kind, Ascii (idOf v))
    (distinct : ∀ kind, ((realityRecords graph kind).map idOf).Nodup)
    (evident : ∀ kind, ∀ v ∈ realityRecords graph kind, 1 ≤ (v.itemsAt (lit "evidence")).length)
    (dateParse : Text → Option ℤ) (now : ℤ) :
    (identifiers (realityJsonLd dateParse graph now)).Nodup ↔
      ∀ node ∈ nodesOf graph, ∀ edge ∈ edgesOf graph, idOf node ≠ idOf edge := by
  have listed : (realityOrigins graph).Nodup :=
    nodup_originsIn owner_assessedOrigins nodup_assessedOrigins distinct
  rw [identifiers_reality, List.nodup_map_iff_inj_on listed]
  constructor
  · intro apart node here edge there shared
    have first : Origin.evidence .node (idOf node) 0 ∈ realityOrigins graph := by
      apply List.mem_cons_of_mem
      refine List.mem_flatMap.mpr ⟨.node, by simp, List.mem_flatMap.mpr ⟨node, here, ?_⟩⟩
      apply List.mem_append_left
      exact List.mem_cons_of_mem _
        (List.mem_map_of_mem (List.mem_range.mpr (evident .node node here)))
    have second : Origin.evidence .edge (idOf edge) 0 ∈ realityOrigins graph := by
      apply List.mem_cons_of_mem
      refine List.mem_flatMap.mpr ⟨.edge, by simp, List.mem_flatMap.mpr ⟨edge, there, ?_⟩⟩
      exact List.mem_cons_of_mem _
        (List.mem_map_of_mem (List.mem_range.mpr (evident .edge edge there)))
    have same : realityIri (.evidence .node (idOf node) 0) = realityIri
        (.evidence .edge (idOf edge) 0) := by
      rw [shared]
      rfl
    cases apart _ first _ second same
  · intro apart a ha b hb same
    have first := ascii_realityName (owned_ascii owner_assessedOrigins plain ha)
    have second := ascii_realityName (owned_ascii owner_assessedOrigins plain hb)
    obtain ⟨names, scopes⟩ := iriIn_injective first second same
    rcases realityName_cases (Scope.text_injective scopes) names with
      equal | ⟨kind, kind', id, differ, left, right⟩
    · exact equal
    · exfalso
      have owners : ∀ {o kind}, o ∈ realityOrigins graph → o.owner = some (kind, id) →
          ∃ v ∈ realityRecords graph kind, idOf v = id := by
        intro o kind member owner
        rcases owner_originsIn owner_assessedOrigins member with rfl | ⟨other, v, here, own⟩
        · cases owner
        · obtain ⟨rfl, rfl⟩ := Prod.mk.inj (Option.some.inj (own.symm.trans owner))
          exact ⟨v, here, rfl⟩
      obtain ⟨v, here, one⟩ := owners ha left
      obtain ⟨w, there, two⟩ := owners hb right
      cases kind with
      | node =>
        cases kind' with
        | node => exact differ rfl
        | edge => exact apart v here w there (one.trans two.symm)
        | observation => cases there
      | edge =>
        cases kind' with
        | node => exact apart w there v here (two.trans one.symm)
        | edge => exact differ rfl
        | observation => cases there
      | observation => cases here

/-! What was decoded. -/

theorem least_of_isStruct {fields : List Field}
    (distinct : (fields.map Field.name).Nodup) {v : Json}
    (accepted : isStruct fields v = true) {name : Text} {least most : ℕ} {item : Json → Bool}
    (listed : required name (isArray least most item) ∈ fields) :
    least ≤ (v.itemsAt name).length := by
  obtain ⟨x, found⟩ := get_of_isStruct accepted listed rfl
  have held := field_of_isStruct distinct accepted listed found
  cases x with
  | array items =>
    simp only [required, isArray, Bool.and_eq_true, decide_eq_true_eq] at held
    have read : v.itemsAt name = items := by
      have found' : v.get name = some (.array items) := found
      rw [itemsAt, found']
    rw [read]
    exact held.1.1
  | _ => cases held

theorem inventory_distinct {graph : Json} (decoded : decodeCatalog graph = some graph)
    (kind : RecordKind) :
    ((inventoryRecords graph kind).map idOf).Nodup := by
  obtain ⟨-, sound, -⟩ := decodeCatalog_iff.mp decoded
  have structured := (Catalog.graphProblems_wellStructured _).mp sound
  have nodes := structured.nodeIds
  have edges := structured.edgeIds
  have observations := structured.observationIds
  rw [Catalog.read, List.map_map] at nodes edges observations
  cases kind with
  | node => exact nodes
  | edge => exact edges
  | observation => exact observations

theorem inventory_ascii {graph : Json} (decoded : decodeCatalog graph = some graph)
    (kind : RecordKind) :
    ∀ v ∈ inventoryRecords graph kind, Ascii (idOf v) := by
  have accepted := (decodeCatalog_iff.mp decoded).1
  intro v member
  cases kind with
  | node =>
    have listed : required (lit "id") isId ∈ nodeFields := by simp [nodeFields]
    exact ascii_of_isPlatformId
      (textAt_of_isStruct node_distinct ((catalog_nodes accepted).1 v member) listed).2
  | edge =>
    have distinct : (edgeFields.map Field.name).Nodup := by decide
    have listed : required (lit "id") isId ∈ edgeFields := by simp [edgeFields]
    exact ascii_of_isPlatformId
      (textAt_of_isStruct distinct ((catalog_edges accepted).1 v member) listed).2
  | observation =>
    have listed : required (lit "id") isId ∈ observationFields := by simp [observationFields]
    exact ascii_of_isPlatformId
      (textAt_of_isStruct observation_distinct
        ((catalog_observations accepted).1 v member) listed).2

theorem realityNode_distinct (dateParse : Text → Option ℤ) :
    ((realityNodeFields dateParse).map Field.name).Nodup := by
  simp only [realityNodeFields, required, Json.optional, List.map_cons, List.map_nil]
  decide

theorem realityEdge_distinct : (realityEdgeFields.map Field.name).Nodup := by decide

theorem reality_distinct_fields (dateParse : Text → Option ℤ) :
    ((realityFields dateParse).map Field.name).Nodup := by
  simp only [realityFields, required, List.map_cons, List.map_nil]
  decide

section Assessed

variable {dateParse : Text → Option ℤ} {input platform : Json} {reality : BackendReality}
  (decoded : decodeReality dateParse input platform = some reality)

include decoded

theorem decodeReality_some : isBackendReality dateParse input = true ∧
    BackendReality.read input = reality ∧
    reality.realityProblems dateParse ((nodesOf platform).map idOf) = [] := by
  simp only [decodeReality] at decoded
  split at decoded
  · rename_i held
    cases decoded
    exact ⟨held.1, rfl, held.2⟩
  · cases decoded

theorem reality_nodes : ∀ v ∈ nodesOf input, isStruct (realityNodeFields dateParse) v = true := by
  have listed : required (lit "nodes") (isArray 1 200 (isStruct (realityNodeFields dateParse))) ∈
      realityFields dateParse := by simp [realityFields]
  exact (itemsAt_of_isStruct (reality_distinct_fields dateParse)
    (decodeReality_some decoded).1 listed).1

theorem reality_edges : ∀ v ∈ edgesOf input, isStruct realityEdgeFields v = true := by
  have listed : required (lit "edges") (isArray 0 1000 (isStruct realityEdgeFields)) ∈ realityFields
      dateParse := by
    simp [realityFields]
  exact (itemsAt_of_isStruct (reality_distinct_fields dateParse)
    (decodeReality_some decoded).1 listed).1

theorem reality_ascii (kind : RecordKind) : ∀ v ∈ realityRecords input kind, Ascii (idOf v) := by
  intro v member
  cases kind with
  | node =>
    have listed : required (lit "id") isId ∈ realityNodeFields dateParse := by
      simp [realityNodeFields]
    exact ascii_of_isPlatformId
      (textAt_of_isStruct (realityNode_distinct dateParse)
        (reality_nodes decoded v member) listed).2
  | edge =>
    have listed : required (lit "id") isId ∈ realityEdgeFields := by simp [realityEdgeFields]
    exact ascii_of_isPlatformId
      (textAt_of_isStruct realityEdge_distinct (reality_edges decoded v member) listed).2
  | observation => cases member

theorem reality_evident (kind : RecordKind) :
    ∀ v ∈ realityRecords input kind, 1 ≤ (v.itemsAt (lit "evidence")).length := by
  intro v member
  cases kind with
  | node =>
    have listed : required (lit "evidence") (isArray 1 20 (isStruct realityEvidenceFields)) ∈
        realityNodeFields dateParse := by simp [realityNodeFields]
    exact least_of_isStruct (realityNode_distinct dateParse) (reality_nodes decoded v member) listed
  | edge =>
    have listed : required (lit "evidence") (isArray 1 20 (isStruct realityEvidenceFields)) ∈
        realityEdgeFields := by
      simp [realityEdgeFields]
    exact least_of_isStruct realityEdge_distinct (reality_edges decoded v member) listed
  | observation => cases member

theorem reality_distinct (kind : RecordKind) : ((realityRecords input kind).map idOf).Nodup := by
  obtain ⟨-, rfl, sound⟩ := decodeReality_some decoded
  obtain ⟨nodes, edges⟩ := List.append_eq_nil_iff.mp sound
  cases kind with
  | node =>
    have ids : ((BackendReality.read input).nodes.map RealityNode.id).Nodup := by
      apply Catalog.withEarlier_distinct _ nodes
      intro before node none
      simp only [BackendReality.nodeProblems, List.append_eq_nil_iff, ite_eq_right_iff,
        List.cons_ne_nil, imp_false,
        and_assoc] at none
      exact none.1
    rw [BackendReality.read, List.map_map] at ids
    exact ids
  | edge =>
    have ids : ((BackendReality.read input).edges.map RealityEdge.id).Nodup := by
      apply Catalog.withEarlier_distinct _ edges
      intro before edge none
      simp only [BackendReality.edgeProblems, List.append_eq_nil_iff, ite_eq_right_iff,
        List.cons_ne_nil, imp_false,
        and_assoc] at none
      exact none.1
    rw [BackendReality.read, List.map_map] at ids
    exact ids
  | observation => exact List.nodup_nil

end Assessed

/-- No two records share an identifier exactly if no node of the assessment has the id of an edge.
-/
theorem identifiers_distinct_iff (dateParse : Text → Option ℤ) (input platform catalog : Json)
    (reality : BackendReality) (assessed : decodeReality dateParse input platform = some reality)
    (decoded : decodeCatalog catalog = some catalog) (now : ℤ) (source : Text) :
    (identifiers (realityJsonLd dateParse input now)).Nodup ∧
    (identifiers (platformJsonLd catalog source)).Nodup ↔
      ∀ node ∈ nodesOf input, ∀ edge ∈ edgesOf input, idOf node ≠ idOf edge := by
  have assessment_ := reality_identifiers_nodup (reality_ascii assessed) (reality_distinct assessed)
    (reality_evident assessed) dateParse now
  have catalog_ := inventory_identifiers_nodup (inventory_ascii decoded)
    (inventory_distinct decoded) source
  exact ⟨fun both => assessment_.mp both.1, fun apart => ⟨assessment_.mpr apart, catalog_⟩⟩

def sourceOfApi : Json :=
  .object [(lit "source", .text (lit "src/api")), (lit "kind", .text (lit "source"))]

/-- An assessment with a node and an edge of some id. -/
def linked (edgeId : String) : Json :=
  .object [(lit "schema", .text (lit "metahumotonic/backend-reality@1")),
  (lit "recordedAt", .text (lit "2026-01-01T00:00:00Z")), (lit "scope", .text (lit "api")),
  (lit "nodes", .array [.object [(lit "id", .text (lit "api")), (lit "name", .text (lit "API")),
    (lit "implementation", .text (lit "native")), (lit "runtime", .text (lit "unknown")),
    (lit "decision", .text (lit "retain")), (lit "evidence", .array [sourceOfApi])]]),
  (lit "edges", .array [.object [(lit "id", .text (lit edgeId)), (lit "from", .text (lit "api")),
    (lit "to", .text (lit "api")), (lit "relation", .text (lit "USES")),
    (lit "status", .text (lit "ACTIVE")),
    (lit "meaning", .text (lit "calls itself")), (lit "evidence", .array [sourceOfApi])]])]

theorem decoded_sampleCatalog : decodeCatalog sampleCatalog = some sampleCatalog :=
  decodeCatalog_iff.mpr ⟨by decide, by decide, rfl⟩

theorem identifiers_distinct_iff_sample :
    (identifiers (realityJsonLd IsoDate.dateParse (linked "api:self") sampleNow)).Nodup ∧
        (identifiers (platformJsonLd sampleCatalog (lit "snapshot"))).Nodup ↔
      ∀ node ∈ nodesOf (linked "api:self"), ∀ edge ∈ edgesOf (linked "api:self"),
        idOf node ≠ idOf edge :=
  identifiers_distinct_iff IsoDate.dateParse (linked "api:self") sampleCatalog sampleCatalog
    (.read (linked "api:self")) (by decide)
    decoded_sampleCatalog sampleNow (lit "snapshot")

/-- The evidence of the edge has the identifier of the evidence of the node. -/
theorem evidence_merged :
    ∃ (input platform catalog : Json) (reality : BackendReality) (now : ℤ) (source : Text),
      decodeReality IsoDate.dateParse input platform = some reality ∧
        decodeCatalog catalog = some catalog ∧
        ¬ ((identifiers (realityJsonLd IsoDate.dateParse input now)).Nodup ∧
          (identifiers (platformJsonLd catalog source)).Nodup) := by
  refine ⟨linked "api", sampleCatalog, sampleCatalog, .read (linked "api"), sampleNow,
    lit "snapshot",
    by decide, decoded_sampleCatalog, fun both => ?_⟩
  have repeated : ¬ (identifiers
      (realityJsonLd IsoDate.dateParse (linked "api") sampleNow)).Nodup := by decide
  exact repeated both.1

end Metahumotonic.Platform
