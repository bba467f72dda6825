import Metahumotonic.Platform.LatestObservation
import Metahumotonic.Platform.Reality
import Metahumotonic.Platform.Structure

/-! What the order of the evidence changes: nothing in the view of a catalog, where a larger id
breaks ties, but the state of a node of the assessment wherever its latest evidence disagrees. -/
namespace Metahumotonic.Platform
open Metahumotonic.Library Json

def withObservations (graph : Json) (observations : List Json) : Json :=
  graph.put (lit "observations") (.array observations)

/-- `localeCompare` orders the five checks as their code units do. -/
def ComparesChecks (localeCompare : Text → Text → ℤ) : Prop :=
  ∀ a ∈ checks, ∀ b ∈ checks, localeCompare a b ≤ 0 ↔ a ≤ b

/-- Evidence of a list that no other was observed after. -/
def IsLatest (dateParse : Text → Option ℤ) (evidence : List RuntimeEvidence)
    (e : RuntimeEvidence) : Prop :=
  e ∈ evidence ∧ ∀ other ∈ evidence,
    BackendReality.time dateParse other.observedAt ≤ BackendReality.time dateParse e.observedAt

/-- At an instant the one was not yet observed, or both have expired, or neither has and their
outcomes are equal. -/
def Concordant (dateParse : Text → Option ℤ) (now : ℤ) (a b : RuntimeEvidence) : Prop :=
  let time := BackendReality.time dateParse
  now < time a.observedAt ∨ (time a.expiresAt ≤ now ∧ time b.expiresAt ≤ now) ∨
    (now < time a.expiresAt ∧ now < time b.expiresAt ∧ a.outcome = b.outcome)

/-- What is read of an assessment and of a catalog, whatever the order of their evidence. -/
structure OrderFree (dateParse : Text → Option ℤ) (localeCompare : Text → Text → ℤ)
    (reality : BackendReality)
    (catalog : Json) (now : ℤ) : Prop where
  states : ∀ node ∈ reality.nodes, ∀ evidence, evidence.Perm node.runtimeEvidence →
    evidenceState dateParse { node with runtimeEvidence := evidence } now = evidenceState
      dateParse node now
  counts : ∀ before node after evidence, reality.nodes = before ++ node :: after →
    evidence.Perm node.runtimeEvidence →
    realityCounts dateParse
      { reality with nodes := before ++ { node with runtimeEvidence := evidence } :: after } now =
        realityCounts dateParse reality now
  items : ∀ observations, observations.Perm (observationsOf catalog) → ∀ node,
    inventoryItem localeCompare (withObservations catalog observations) node now =
      inventoryItem localeCompare catalog node now
  summary : ∀ observations, observations.Perm (observationsOf catalog) →
    inventorySummary localeCompare (withObservations catalog observations) now =
      inventorySummary localeCompare catalog now

/-! The view of a catalog. -/

theorem observations_distinct {graph : Json} (decoded : decodeCatalog graph = some graph) :
    ∀ a ∈ observationsOf graph, ∀ b ∈ observationsOf graph, idOf a = idOf b → a = b := by
  obtain ⟨-, sound, -⟩ := decodeCatalog_iff.mp decoded
  have distinct := ((Catalog.graphProblems_wellStructured _).mp sound).observationIds
  rw [Catalog.read, List.map_map] at distinct
  exact fun a ha b hb same => List.inj_on_of_nodup_map distinct ha hb same

theorem observations_checked {graph : Json} (decoded : decodeCatalog graph = some graph) :
    ∀ o ∈ observationsOf graph, checkOf o ∈ checks := by
  intro o member
  have accepted := (catalog_observations (decodeCatalog_iff.mp decoded).1).1 o member
  have listed : required (lit "check") (isLiteral checks) ∈ observationFields := by
    simp [observationFields]
  exact List.contains_iff_mem.mp (textAt_of_isStruct observation_distinct accepted listed).2

section Views

variable {graph other : Json} (distinct : ∀ a ∈ observationsOf graph, ∀ b ∈ observationsOf graph,
    idOf a = idOf b → a = b)
  (perm : (observationsOf other).Perm (observationsOf graph))

include distinct perm

theorem latestByCheck_perm (subjectId check : Text) :
    (latestByCheck other subjectId).get? check = (latestByCheck graph subjectId).get? check := by
  rw [latestByCheck_get?, latestByCheck_get?]
  apply Eq.symm
  apply argmax_perm
  · intro a ha b hb same
    exact distinct a (List.mem_filter.mp ha).1 b (List.mem_filter.mp hb).1
      (Prod.mk.inj (toLex.injective same)).2
  · exact perm.symm.filter _

theorem latestObservations_perm {localeCompare : Text → Text → ℤ}
    (compares : ComparesChecks localeCompare)
    (checked : ∀ o ∈ observationsOf graph, checkOf o ∈ checks) (subjectId : Text) (now : ℤ) :
    latestObservations localeCompare other subjectId now = latestObservations localeCompare graph
      subjectId now := by
  have same := latestByCheck_perm distinct perm subjectId
  have known : ∀ o ∈ (latestByCheck graph subjectId).values, checkOf o ∈ checks := by
    intro o member
    have found := mem_values_latest.mp member
    rw [latestByCheck_get?] at found
    exact checked o (List.mem_filter.mp (List.argmax_mem found)).1
  have values : (latestByCheck other subjectId).values.Perm
      (latestByCheck graph subjectId).values :=
    Table.values_perm fun check o => by rw [same]
  have sorted : ∀ l : List Json, l.Perm (latestByCheck graph subjectId).values →
      (l.insertionSort fun a b => localeCompare (checkOf a) (checkOf b) ≤ 0).Pairwise
        fun a b => checkOf a ≤ checkOf b := by
    intro l also
    apply pairwise_insertionSort_of_key checkOf
    intro a ha b hb
    exact compares _ (known a (also.mem_iff.mp ha)) _ (known b (also.mem_iff.mp hb))
  have lists := ((List.perm_insertionSort (fun a b => localeCompare (checkOf a) (checkOf b) ≤ 0)
    _).trans values).trans
    (List.perm_insertionSort (fun a b => localeCompare (checkOf a) (checkOf b) ≤ 0) _).symm
  rw [latestObservations, latestObservations]
  congr 1
  apply List.Perm.eq_of_pairwise _ (sorted _ values) (sorted _ (.refl _)) lists
  intro a b ha hb below above
  -- Two observations shown of one check are the one that is latest.
  rw [List.mem_insertionSort] at ha hb
  have first := mem_values_latest.mp (values.mem_iff.mp ha)
  have second := mem_values_latest.mp hb
  rw [le_antisymm below above, second] at first
  exact (Option.some.inj first).symm

theorem inventorySummary_perm {localeCompare : Text → Text → ℤ}
    (compares : ComparesChecks localeCompare)
    (checked : ∀ o ∈ observationsOf graph, checkOf o ∈ checks)
    (nodes : nodesOf other = nodesOf graph)
    (edges : edgesOf other = edgesOf graph) (now : ℤ) :
    inventorySummary localeCompare other now = inventorySummary localeCompare graph now := by
  have views : (fun node : Json => latestObservations localeCompare other (idOf node) now) =
      fun node => latestObservations localeCompare graph (idOf node) now :=
    funext fun node => latestObservations_perm distinct perm compares checked (idOf node) now
  simp only [inventorySummary, nodes, edges, perm.length_eq, views]

end Views

/-! The state of a node. -/

/-- The state that one piece of evidence proves. -/
def judged (dateParse : Text → Option ℤ) (now : ℤ) (latest : RuntimeEvidence) : EvidenceState :=
  if now < BackendReality.time dateParse latest.observedAt then .unverified
  else if BackendReality.time dateParse latest.expiresAt ≤ now then .stale
    else .outcome latest.outcome

theorem evidenceState_argmax (dateParse : Text → Option ℤ) (node : RealityNode) (now : ℤ) :
    evidenceState dateParse node now =
      ((node.runtimeEvidence.argmax fun e => BackendReality.time dateParse e.observedAt).map
        (judged dateParse now)).getD .unverified := by
  rw [evidenceState, head?_insertionSort fun e : RuntimeEvidence =>
    BackendReality.time dateParse e.observedAt]
  cases node.runtimeEvidence.argmax fun e => BackendReality.time dateParse e.observedAt with
  | none => rfl
  | some latest => rfl

theorem judged_eq_iff {dateParse : Text → Option ℤ} {now : ℤ} {a b : RuntimeEvidence}
    (together : BackendReality.time dateParse a.observedAt = BackendReality.time dateParse
      b.observedAt) :
    judged dateParse now a = judged dateParse now b ↔ Concordant dateParse now a b := by
  rw [judged, judged, ← together, Concordant]
  by_cases early : now < BackendReality.time dateParse a.observedAt
  · simp [early]
  · by_cases first : BackendReality.time dateParse a.expiresAt ≤ now
    · by_cases second : BackendReality.time dateParse b.expiresAt ≤ now
      · simp [early, first, second]
      · simp [early, first, second, not_lt.mpr first]
    · by_cases second : BackendReality.time dateParse b.expiresAt ≤ now
      · simp [early, first, second, not_lt.mpr second]
      · simp [early, first, second, not_le.mp first, not_le.mp second]

theorem isLatest_of_argmax {dateParse : Text → Option ℤ} {evidence : List RuntimeEvidence}
    {e : RuntimeEvidence}
    (found : (evidence.argmax fun e => BackendReality.time dateParse e.observedAt) = some e) :
    IsLatest dateParse evidence e :=
  ⟨List.argmax_mem found, fun _ member =>
    List.le_of_mem_argmax (f := fun e : RuntimeEvidence =>
      BackendReality.time dateParse e.observedAt) member found⟩

theorem states_iff (dateParse : Text → Option ℤ) (node : RealityNode) (now : ℤ) :
    (∀ evidence, evidence.Perm node.runtimeEvidence →
      evidenceState dateParse { node with runtimeEvidence := evidence } now = evidenceState
        dateParse node now) ↔
    ∀ a b, IsLatest dateParse node.runtimeEvidence a → IsLatest dateParse node.runtimeEvidence b →
      Concordant dateParse now a b := by
  constructor
  · intro same a b first second
    have together := le_antisymm (second.2 a first.1) (first.2 b second.1)
    have brought : ∀ e, IsLatest dateParse node.runtimeEvidence e →
        judged dateParse now e = evidenceState dateParse node now := by
      intro e latest
      rw [← same (e :: node.runtimeEvidence.erase e) (List.perm_cons_erase latest.1).symm,
        evidenceState_argmax,
        argmax_of_head _ fun other member => latest.2 other (List.mem_of_mem_erase member)]
      rfl
    exact (judged_eq_iff together).mp ((brought a first).trans (brought b second).symm)
  · intro concordant evidence perm
    rw [evidenceState_argmax, evidenceState_argmax]
    cases found : evidence.argmax fun e => BackendReality.time dateParse e.observedAt with
    | none =>
      have empty : node.runtimeEvidence = [] := by
        rw [List.argmax_eq_none.mp found] at perm
        exact perm.symm.eq_nil
      rw [empty]
      rfl
    | some a =>
      have latest := isLatest_of_argmax found
      have first : IsLatest dateParse node.runtimeEvidence a :=
        ⟨perm.mem_iff.mp latest.1, fun other member => latest.2 other (perm.mem_iff.mpr member)⟩
      cases selected : node.runtimeEvidence.argmax fun e =>
        BackendReality.time dateParse e.observedAt with
      | none =>
        rw [List.argmax_eq_none.mp selected] at first
        cases first.1
      | some b =>
        have second := isLatest_of_argmax selected
        have together := le_antisymm (second.2 a first.1) (first.2 b second.1)
        exact (judged_eq_iff together).mpr (concordant a b first second)

theorem realityCounts_of_state {dateParse : Text → Option ℤ} {reality : BackendReality} {now : ℤ}
    {before after : List RealityNode} {node : RealityNode}
    (split : reality.nodes = before ++ node :: after)
    {evidence : List RuntimeEvidence}
    (same : evidenceState dateParse { node with runtimeEvidence := evidence } now = evidenceState
      dateParse node now) :
    realityCounts dateParse
      { reality with nodes := before ++ { node with runtimeEvidence := evidence } :: after } now =
      realityCounts dateParse reality now := by
  simp only [realityCounts, split, List.map_append, List.map_cons, same]

/-- Nothing depends on the order of the evidence exactly if the latest evidence of every node
agrees. -/
theorem order_free_iff (dateParse : Text → Option ℤ) (localeCompare : Text → Text → ℤ)
    (compares : ComparesChecks localeCompare) (input platform catalog : Json)
    (reality : BackendReality)
    (_assessed : decodeReality dateParse input platform = some reality)
    (decoded : decodeCatalog catalog = some catalog) (now : ℤ) :
    OrderFree dateParse localeCompare reality catalog now ↔
      ∀ node ∈ reality.nodes, ∀ a b, IsLatest dateParse node.runtimeEvidence a →
        IsLatest dateParse node.runtimeEvidence b → Concordant dateParse now a b := by
  constructor
  · exact fun free node member => (states_iff dateParse node now).mp (free.states node member)
  · intro concordant
    have states := fun node member => (states_iff dateParse node now).mpr (concordant node member)
    have plain := named_of_isStruct (decodeCatalog_iff.mp decoded).1
    have observed : ∀ observations, observationsOf (withObservations catalog observations) =
        observations :=
      fun observations => itemsAt_put_self plain _ _
    have distinct := observations_distinct decoded
    have checked := observations_checked decoded
    constructor
    · exact states
    · intro before node after evidence split perm
      apply realityCounts_of_state split
      exact states node (split ▸ List.mem_append_right _ List.mem_cons_self) evidence perm
    · intro observations perm node
      rw [inventoryItem, latestObservations_perm distinct (by rw [observed]; exact perm) compares
        checked, inventoryItem]
    · intro observations perm
      apply inventorySummary_perm distinct (by rw [observed]; exact perm) compares checked
      · exact itemsAt_put_other plain (by decide) _
      · exact itemsAt_put_other plain (by decide) _

/-! Two receipts of one instant. -/

def receiptAt (time outcome : String) : Json :=
  .object [(lit "source", .text (lit "receipt:probe")),
  (lit "observedAt", .text (lit time)), (lit "expiresAt", .text (lit "2026-01-01T00:01:00Z")),
  (lit "outcome", .text (lit outcome))]

/-- The assessment of one observed node. -/
def assessment (receipts : List Json) : Json :=
  .object [(lit "schema", .text (lit "metahumotonic/backend-reality@1")),
  (lit "recordedAt", .text (lit "2026-01-01T00:00:30Z")), (lit "scope", .text (lit "api")),
  (lit "nodes", .array [.object [(lit "id", .text (lit "api")), (lit "name", .text (lit "API")),
    (lit "implementation", .text (lit "native")),
    (lit "runtime", .text (lit "production-observed")),
    (lit "decision", .text (lit "retain")),
    (lit "evidence", .array
      [.object [(lit "source", .text (lit "src/api")), (lit "kind", .text (lit "source"))]]),
    (lit "runtimeEvidence", .array receipts)]]),
  (lit "edges", .array [])]

def healthyThenFailed : Json :=
  assessment [receiptAt "2026-01-01T00:00:00Z" "healthy",
    receiptAt "2026-01-01T00:00:00.000Z" "failed"]

theorem compares_codeUnits : ComparesChecks codeUnits := by
  unfold ComparesChecks
  decide

theorem decoded_twoGraph : decodeCatalog twoGraph = some twoGraph :=
  decodeCatalog_iff.mpr ⟨by decide, by decide, rfl⟩

theorem order_free_iff_sample :
    OrderFree IsoDate.dateParse codeUnits
      (.read (assessment [receiptAt "2026-01-01T00:00:00Z" "healthy"])) twoGraph
        sampleNow ↔
      ∀ node ∈ (BackendReality.read
        (assessment [receiptAt "2026-01-01T00:00:00Z" "healthy"])).nodes, ∀ a b,
        IsLatest IsoDate.dateParse node.runtimeEvidence a →
          IsLatest IsoDate.dateParse node.runtimeEvidence b →
          Concordant IsoDate.dateParse sampleNow a b :=
  order_free_iff IsoDate.dateParse codeUnits compares_codeUnits
    (assessment [receiptAt "2026-01-01T00:00:00Z" "healthy"]) sampleCatalog twoGraph _ (by decide)
    decoded_twoGraph sampleNow

/-- The state of the node is the outcome of the receipt that is listed first. -/
theorem order_matters :
    ∃ (input platform catalog : Json) (reality : BackendReality) (now : ℤ),
      decodeReality IsoDate.dateParse input platform = some reality ∧
        decodeCatalog catalog = some catalog ∧
        ¬ OrderFree IsoDate.dateParse codeUnits reality catalog now := by
  refine ⟨healthyThenFailed, sampleCatalog, twoGraph, .read healthyThenFailed, sampleNow, by decide,
    decoded_twoGraph, fun free => ?_⟩
  have swapped : ∀ node ∈ (BackendReality.read healthyThenFailed).nodes,
      evidenceState IsoDate.dateParse
        { node with runtimeEvidence := node.runtimeEvidence.reverse } sampleNow ≠
        evidenceState IsoDate.dateParse node sampleNow := by decide
  obtain ⟨node, member⟩ : ∃ node, node ∈ (BackendReality.read healthyThenFailed).nodes :=
    ⟨_, List.mem_cons_self⟩
  exact swapped node member (free.states node member _ (List.reverse_perm _))

end Metahumotonic.Platform
