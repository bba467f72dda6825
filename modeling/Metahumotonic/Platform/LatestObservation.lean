import Metahumotonic.Platform.InventoryView

/-! The latest observation of a check as the database selects it, to the microsecond, and as it is
selected in memory, to the millisecond. -/
namespace Metahumotonic.Platform
open Metahumotonic.Library Json

/-- The digits of the fraction of an accepted time. -/
def fractionDigits (s : Text) : Text := if (s.drop 19).head? = some 46
    then (s.drop 20).takeWhile isDigit else []

/-- What three digits after the milliseconds add. -/
def microsAfter (s : Text) : ℕ :=
  number (((fractionDigits s ++ [48, 48, 48, 48, 48, 48]).drop 3).take 3)

/-- An accepted time in microseconds. -/
def microsOf (s : Text) : ℤ := timeOf s * 1000 + microsAfter s

/-- What PostgreSQL documents of an accepted time, and of ids under a byte collation. -/
structure Postgres.Behaves (db : Postgres) : Prop where
  times : ∀ s t, isObservationTime s = true → db.timestamptz s = some t → t = microsOf s
  bytes : ∀ a b, isPlatformId a = true → isPlatformId b = true → (db.collates a b = true ↔ a ≤ b)

/-- A row that tells what its document says. -/
structure RowTells (db : Postgres) (row : ObservationRow) : Prop where
  accepted : isPlatformObservation row.document = true
  id : row.id = idOf row.document
  subjectId : row.subjectId = subjectIdOf row.document
  checkKind : row.checkKind = checkOf row.document
  observedAt : db.timestamptz (observedAtOf row.document) = some row.observedAt

/-- The document that the read query selects for a subject and a check. -/
def selected (db : Postgres) (pinned : Text) (tables : Tables) (subjectId check : Text) :
    Option Json :=
  ((db.latest pinned tables).find? fun row => groupOf row = (subjectId, check)).map
    ObservationRow.document

/-- The key of the database. -/
def microKey (observation : Json) : Lex (ℤ × Text) :=
  toLex (microsOf (observedAtOf observation), idOf observation)

/-- The latest observation to the microsecond, by its id among equals, has the largest id of its
millisecond as well. -/
def Settled (group : List Json) : Prop :=
  ∀ latest ∈ group, (∀ o ∈ group, microKey o ≤ microKey latest) →
    ∀ o ∈ group, timeOf (observedAtOf o) = timeOf (observedAtOf latest) → idOf o ≤ idOf latest

/-! Times. -/

theorem number_lt_of_three {digits : Text} (all : ∀ c ∈ digits, isDigit c = true)
    (short : digits.length ≤ 3) :
    number digits < 1000 := by
  have small : ∀ c ∈ digits, c - 48 ≤ 9 := by
    intro c member
    have digit := all c member
    simp only [isDigit, Bool.and_eq_true, decide_eq_true_eq] at digit
    omega
  rcases digits with _ | ⟨a, _ | ⟨b, _ | ⟨c, _ | ⟨d, rest⟩⟩⟩⟩
  · decide
  · have first := small a (by simp)
    simp only [number, List.foldl_cons, List.foldl_nil]
    omega
  · have first := small a (by simp)
    have second := small b (by simp)
    simp only [number, List.foldl_cons, List.foldl_nil]
    omega
  · have first := small a (by simp)
    have second := small b (by simp)
    have third := small c (by simp)
    simp only [number, List.foldl_cons, List.foldl_nil]
    omega
  · simp only [List.length_cons] at short
    omega

theorem microsAfter_lt (s : Text) : microsAfter s < 1000 := by
  refine number_lt_of_three (fun c member => ?_) (List.length_take_le ..)
  rcases List.mem_append.mp (List.mem_of_mem_drop (List.mem_of_mem_take member)) with here | zero
  · unfold fractionDigits at here
    split at here
    · exact List.mem_takeWhile_imp here
    · cases here
  · simp only [List.mem_cons, List.not_mem_nil, or_false, or_self] at zero
    rw [zero]
    rfl

theorem timeOf_micros (s : Text) : timeOf s = microsOf s / 1000 := by
  have small := microsAfter_lt s
  unfold microsOf
  omega

theorem latestKey_le_of_microKey_le {a b : Json} (le : microKey a ≤ microKey b) :
    timeOf (observedAtOf a) ≤ timeOf (observedAtOf b) := by
  rw [microKey, microKey, Prod.Lex.toLex_le_toLex] at le
  rw [timeOf_micros, timeOf_micros]
  rcases le with less | ⟨same, -⟩
  · exact Int.ediv_le_ediv (by decide) less.le
  · exact Int.ediv_le_ediv (by decide) same.le

/-- Two selections from one group of observations with distinct ids. -/
theorem argmax_agree_iff {group : List Json}
    (distinct : ∀ a ∈ group, ∀ b ∈ group, idOf a = idOf b → a = b) :
    group.argmax microKey = group.argmax latestKey ↔ Settled group := by
  have micro : ∀ a ∈ group, ∀ b ∈ group, microKey a = microKey b → a = b :=
    fun a ha b hb same => distinct a ha b hb (Prod.mk.inj (toLex.injective same)).2
  have milli : ∀ a ∈ group, ∀ b ∈ group, latestKey a = latestKey b → a = b :=
    fun a ha b hb same => distinct a ha b hb (Prod.mk.inj (toLex.injective same)).2
  constructor
  · intro same latest member greatest o there tied
    have found : group.argmax latestKey = some latest := by
      rw [← same]
      exact (argmax_eq_some_of_distinct micro).mpr ⟨member, greatest⟩
    have below := ((argmax_eq_some_of_distinct milli).mp found).2 o there
    rw [latestKey, latestKey, Prod.Lex.toLex_le_toLex] at below
    rcases below with less | ⟨-, le⟩
    · exact absurd tied less.ne
    · exact le
  · intro settled
    cases found : group.argmax microKey with
    | none => rw [List.argmax_eq_none.mp found, List.argmax_nil]
    | some latest =>
      obtain ⟨member, greatest⟩ := (argmax_eq_some_of_distinct micro).mp found
      refine ((argmax_eq_some_of_distinct milli).mpr ⟨member, fun o there => ?_⟩).symm
      rw [latestKey, latestKey, Prod.Lex.toLex_le_toLex]
      rcases (latestKey_le_of_microKey_le (greatest o there)).lt_or_eq with less | tied
      · exact .inl less
      · exact .inr ⟨tied, settled latest member greatest o there tied⟩

/-! What the read query selects. -/

/-- The first of a group among the distinct rows is the first of it among all rows. -/
theorem find?_distinctOn (rows : List ObservationRow) (group : Text × Text) :
    (Postgres.distinctOn rows).find? (fun row => groupOf row = group) = rows.find? fun row =>
      groupOf row = group := by
  have run : ∀ (later kept : List ObservationRow),
      (later.foldl (fun kept row =>
        if kept.any fun old => old.subjectId == row.subjectId && old.checkKind ==
          row.checkKind then kept
        else kept ++ [row]) kept).find? (fun row => groupOf row = group) =
        (kept.find? fun row => groupOf row = group).or
          (later.find? fun row => groupOf row = group) := by
    intro later
    induction later with
    | nil => exact fun kept => (Option.or_none).symm
    | cons row rest ih =>
      intro kept
      rw [List.foldl_cons, ih, List.find?_cons]
      by_cases known : (kept.any fun old => old.subjectId == row.subjectId && old.checkKind ==
        row.checkKind) = true
      · rw [if_pos known]
        by_cases here : groupOf row = group
        · -- Another row of the group was kept already.
          have there : (kept.find? fun row => groupOf row = group).isSome = true := by
            obtain ⟨old, member, same⟩ := List.any_eq_true.mp known
            simp only [Bool.and_eq_true, beq_iff_eq] at same
            rw [List.find?_isSome]
            exact ⟨old, member, by rw [← here, groupOf, groupOf, same.1, same.2,
              decide_eq_true rfl]⟩
          obtain ⟨old, found⟩ := Option.isSome_iff_exists.mp there
          rw [found, Option.some_or, Option.some_or]
        · simp [here]
      · rw [if_neg known, List.find?_append, List.find?_cons]
        by_cases here : groupOf row = group
        · simp [here]
        · simp [here]
  exact run rows []

/-- The sort key of the read query. -/
def rowKey (row : ObservationRow) : Lex (Text × Lex (Text × Lex (ℤᵒᵈ × Textᵒᵈ))) :=
  toLex (row.subjectId,
    toLex (row.checkKind, toLex (OrderDual.toDual row.observedAt, OrderDual.toDual row.id)))

section Rows

variable {db : Postgres} {row other : ObservationRow}

theorem checks_ids : ∀ check ∈ checks, isPlatformId check = true := by decide

theorem RowTells.ids (tells : RowTells db row) :
    isPlatformId row.id = true ∧ isPlatformId row.subjectId = true ∧
      isPlatformId row.checkKind = true := by
  rw [tells.id, tells.subjectId, tells.checkKind]
  refine ⟨?_, ?_, ?_⟩
  · exact (textAt_of_isStruct observation_distinct tells.accepted
      (by simp [observationFields, isId])).2
  · exact (textAt_of_isStruct observation_distinct tells.accepted
      (by simp [observationFields, isId])).2
  · have field : required (lit "check") (isText fun s => checks.contains s) ∈
        observationFields := by
      simp [observationFields, isLiteral]
    have listed := (textAt_of_isStruct observation_distinct tells.accepted field).2
    exact checks_ids _ (List.contains_iff_mem.mp listed)

theorem ordered_iff (behaves : db.Behaves) (tells : RowTells db row) (tells' : RowTells db other) :
    db.ordered row other ↔ rowKey row ≤ rowKey other := by
  obtain ⟨id, subject, check⟩ := tells.ids
  obtain ⟨id', subject', check'⟩ := tells'.ids
  simp only [Postgres.ordered, rowKey, Prod.Lex.toLex_le_toLex, OrderDual.toDual_lt_toDual,
    OrderDual.toDual_le_toDual, OrderDual.toDual_inj]
  by_cases subjects : row.subjectId = other.subjectId
  · rw [if_neg (not_not.mpr subjects)]
    by_cases checks_ : row.checkKind = other.checkKind
    · rw [if_neg (not_not.mpr checks_)]
      by_cases times : row.observedAt = other.observedAt
      · rw [if_neg (not_not.mpr times), behaves.bytes _ _ id' id]
        simp [subjects, checks_, times]
      · rw [if_pos times]
        simp [subjects, checks_, times]
    · rw [if_pos checks_, behaves.bytes _ _ check check', le_iff_lt_or_eq]
      simp [subjects, checks_]
  · rw [if_pos subjects, behaves.bytes _ _ subject subject', le_iff_lt_or_eq]
    simp [subjects]

end Rows

/-- The rows of the tables tell what their documents say, and no id is stored twice. -/
structure Stored (db : Postgres) (tables : Tables) : Prop where
  tells : ∀ row ∈ tables.observations, RowTells db row
  distinct : (tables.observations.map ObservationRow.id).Nodup

theorem RowTells.microKey_eq {db : Postgres} (behaves : db.Behaves) {row : ObservationRow}
    (tells : RowTells db row) :
    microKey row.document = toLex (row.observedAt, row.id) := by
  have accepted : isObservationTime (observedAtOf row.document) = true :=
    (textAt_of_isStruct observation_distinct tells.accepted (by simp [observationFields])).2
  rw [microKey, ← behaves.times _ _ accepted tells.observedAt, tells.id]

theorem Stored.distinct_documents {db : Postgres} {tables : Tables} (stored : Stored db tables) :
    ∀ a ∈ tables.observations.map ObservationRow.document,
      ∀ b ∈ tables.observations.map ObservationRow.document,
      idOf a = idOf b → a = b := by
  intro a ha b hb same
  obtain ⟨row, member, rfl⟩ := List.mem_map.mp ha
  obtain ⟨other, member', rfl⟩ := List.mem_map.mp hb
  rw [← (stored.tells row member).id, ← (stored.tells other member').id] at same
  rw [List.inj_on_of_nodup_map stored.distinct member member' same]

theorem selected_eq {db : Postgres} (behaves : db.Behaves) {pinned : Text} {tables : Tables}
    (stored : Stored db tables) {subjectId : Text}
    (declared : tables.hasAsset pinned subjectId = true) (check : Text) :
    selected db pinned tables subjectId check =
      (groupIn subjectId check (tables.observations.map ObservationRow.document)).argmax
        microKey := by
  have known : ∀ row ∈ tables.observations.filter fun row => tables.hasAsset pinned row.subjectId,
      row ∈ tables.observations := fun row member => (List.mem_filter.mp member).1
  have sorted := pairwise_insertionSort_of_key rowKey fun a ha b hb =>
    ordered_iff behaves (stored.tells a (known a ha)) (stored.tells b (known b hb))
  have inGroup : ∀ row ∈ tables.observations, groupOf row = (subjectId, check) ↔
      subjectIdOf row.document = subjectId ∧ checkOf row.document = check := by
    intro row member
    rw [groupOf, Prod.mk.injEq, (stored.tells row member).subjectId,
      (stored.tells row member).checkKind]
  have distinct : ∀ a ∈ groupIn subjectId check (tables.observations.map ObservationRow.document),
      ∀ b ∈ groupIn subjectId check (tables.observations.map ObservationRow.document),
        microKey a = microKey b → a = b := by
    intro a ha b hb same
    exact stored.distinct_documents a (List.mem_filter.mp ha).1 b (List.mem_filter.mp hb).1
      (Prod.mk.inj (toLex.injective same)).2
  have listed : ∀ o ∈ groupIn subjectId check (tables.observations.map ObservationRow.document),
      ∃ row, row.document = o ∧ row ∈ tables.observations ∧ groupOf row = (subjectId, check) ∧
        row ∈ (tables.observations.filter fun row =>
          tables.hasAsset pinned row.subjectId).insertionSort db.ordered := by
    intro o member
    obtain ⟨there, mine⟩ := List.mem_filter.mp member
    obtain ⟨row, here, rfl⟩ := List.mem_map.mp there
    have group := (inGroup row here).mpr (by simpa using mine)
    refine ⟨row, rfl, here, group, ?_⟩
    rw [List.mem_insertionSort, List.mem_filter]
    exact ⟨here, (Prod.mk.inj group).1 ▸ declared⟩
  rw [selected, Postgres.latest, find?_distinctOn]
  cases found : ((tables.observations.filter fun row =>
    tables.hasAsset pinned row.subjectId).insertionSort
      db.ordered).find? fun row => groupOf row = (subjectId, check) with
  | none =>
    have empty : groupIn subjectId check
        (tables.observations.map ObservationRow.document) = [] := by
      apply List.eq_nil_iff_forall_not_mem.mpr
      intro o member
      obtain ⟨row, -, -, group, there⟩ := listed o member
      exact List.find?_eq_none.mp found row there (decide_eq_true group)
    rw [empty, List.argmax_nil, Option.map_none]
  | some row =>
    obtain ⟨mine, before, after, split, others⟩ := List.find?_eq_some_iff_append.mp found
    have group : groupOf row = (subjectId, check) := of_decide_eq_true mine
    have there := List.mem_of_find?_eq_some found
    have member : row ∈ tables.observations := known row ((List.mem_insertionSort _).mp there)
    rw [Option.map_some, eq_comm, argmax_eq_some_of_distinct distinct]
    constructor
    · exact List.mem_filter.mpr
        ⟨List.mem_map_of_mem member, by simpa using (inGroup row member).mp group⟩
    · intro o inside
      obtain ⟨other, rfl, here, group', there'⟩ := listed o inside
      rw [(stored.tells row member).microKey_eq behaves,
        (stored.tells other here).microKey_eq behaves]
      have below : rowKey row ≤ rowKey other := by
        rw [split] at there' sorted
        rcases List.mem_append.mp there' with early | late
        · have other_ := others other early
          simp [group'] at other_
        · rcases List.mem_cons.mp late with rfl | later
          · exact le_refl _
          · exact (List.pairwise_cons.mp (List.pairwise_append.mp sorted).2.1).1 other later
      have subjects : row.subjectId = other.subjectId := (Prod.mk.inj (group.trans group'.symm)).1
      have checks_ : row.checkKind = other.checkKind := (Prod.mk.inj (group.trans group'.symm)).2
      simp only [rowKey, Prod.Lex.toLex_le_toLex, subjects, checks_, lt_irrefl, false_or, true_and,
        OrderDual.toDual_lt_toDual, OrderDual.toDual_le_toDual, OrderDual.toDual_inj] at below
      rw [Prod.Lex.toLex_le_toLex]
      rcases below with less | ⟨tied, le⟩
      · exact .inl less
      · exact .inr ⟨tied.symm, le⟩

/-- Both select the same observation of a subject and a check exactly if the group is settled. -/
theorem same_latest_iff (db : Postgres) (behaves : db.Behaves) (pinned : Text) (tables : Tables)
    (stored : Stored db tables) (graph : Json)
    (full : (observationsOf graph).Perm (tables.observations.map ObservationRow.document))
    (localeCompare : Text → Text → ℤ) (now : ℤ) (subjectId check : Text)
    (declared : tables.hasAsset pinned subjectId = true) :
    selected db pinned tables subjectId check =
        shown (latestObservations localeCompare graph subjectId now) check ↔
      Settled (groupIn subjectId check (observationsOf graph)) := by
  have perm : (groupIn subjectId check (observationsOf graph)).Perm
      (groupIn subjectId check (tables.observations.map ObservationRow.document)) := full.filter _
  have distinct : ∀ a ∈ groupIn subjectId check (observationsOf graph),
      ∀ b ∈ groupIn subjectId check (observationsOf graph), idOf a = idOf b → a = b := by
    intro a ha b hb
    exact stored.distinct_documents a (full.mem_iff.mp (List.mem_filter.mp ha).1) b
      (full.mem_iff.mp (List.mem_filter.mp hb).1)
  have micro : ∀ a ∈ groupIn subjectId check (observationsOf graph),
      ∀ b ∈ groupIn subjectId check (observationsOf graph), microKey a = microKey b → a = b :=
    fun a ha b hb same => distinct a ha b hb (Prod.mk.inj (toLex.injective same)).2
  rw [selected_eq behaves stored declared, shown_latest, latestByCheck_get?,
    ← argmax_perm micro perm,
    argmax_agree_iff distinct]

/-! Two observations of one millisecond. -/

def microDb : Postgres := { sampleDb with timestamptz := fun s => some (microsOf s) }

theorem microDb_behaves : microDb.Behaves where
  times _ _ _ read := (Option.some.inj read).symm
  bytes _ _ _ _ := decide_eq_true_iff

def observationAt (id time : String) : Json :=
  .object [(lit "id", .text (lit id)), (lit "subjectId", .text (lit "host:a")),
  (lit "observedAt", .text (lit time)), (lit "expiresAt", .text (lit "2026-01-01T00:01:00Z")),
  (lit "check", .text (lit "http")), (lit "outcome", .text (lit "reachable")),
  (lit "evidence", .array [sampleEvidence])]

def rowFor (o : Json) : ObservationRow :=
  { id := idOf o, payloadDigest := [], subjectId := subjectIdOf o, catalogDigest := lit "d",
    receiptId := lit "r",
    checkKind := checkOf o, outcome := outcomeOf o, observedAt := microsOf (observedAtOf o),
    expiresAt := microsOf (expiresAtOf o), document := o }

theorem rowFor_tells {o : Json} (accepted : isPlatformObservation o = true) : RowTells microDb
    (rowFor o) :=
  ⟨accepted, rfl, rfl, rfl, rfl⟩

def twoObservations : List Json :=
  [observationAt "o:1" "2026-01-01T00:00:00.000002Z",
    observationAt "o:2" "2026-01-01T00:00:00.000001+00:00"]

def twoTables : Tables where
  assetVersions := [⟨lit "d", lit "host:a", lit "host", none, sampleNode⟩]
  observations := twoObservations.map rowFor

def twoGraph : Json := sampleCatalog.put (lit "observations") (.array twoObservations)

theorem twoTables_stored : Stored microDb twoTables := by
  constructor
  · intro row member
    obtain ⟨o, listed, rfl⟩ := List.mem_map.mp member
    have accepted : ∀ o ∈ twoObservations, isPlatformObservation o = true := by decide
    exact rowFor_tells (accepted o listed)
  · decide

def codeUnits (a b : Text) : ℤ := if a < b then -1 else if b < a then 1 else 0

theorem same_latest_iff_sample :
    selected microDb (lit "d") twoTables (lit "host:a") (lit "http") =
        shown (latestObservations codeUnits twoGraph (lit "host:a") sampleNow) (lit "http") ↔
      Settled (groupIn (lit "host:a") (lit "http") (observationsOf twoGraph)) :=
  same_latest_iff microDb microDb_behaves (lit "d") twoTables twoTables_stored twoGraph
    (.of_eq (by rfl)) codeUnits sampleNow _ _ (by decide)

/-- The database selects the later microsecond, the view in memory the larger id. -/
theorem latest_differs :
    ∃ (db : Postgres) (tables : Tables) (graph : Json), db.Behaves ∧ Stored db tables ∧
      observationsOf graph = tables.observations.map ObservationRow.document ∧
      tables.hasAsset (lit "d") (lit "host:a") = true ∧
      selected db (lit "d") tables (lit "host:a") (lit "http") ≠
        shown (latestObservations codeUnits graph (lit "host:a") sampleNow) (lit "http") := by
  refine ⟨microDb, twoTables, twoGraph, microDb_behaves, twoTables_stored, by rfl, by decide,
    fun same => ?_⟩
  have database : (selected microDb (lit "d") twoTables (lit "host:a") (lit "http")).map idOf =
      some (lit "o:1") := by
    decide
  have memory : (shown (latestObservations codeUnits twoGraph (lit "host:a") sampleNow)
      (lit "http")).map idOf =
      some (lit "o:2") := by decide
  rw [same, memory] at database
  exact absurd database (by decide)

end Metahumotonic.Platform
