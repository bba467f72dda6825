import Metahumotonic.Library.Checks
import Metahumotonic.Platform.Inventory

/-! What each operation of the platform store writes when it succeeds. -/
namespace Metahumotonic.Platform
open Metahumotonic.Library Json

theorem textAt_of_field {v : Json} {key s : Text} (found : Postgres.field v key = some s) :
    v.textAt key = s := by
  unfold Postgres.field at found
  unfold textAt
  cases held : v.get key with
  | none =>
    rw [held] at found
    cases found
  | some x =>
    rw [held] at found
    cases x with
    | text t => exact Option.some.inj found
    | _ => cases found

/-! The tables only grow. -/

structure Tables.Extends (t u : Tables) : Prop where
  schemaMigrations : u.schemaMigrations = t.schemaMigrations
  catalogVersions : t.catalogVersions <+: u.catalogVersions
  assetVersions : t.assetVersions <+: u.assetVersions
  ingestReceipts : t.ingestReceipts <+: u.ingestReceipts
  observations : t.observations <+: u.observations

theorem Tables.Extends.refl (t : Tables) : t.Extends t :=
  ⟨rfl, List.prefix_refl _, List.prefix_refl _, List.prefix_refl _, List.prefix_refl _⟩

theorem Tables.Extends.trans {t u v : Tables} (first : t.Extends u) (second : u.Extends v) :
    t.Extends v where
  schemaMigrations := second.schemaMigrations.trans first.schemaMigrations
  catalogVersions := first.catalogVersions.trans second.catalogVersions
  assetVersions := first.assetVersions.trans second.assetVersions
  ingestReceipts := first.ingestReceipts.trans second.ingestReceipts
  observations := first.observations.trans second.observations

/-- A transaction returns what its operation did, or nothing has happened. -/
theorem transaction_cases {A : Type*} (operation : Tables → Except Failure (A × Tables))
    (t : Tables) :
    (∃ result u, operation t = .ok (result, u) ∧ u.ownersExist = true ∧
      transaction operation t = (.ok result, u)) ∨
      ∃ failure, transaction operation t = (.error failure, t) := by
  unfold transaction
  cases operation t with
  | error failure => exact .inr ⟨failure, rfl⟩
  | ok done =>
    obtain ⟨result, u⟩ := done
    dsimp only
    split
    · rename_i owned
      exact .inl ⟨result, u, rfl, owned, rfl⟩
    · exact .inr ⟨.raised, rfl⟩

section Statements

variable {db : Postgres} {t u : Tables} {digest receiptId : Text}

/-- A catalog is inserted under its digest, unless there is one. -/
theorem insertCatalog_spec {catalog : Json} (ok : db.insertCatalog digest catalog t = .ok u) :
    ∃ added, u = { t with catalogVersions := t.catalogVersions ++ added } ∧
      (u.definition? digest).isSome = true ∧
      (added = [] ∨ t.definition? digest = none ∧ ∃ version : CatalogVersion, added = [version] ∧
        version.digest = digest ∧ Same catalog version.document) := by
  unfold Postgres.insertCatalog at ok
  split at ok
  · rename_i observedAt document _ stored
    split at ok
    · split at ok
      · rename_i known
        cases ok
        exact ⟨[], by rw [List.append_nil], known, .inl rfl⟩
      · rename_i unknown
        cases ok
        refine ⟨_, rfl, ?_, .inr ⟨Option.not_isSome_iff_eq_none.mp unknown, _, rfl, rfl,
          db.jsonb_same _ _ stored⟩⟩
        rw [Tables.definition?, List.find?_append, Option.isSome_or]
        simp
    · cases ok
  · cases ok

theorem insertAsset_spec {x : Json} (ok : Postgres.insertAsset digest t x = .ok u) :
    ∃ added, u = { t with assetVersions := t.assetVersions ++ added } ∧
      ∀ asset ∈ added, asset.catalogDigest = digest ∧ asset.id = idOf x := by
  unfold Postgres.insertAsset at ok
  split at ok
  · rename_i id kind found _
    split at ok
    · split at ok
      · cases ok
        exact ⟨[], by rw [List.append_nil], nofun⟩
      · cases ok
        refine ⟨_, rfl, ?_⟩
        intro asset member
        obtain rfl := List.mem_singleton.mp member
        exact ⟨rfl, (textAt_of_field found).symm⟩
    · cases ok
  · cases ok

theorem insertAssets_spec (nodes : List Json)
    (ok : nodes.foldlM (Postgres.insertAsset digest) t = .ok u) :
    ∃ added, u = { t with assetVersions := t.assetVersions ++ added } ∧
      ∀ asset ∈ added, asset.catalogDigest = digest ∧ asset.id ∈ nodes.map idOf := by
  induction nodes generalizing t with
  | nil =>
    cases ok
    exact ⟨[], by rw [List.append_nil], nofun⟩
  | cons x rest ih =>
    rw [List.foldlM_cons, bind_ok] at ok
    obtain ⟨m, first, later⟩ := ok
    obtain ⟨here, rfl, ofThis⟩ := insertAsset_spec first
    obtain ⟨there, rfl, ofRest⟩ := ih later
    refine ⟨here ++ there, by rw [List.append_assoc], ?_⟩
    intro asset member
    rcases List.mem_append.mp member with new | newer
    · obtain ⟨owner, id⟩ := ofThis asset new
      exact ⟨owner, id ▸ List.mem_cons_self⟩
    · obtain ⟨owner, id⟩ := ofRest asset newer
      exact ⟨owner, List.mem_cons_of_mem _ id⟩

theorem elements_spec {items stored : List Json} (ok : db.elements items = .ok stored) :
    stored.map form = items.map form := by
  unfold Postgres.elements at ok
  split at ok
  · rename_i found
    cases ok
    obtain ⟨others, equal, forms⟩ := same_array (db.jsonb_same _ _ found)
    obtain rfl := Json.array.inj equal
    exact forms
  · cases ok

theorem insertReceipt_spec {row : ReceiptRow} (ok : Postgres.insertReceipt row t = .ok u) :
    u = { t with ingestReceipts := t.ingestReceipts ++ [row] } ∧ t.receipt? row.id = none := by
  unfold Postgres.insertReceipt at ok
  split at ok
  · rename_i held
    cases ok
    simp only [Bool.and_eq_true, Option.isNone_iff_eq_none] at held
    exact ⟨rfl, held.1.1.1⟩
  · cases ok

/-- A row is made from an element as the statement says. -/
structure RowOf (db : Postgres) (definitionDigest receiptId : Text) (x : Json)
    (row : ObservationRow) : Prop where
  document : x.get (lit "document") = some row.document
  payloadDigest : x.textAt (lit "digest") = row.payloadDigest
  id : idOf row.document = row.id
  subjectId : subjectIdOf row.document = row.subjectId
  checkKind : checkOf row.document = row.checkKind
  catalogDigest : row.catalogDigest = definitionDigest
  receiptId : row.receiptId = receiptId

theorem observationRow_spec {x : Json} {row : ObservationRow}
    (made : db.observationRow digest receiptId x = some row) : RowOf db digest receiptId x row := by
  simp only [Postgres.observationRow, bind, Option.bind_eq_some_iff] at made
  obtain ⟨document, held, observedAt, _, expiresAt, _, id, hasId, payload, hasDigest, subject,
      hasSubject, check,
    hasCheck, outcome, _, equal⟩ := made
  cases Option.some.inj equal
  exact ⟨held, textAt_of_field hasDigest, textAt_of_field hasId, textAt_of_field hasSubject,
    textAt_of_field hasCheck, rfl, rfl⟩

theorem insertObservation_spec {x : Json} (ok : db.insertObservation digest receiptId t x = .ok u) :
    ∃ row, u = { t with observations := t.observations ++ [row] } ∧
      RowOf db digest receiptId x row ∧
      (∀ other ∈ t.observations, other.id ≠ row.id) ∧ row.checkKind ∈ checks := by
  unfold Postgres.insertObservation at ok
  split at ok
  · rename_i row made
    split at ok
    · rename_i held
      cases ok
      simp only [Bool.and_eq_true, List.all_eq_true, bne_iff_ne, List.contains_iff_mem] at held
      exact ⟨row, rfl, observationRow_spec made, held.1.1.1.1.1.1, held.1.1.1.2⟩
    · cases ok
  · cases ok

/-- The rows of the fresh observations are added in order, each under an id of its own. -/
theorem insertObservations_spec (stored : List Json)
    (ok : stored.foldlM (db.insertObservation digest receiptId) t = .ok u)
    (distinct : (t.observations.map ObservationRow.id).Nodup) :
    ∃ added, u = { t with observations := t.observations ++ added } ∧
      List.Forall₂ (RowOf db digest receiptId) stored added ∧
      ((t.observations ++ added).map ObservationRow.id).Nodup ∧ ∀ row ∈ added,
        row.checkKind ∈ checks := by
  induction stored generalizing t with
  | nil =>
    cases ok
    exact ⟨[], by rw [List.append_nil], .nil, by rwa [List.append_nil], nofun⟩
  | cons x rest ih =>
    rw [List.foldlM_cons, bind_ok] at ok
    obtain ⟨m, first, later⟩ := ok
    obtain ⟨row, rfl, made, fresh, check⟩ := insertObservation_spec first
    have longer : ((t.observations ++ [row]).map ObservationRow.id).Nodup := by
      rw [List.map_append, List.nodup_append]
      refine ⟨distinct, List.nodup_singleton _, ?_⟩
      intro a here b there
      obtain ⟨other, member, rfl⟩ := List.mem_map.mp here
      obtain rfl : b = row.id := List.mem_singleton.mp there
      exact fresh other member
    obtain ⟨added, rfl, rows, unique, kinds⟩ := ih later longer
    refine ⟨row :: added, by rw [List.append_assoc, List.singleton_append], .cons made rows, ?_, ?_⟩
    · rwa [List.append_assoc, List.singleton_append] at unique
    · exact List.forall_mem_cons.mpr ⟨check, kinds⟩

end Statements

/-- An observation is stored in a row. -/
structure StoredAs (db : Postgres) (definitionDigest receiptId : Text) (v : Json)
    (row : ObservationRow) : Prop where
  document : Same v row.document
  payloadDigest : row.payloadDigest = db.contentDigest v
  id : row.id = idOf v
  subjectId : row.subjectId = subjectIdOf v
  checkKind : row.checkKind = checkOf v
  catalogDigest : row.catalogDigest = definitionDigest
  receiptId : row.receiptId = receiptId

theorem storedAs_of_rowOf {db : Postgres} {digest receiptId : Text} {v x : Json}
    {row : ObservationRow}
    (plain : isPlatformObservation v = true)
    (same : Same (Submitted.json ⟨v, db.contentDigest v⟩) x)
    (made : RowOf db digest receiptId x row) : StoredAs db digest receiptId v row := by
  have named : (Submitted.json ⟨v, db.contentDigest v⟩).named = true := rfl
  have documents := same_get same named (lit "document")
  rw [made.document] at documents
  have document : Same v row.document := Option.some.inj documents
  have digests := same_textAt same named (lit "digest")
  rw [made.payloadDigest] at digests
  have whole := named_of_isStruct plain
  exact ⟨document, digests.symm, made.id.symm.trans (same_textAt document whole _).symm,
    made.subjectId.symm.trans (same_textAt document whole _).symm,
    made.checkKind.symm.trans (same_textAt document whole _).symm, made.catalogDigest,
      made.receiptId⟩

/-- The rows of chosen observations hold them. -/
theorem rows_of_elements {db : Postgres} {digest receiptId : Text} {chosen : List Submitted}
    {stored : List Json}
    {added : List ObservationRow} (rows : List.Forall₂ (RowOf db digest receiptId) stored added)
    (forms : stored.map form = (chosen.map Submitted.json).map form)
    (each : ∀ row ∈ chosen, isPlatformObservation row.document = true ∧
      row.digest = db.contentDigest row.document) :
    List.Forall₂ (StoredAs db digest receiptId) (chosen.map Submitted.document) added := by
  rw [List.map_map] at forms
  induction rows generalizing chosen with
  | nil =>
    rw [List.map_nil, eq_comm, List.map_eq_nil_iff] at forms
    rw [forms]
    exact .nil
  | cons made _ ih =>
    obtain ⟨row, rest, rfl, here, tail⟩ := List.map_eq_cons_iff.mp forms.symm
    have later := ih tail.symm fun other member => each other (List.mem_cons_of_mem _ member)
    obtain ⟨v, d⟩ := row
    obtain ⟨plain, rfl⟩ : isPlatformObservation v = true ∧ d = db.contentDigest v :=
      each ⟨v, d⟩ List.mem_cons_self
    exact .cons (storedAs_of_rowOf plain here made) later

/-- What an accepted batch has written. -/
structure Written (db : Postgres) (definitionDigest : Text) (batch : Json) (receivedAt : ℤ)
    (t u : Tables)
    (result : IngestResult) (documents : List Json) (added : List ObservationRow) : Prop where
  tables : u = { t with
    ingestReceipts := t.ingestReceipts ++ [db.receiptOf definitionDigest batch receivedAt t]
    observations := t.observations ++ added }
  unused : t.receipt? (receiptIdOf batch) = none
  receipt : receiptRow (db.receiptOf definitionDigest batch receivedAt t) = .ok result.toReceipt
  first : result.replayed = false
  chosen : documents = (db.fresh batch t).map Submitted.document
  rows : List.Forall₂ (StoredAs db definitionDigest (receiptIdOf batch)) documents added
  distinct : ((t.observations ++ added).map ObservationRow.id).Nodup
  kinds : ∀ row ∈ added, row.checkKind ∈ checks
  agreed : db.conflicting batch t = false

theorem fresh_spec {db : Postgres} {batch : Json} {t : Tables} {row : Submitted}
    (member : row ∈ db.fresh batch t) :
    row.document ∈ observationsOf batch ∧ row.digest = db.contentDigest row.document := by
  obtain ⟨v, listed, rfl⟩ := List.mem_map.mp (List.mem_of_mem_filter member)
  exact ⟨listed, rfl⟩

theorem accept_spec {db : Postgres} {digest : Text} {batch : Json} {receivedAt : ℤ} {t u : Tables}
    {result : IngestResult} (ok : db.accept digest batch receivedAt t = .ok (result, u))
    (plain : ∀ v ∈ observationsOf batch, isPlatformObservation v = true)
    (distinct : (t.observations.map ObservationRow.id).Nodup) :
    ∃ documents added, Written db digest batch receivedAt t u result documents added := by
  unfold Postgres.accept at ok
  split at ok
  · cases ok
  · rename_i agreed
    simp only [bind_ok, pure_ok, Prod.mk.injEq] at ok
    obtain ⟨m, receipted, stored, held, n, observed, receipt, decoded, rfl, rfl⟩ := ok
    obtain ⟨rfl, unused⟩ := insertReceipt_spec receipted
    obtain ⟨added, rfl, rows, unique, kinds⟩ := insertObservations_spec stored observed distinct
    refine ⟨_, added, rfl, unused, decoded, rfl, rfl, ?_, unique, kinds,
      Bool.eq_false_iff.mpr agreed⟩
    apply rows_of_elements rows (elements_spec held)
    intro row member
    obtain ⟨listed, digested⟩ := fresh_spec member
    exact ⟨plain _ listed, digested⟩

/-- A batch is replayed from its receipt, or written. -/
theorem ingest_spec {db : Postgres} {catalog : Json} {digest : Text} {batch : Json}
    {now receivedAt : ℤ} {t u : Tables}
    {result : IngestResult} (ok : db.ingest catalog digest batch now receivedAt t = .ok (result, u))
    (plain : ∀ v ∈ observationsOf batch, isPlatformObservation v = true)
    (distinct : (t.observations.map ObservationRow.id).Nodup) :
    (∃ previous, t.receipt? (receiptIdOf batch) = some previous ∧
      previous.payloadDigest = db.contentDigest batch ∧
      receiptRow previous = .ok result.toReceipt ∧ u = t) ∨
    observationProblems (.read catalog) ((observationsOf batch).map Observation.read) now = [] ∧
      ∃ documents added, Written db digest batch receivedAt t u result documents added := by
  unfold Postgres.ingest at ok
  split at ok
  · rename_i previous found
    split at ok
    · cases ok
    · rename_i agreed
      rw [bind_ok] at ok
      obtain ⟨receipt, decoded, answered⟩ := ok
      cases pure_ok.mp answered
      exact .inl ⟨previous, found, not_not.mp agreed, decoded, rfl⟩
  · dsimp only at ok
    split at ok
    · cases ok
    · rename_i sound
      exact .inr ⟨not_not.mp sound, accept_spec ok plain distinct⟩

/-- A batch whose receipt is stored is answered from it. -/
theorem ingest_again {db : Postgres} {t : Tables} {batch : Json} {previous : ReceiptRow}
    {receipt : Receipt}
    (found : t.receipt? (receiptIdOf batch) = some previous)
    (agreed : previous.payloadDigest = db.contentDigest batch)
    (decoded : receiptRow previous = .ok receipt) (catalog : Json) (digest : Text)
    (now receivedAt : ℤ) :
    db.ingest catalog digest batch now receivedAt t = .ok
      ({ receipt with replayed := true }, t) := by
  unfold Postgres.ingest
  rw [found]
  dsimp only
  rw [if_neg (not_not.mpr agreed), decoded]
  rfl

end Metahumotonic.Platform
