import Metahumotonic.Platform.Ingest

/-! The ledger of the platform: the tables over any run of imports and appends. -/
namespace Metahumotonic.Platform
open Metahumotonic.Library Json

/-! What stays true while the tables grow. -/

section Growth

variable {t u : Tables}

theorem definition?_of_extends (more : t.Extends u) {digest : Text}
    (known : (t.definition? digest).isSome = true) :
    u.definition? digest = t.definition? digest := by
  obtain ⟨later, grown⟩ := more.catalogVersions
  rw [Tables.definition?, ← grown, List.find?_append]
  exact Option.or_of_isSome known

theorem hasAsset_of_extends (more : t.Extends u) {digest id : Text}
    (held : t.hasAsset digest id = true) :
    u.hasAsset digest id = true := by
  rw [Tables.hasAsset, List.any_eq_true] at held ⊢
  obtain ⟨asset, member, found⟩ := held
  exact ⟨asset, more.assetVersions.subset member, found⟩

theorem receipt?_of_mem (distinct : (t.ingestReceipts.map ReceiptRow.id).Nodup) {row : ReceiptRow}
    (member : row ∈ t.ingestReceipts) : t.receipt? row.id = some row := by
  have known : (t.receipt? row.id).isSome = true :=
    List.find?_isSome.mpr ⟨row, member, decide_eq_true rfl⟩
  obtain ⟨other, found⟩ := Option.isSome_iff_exists.mp known
  have id : other.id = row.id := by
    have held := List.find?_some found
    exact of_decide_eq_true held
  rw [found, List.inj_on_of_nodup_map distinct (List.mem_of_find?_eq_some found) member id]

/-- A catalog that was inserted is inserted again without a change. -/
theorem insertCatalog_again {db : Postgres} {digest : Text} {catalog : Json} {m : Tables}
    (ok : db.insertCatalog digest catalog t = .ok m) (more : m.Extends u) :
    db.insertCatalog digest catalog u = .ok u := by
  obtain ⟨_, _, known, _⟩ := insertCatalog_spec ok
  have still : (u.definition? digest).isSome = true := by rwa [definition?_of_extends more known]
  unfold Postgres.insertCatalog at ok ⊢
  split at ok
  · split at ok
    · rename_i hex
      rw [if_pos hex, if_pos still]
    · cases ok
  · cases ok

theorem insertAsset_again {digest : Text} {x : Json} {m : Tables}
    (ok : Postgres.insertAsset digest t x = .ok m)
    (more : m.Extends u) : Postgres.insertAsset digest u x = .ok u := by
  unfold Postgres.insertAsset at ok ⊢
  split at ok
  · rename_i id _ _ _
    split at ok
    · rename_i checked
      rw [Bool.and_eq_true] at checked
      have before : (m.definition? digest).isSome = true ∧ m.hasAsset digest id = true := by
        split at ok
        · rename_i held
          cases ok
          exact ⟨checked.2, held⟩
        · cases ok
          refine ⟨checked.2, ?_⟩
          rw [Tables.hasAsset, List.any_append, Bool.or_eq_true]
          right
          simp
      have still : (u.definition? digest).isSome = true := by
        rw [definition?_of_extends more before.1]; exact before.1
      rw [checked.1, still, hasAsset_of_extends more before.2]
      rfl
    · cases ok
  · cases ok

end Growth

theorem extends_assets (t : Tables) (added : List AssetVersion) :
    t.Extends { t with assetVersions := t.assetVersions ++ added } :=
  { Tables.Extends.refl t with assetVersions := List.prefix_append _ _ }

theorem insertAssets_again {digest : Text} {t u m : Tables} (nodes : List Json)
    (ok : nodes.foldlM (Postgres.insertAsset digest) t = .ok m) (more : m.Extends u) :
    nodes.foldlM (Postgres.insertAsset digest) u = .ok u := by
  induction nodes generalizing t with
  | nil => rfl
  | cons x rest ih =>
    rw [List.foldlM_cons, bind_ok] at ok ⊢
    obtain ⟨n, first, later⟩ := ok
    obtain ⟨added, grown, -⟩ := insertAssets_spec rest later
    have between : n.Extends m := grown ▸ extends_assets n added
    exact ⟨u, insertAsset_again first (between.trans more), ih later⟩

/-! Calls. -/

/-- The batch of a call, as it is ingested. -/
def Call.batch (db : Postgres) : Call → Json
  | .importCatalog input _ _ => Postgres.catalogBatch (db.contentDigest input) input
  | .append _ input _ _ => input
  | .outage => .null

section Calls

variable {db : Postgres} {t u : Tables} {result : IngestResult} {input : Json} {pinned : Text}
    {now receivedAt : ℤ}

theorem import_cases (ok : db.importPlatformCatalog input now receivedAt t = (.ok result, u)) :
    decodeCatalog input = some input ∧ u.ownersExist = true ∧
      db.importing input now receivedAt t = .ok (result, u) := by
  unfold Postgres.importPlatformCatalog at ok
  split at ok
  · cases ok
  · rename_i catalog decoded
    obtain rfl : input = catalog := (decodeCatalog_iff.mp decoded).2.2
    rcases transaction_cases (db.importing input now receivedAt) t with
      ⟨found, v, done, owned, both⟩ | ⟨failure, both⟩
    · rw [both] at ok
      cases ok
      exact ⟨decoded, owned, done⟩
    · rw [both] at ok
      cases ok

theorem importing_spec (ok : db.importing input now receivedAt t = .ok (result, u)) :
    db.verifyMigration t = .ok () ∧ ∃ c nodes n,
      db.insertCatalog (db.contentDigest input) input t = .ok c ∧
      db.elements (nodesOf input) = .ok nodes ∧
      nodes.foldlM (Postgres.insertAsset (db.contentDigest input)) c = .ok n ∧
      db.ingest input (db.contentDigest input)
        (Postgres.catalogBatch (db.contentDigest input) input) now receivedAt n =
        .ok (result, u) := by
  simp only [Postgres.importing, bind_ok] at ok
  obtain ⟨⟨⟩, verified, c, inserted, nodes, held, n, assets, ingested⟩ := ok
  exact ⟨verified, c, nodes, n, inserted, held, assets, ingested⟩

theorem attempt_ok {A : Type*} {answer : Except Failure A} {a : A}
    (ok : Postgres.attempt answer = .ok a) :
    answer = .ok a := by
  cases answer with
  | ok b => exact ok
  | error failure => cases failure <;> cases ok

theorem append_cases (ok : db.append pinned input now receivedAt t = (.ok result, u)) :
    isObservationBatch input = true ∧ u.ownersExist = true ∧
      ∃ graph, db.definition pinned t = .ok graph ∧
      db.ingest graph pinned input now receivedAt t = .ok (result, u) := by
  unfold Postgres.append at ok
  split at ok
  · rename_i accepted
    obtain ⟨answer, written⟩ := Prod.mk.inj ok
    replace answer := attempt_ok answer
    rcases transaction_cases (db.appending pinned input now receivedAt) t with
      ⟨found, v, done, owned, both⟩ | ⟨failure, both⟩
    · rw [both] at answer written
      cases answer
      cases written
      exact ⟨accepted, owned, bind_ok.mp done⟩
    · rw [both] at answer
      cases answer
  · cases ok

theorem transaction_failed {A : Type*} {operation : Tables → Except Failure (A × Tables)}
    {failure : Failure}
    (failed : (transaction operation t).1 = .error failure) : (transaction operation t).2 = t := by
  rcases transaction_cases operation t with ⟨found, v, -, -, both⟩ | ⟨other, both⟩
  · rw [both] at failed
    cases failed
  · rw [both]

/-- A call that fails has changed nothing. -/
theorem failed_unchanged {call : Call} {failure : Failure}
    (failed : (db.step t call).1 = .error failure) :
    (db.step t call).2 = t := by
  cases call with
  | importCatalog input now receivedAt =>
    simp only [Postgres.step, Postgres.importPlatformCatalog] at failed ⊢
    cases decoded : decodeCatalog input with
    | none => rfl
    | some catalog =>
      rw [decoded] at failed
      exact transaction_failed failed
  | append pinned input now receivedAt =>
    simp only [Postgres.step, Postgres.append] at failed ⊢
    by_cases accepted : isObservationBatch input = true
    · rw [if_pos accepted] at failed ⊢
      cases done : (transaction (db.appending pinned input now receivedAt) t).1 with
      | ok result =>
        dsimp only at failed
        rw [done] at failed
        cases failed
      | error other => exact transaction_failed done
    · rw [if_neg accepted]
  | outage => rfl

end Calls

/-- A call imports a catalog. -/
def Call.Imports (call : Call) (catalog : Json) : Prop :=
  ∃ now receivedAt, call = .importCatalog catalog now receivedAt

/-- The tables when a call comes to its batch: an import has put its catalog in. -/
structure Prepared (db : Postgres) (call : Call) (t m : Tables) : Prop where
  grown : t.Extends m
  ingestReceipts : m.ingestReceipts = t.ingestReceipts
  observations : m.observations = t.observations
  versions : ∀ version ∈ m.catalogVersions, version ∈ t.catalogVersions ∨ ∃ catalog,
    call.Imports catalog ∧
    decodeCatalog catalog = some catalog ∧ Same catalog version.document ∧
      version.digest = db.contentDigest catalog
  assets : ∀ asset ∈ m.assetVersions, asset ∈ t.assetVersions ∨ ∃ catalog, call.Imports catalog ∧
    decodeCatalog catalog = some catalog ∧ asset.catalogDigest = db.contentDigest catalog ∧
    asset.id ∈ (nodesOf catalog).map idOf
  imported : ∀ catalog, call.Imports catalog →
    (m.definition? (db.contentDigest catalog)).isSome = true

section Steps

variable {db : Postgres} {t u : Tables} {result : IngestResult}

theorem ids_congr {items others : List Json} (forms : items.map form = others.map form)
    (accepted : ∀ v ∈ items, isStruct nodeFields v = true) : items.map idOf = others.map idOf :=
  map_congr_form _ (fun _ _ same plain => same_textAt same (named_of_isStruct plain) _)
    forms accepted

theorem prepared_import {input : Json} {now receivedAt : ℤ} {c n : Tables} {nodes : List Json}
    (decoded : decodeCatalog input = some input)
    (inserted : db.insertCatalog (db.contentDigest input) input t = .ok c)
    (held : db.elements (nodesOf input) = .ok nodes)
    (assets : nodes.foldlM (Postgres.insertAsset (db.contentDigest input)) c = .ok n) :
    Prepared db (.importCatalog input now receivedAt) t n := by
  obtain ⟨versions, rfl, known, new⟩ := insertCatalog_spec inserted
  obtain ⟨added, rfl, ofNodes⟩ := insertAssets_spec nodes assets
  have ids : (nodesOf input).map idOf = nodes.map idOf :=
    ids_congr (elements_spec held).symm (catalog_nodes (decodeCatalog_iff.mp decoded).1).1
  have whole : (Call.importCatalog input now receivedAt).Imports input := ⟨now, receivedAt, rfl⟩
  refine ⟨⟨rfl, List.prefix_append _ _, List.prefix_append _ _, List.prefix_refl _,
    List.prefix_refl _⟩, rfl, rfl,
    ?_, ?_, ?_⟩
  · intro version member
    rcases List.mem_append.mp member with old | newer
    · exact .inl old
    · rcases new with rfl | ⟨-, v, rfl, digest, same⟩
      · cases newer
      · obtain rfl := List.mem_singleton.mp newer
        exact .inr ⟨input, whole, decoded, same, digest⟩
  · intro asset member
    rcases List.mem_append.mp member with old | newer
    · exact .inl old
    · obtain ⟨owner, id⟩ := ofNodes asset newer
      exact .inr ⟨input, whole, decoded, owner, ids ▸ id⟩
  · rintro catalog ⟨_, _, equal⟩
    cases equal
    exact known

theorem prepared_append (pinned : Text) (input : Json) (now receivedAt : ℤ) :
    Prepared db (.append pinned input now receivedAt) t t :=
  ⟨.refl t, rfl, rfl, fun _ member => .inl member, fun _ member => .inl member, nofun⟩

/-- An accepted call prepares the tables and ingests its batch. -/
theorem step_spec {call : Call} (ok : db.step t call = (.ok result, u)) :
    db.verifyMigration t = .ok () ∧ u.ownersExist = true ∧
      (∀ v ∈ observationsOf (call.batch db), isPlatformObservation v = true) ∧
      ∃ m catalog digest now receivedAt, Prepared db call t m ∧
        db.ingest catalog digest (call.batch db) now receivedAt m = .ok (result, u) := by
  cases call with
  | importCatalog input now receivedAt =>
    obtain ⟨decoded, owned, done⟩ := import_cases ok
    obtain ⟨verified, c, nodes, n, inserted, held, assets, ingested⟩ := importing_spec done
    exact ⟨verified, owned, (catalog_observations (decodeCatalog_iff.mp decoded).1).1, n, input, _,
      now, receivedAt,
      prepared_import decoded inserted held assets, ingested⟩
  | append pinned input now receivedAt =>
    obtain ⟨accepted, owned, graph, defined, ingested⟩ := append_cases ok
    have verified : db.verifyMigration t = .ok () := by
      obtain ⟨⟨⟩, verified, -⟩ := bind_ok.mp defined
      exact verified
    exact ⟨verified, owned, (batch_observations accepted).1, t, graph, pinned, now, receivedAt,
      prepared_append pinned input now receivedAt, ingested⟩
  | outage => cases ok

end Steps

/-! The invariant. -/

structure Ledger (db : Postgres) (t : Tables) : Prop where
  receipts : (t.ingestReceipts.map ReceiptRow.id).Nodup
  observations : (t.observations.map ObservationRow.id).Nodup
  decodes : ∀ row ∈ t.ingestReceipts, ∃ receipt, receiptRow row = .ok receipt
  counted : ∀ row ∈ t.ingestReceipts, (t.observations.filter fun o => o.receiptId = row.id).length =
    row.insertedCount
  pointed : ∀ o ∈ t.observations, ∃ row ∈ t.ingestReceipts, row.id = o.receiptId
  accounted : (t.ingestReceipts.map ReceiptRow.insertedCount).sum = t.observations.length
  defined : ∀ version ∈ t.catalogVersions, ∃ catalog, decodeCatalog catalog = some catalog ∧
    Same catalog version.document ∧ version.digest = db.contentDigest catalog
  owned : t.ownersExist = true

theorem ledger_migrated (db : Postgres) : Ledger db db.migrated :=
  ⟨List.nodup_nil, List.nodup_nil, nofun, nofun, nofun, rfl, nofun, rfl⟩

section Invariant

variable {db : Postgres} {t u m : Tables} {result : IngestResult}

theorem unused_iff {id : Text} : t.receipt? id = none ↔ ∀ row ∈ t.ingestReceipts, row.id ≠ id := by
  rw [Tables.receipt?, List.find?_eq_none]
  simp only [decide_eq_true_eq]

/-- A new receipt keeps the accounts. -/
theorem ledger_written {digest : Text} {batch : Json} {receivedAt : ℤ} {documents : List Json}
    {added : List ObservationRow} (held : Ledger db t)
    (written : Written db digest batch receivedAt t u result documents added)
    (owned : u.ownersExist = true) : Ledger db u := by
  have size : added.length = (db.receiptOf digest batch receivedAt t).insertedCount := by
    rw [← written.rows.length_eq, written.chosen, List.length_map]
    rfl
  have mine : ∀ row ∈ added, row.receiptId = receiptIdOf batch := by
    intro row member
    obtain ⟨v, -, stored⟩ := forall₂_left written.rows member
    exact stored.receiptId
  have fresh := unused_iff.mp written.unused
  obtain rfl := written.tables
  refine ⟨?_, written.distinct, ?_, ?_, ?_, ?_, held.defined, owned⟩
  · dsimp only
    rw [List.map_append, List.nodup_append]
    refine ⟨held.receipts, List.nodup_singleton _, ?_⟩
    intro a here b there
    obtain ⟨row, member, rfl⟩ := List.mem_map.mp here
    obtain rfl : b = receiptIdOf batch := List.mem_singleton.mp there
    exact fresh row member
  · intro row member
    rcases List.mem_append.mp member with old | new
    · exact held.decodes row old
    · obtain rfl := List.mem_singleton.mp new
      exact ⟨_, written.receipt⟩
  · intro row member
    dsimp only
    rw [List.filter_append, List.length_append]
    rcases List.mem_append.mp member with old | new
    · have none : added.filter (fun o => o.receiptId = row.id) = [] := by
        rw [List.filter_eq_nil_iff]
        intro o here
        rw [decide_eq_true_eq, mine o here]
        exact fun same => fresh row old same.symm
      rw [none, held.counted row old]
      rfl
    · obtain rfl := List.mem_singleton.mp new
      have none : t.observations.filter (fun o => o.receiptId = receiptIdOf batch) = [] := by
        rw [List.filter_eq_nil_iff]
        intro o here
        obtain ⟨row, receipted, same⟩ := held.pointed o here
        rw [decide_eq_true_eq, ← same]
        exact fresh row receipted
      have every : added.filter (fun o => o.receiptId = receiptIdOf batch) = added := by
        rw [List.filter_eq_self]
        intro o here
        exact decide_eq_true (mine o here)
      have id : (db.receiptOf digest batch receivedAt t).id = receiptIdOf batch := rfl
      rw [id, none, every, size]
      exact Nat.zero_add _
  · intro o member
    rcases List.mem_append.mp member with old | new
    · obtain ⟨row, receipted, same⟩ := held.pointed o old
      exact ⟨row, List.mem_append_left _ receipted, same⟩
    · exact ⟨_, List.mem_append_right _ (List.mem_singleton.mpr rfl), (mine o new).symm⟩
  · dsimp only
    rw [List.map_append, List.sum_append, held.accounted, List.length_append, size]
    rfl

/-- The preparation of a call keeps the accounts. -/
theorem ledger_prepared {call : Call} (held : Ledger db t) (prepared : Prepared db call t m)
    (owned : m.ownersExist = true) : Ledger db m where
  receipts := by rw [prepared.ingestReceipts]; exact held.receipts
  observations := by rw [prepared.observations]; exact held.observations
  decodes := by rw [prepared.ingestReceipts]; exact held.decodes
  counted := by rw [prepared.ingestReceipts, prepared.observations]; exact held.counted
  pointed := by rw [prepared.ingestReceipts, prepared.observations]; exact held.pointed
  accounted := by rw [prepared.ingestReceipts, prepared.observations]; exact held.accounted
  defined := by
    intro version member
    rcases prepared.versions version member with old | ⟨catalog, -, decoded, same, digest⟩
    · exact held.defined version old
    · exact ⟨catalog, decoded, same, digest⟩
  owned := owned

end Invariant

end Metahumotonic.Platform
