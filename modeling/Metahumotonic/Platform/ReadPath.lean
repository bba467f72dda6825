import Mathlib.Data.List.Induction
import Mathlib.Data.List.ProdSigma
import Metahumotonic.Platform.Canonical
import Metahumotonic.Platform.ExactlyOnce

/-! What ingest accepts, the read path accepts again. -/
namespace Metahumotonic.Platform
open Metahumotonic.Library Json

/-! Times. -/

theorem isObservationTime_parts {s : Text} (accepted : isObservationTime s = true) :
    IsoDate.shaped timeMask (s.take 19) = true ∧ IsoDate.dateParse s = some (timeOf s) ∧
      (IsoDate.toISOString (timeOf s)).take 19 = s.take 19 := by
  simp only [isObservationTime, Bool.and_eq_true, Option.any_eq_true, beq_iff_eq] at accepted
  obtain ⟨⟨shape, -⟩, t, parsed, same⟩ := accepted
  have time : timeOf s = t := by rw [timeOf, parsed, Option.getD_some]
  rw [time]
  exact ⟨shape, parsed, same⟩

theorem head_of_shaped {s : Text} (shape : IsoDate.shaped timeMask s = true) :
    ∀ c ∈ s.head?, isDigit c = true := by
  cases s with
  | nil => nofun
  | cons c rest =>
    intro d first
    cases first
    simp only [IsoDate.shaped, timeMask, List.cons_append, List.zipWith_cons_cons, List.all_cons,
      Bool.and_eq_true] at shape
    exact shape.2.1

theorem isTimeTail_milliseconds (month date ms : ℕ) :
    isTimeTail ((IsoDate.timeText month date ms).drop 15) = true := by
  have digit : ∀ k, isDigit (48 + k % 10) = true :=
    fun k => IsoDate.isDigit_add (Nat.mod_lt _ (by decide))
  have dropped : (IsoDate.timeText month date ms).drop 15 = 46 ::
      (IsoDate.pad3 (ms % 1000) ++ [90]) := rfl
  have digits : (IsoDate.pad3 (ms % 1000) ++ [90]).takeWhile isDigit = IsoDate.pad3
      (ms % 1000) := by
    have stop : isDigit 90 = false := rfl
    simp only [IsoDate.pad3, List.cons_append, List.nil_append, List.takeWhile_cons, digit, stop,
      if_true, if_false,
      Bool.false_eq_true]
  rw [dropped, isTimeTail, if_pos (List.head?_cons ..)]
  simp only [List.drop_succ_cons, List.drop_zero, digits]
  rfl

/-- A time that was accepted is accepted as `toISOString` writes it. -/
theorem isObservationTime_toISOString {s : Text} (accepted : isObservationTime s = true) :
    isObservationTime (IsoDate.toISOString (timeOf s)) = true ∧
      timeOf (IsoDate.toISOString (timeOf s)) = timeOf s := by
  obtain ⟨shape, parsed, same⟩ := isObservationTime_parts accepted
  obtain ⟨low, high⟩ := IsoDate.dateParse_bounds parsed
  have again := IsoDate.dateParse_toISOString low high
  have digit : ∀ c ∈ (IsoDate.toISOString (timeOf s)).head?, isDigit c = true := by
    intro c first
    apply head_of_shaped shape
    rw [← same, List.head?_take, if_neg (by decide)]
    exact first
  obtain ⟨year, month, date, ms, written⟩ := IsoDate.toISOString_plain digit
  have tail : (IsoDate.toISOString (timeOf s)).drop 19 =
      (IsoDate.timeText month date ms).drop 15 := by
    rw [written]
    rfl
  constructor
  · rw [isObservationTime, same, shape, tail, isTimeTail_milliseconds, again]
    simp only [Bool.true_and, Option.any_some, same, beq_self_eq_true]
  · rw [timeOf, again, Option.getD_some]

theorem foldl_max (times : List ℤ) (first : ℤ) :
    (times.foldl max first = first ∨ times.foldl max first ∈ times) ∧
      first ≤ times.foldl max first ∧
      ∀ t ∈ times, t ≤ times.foldl max first := by
  induction times generalizing first with
  | nil => exact ⟨.inl rfl, le_refl _, nofun⟩
  | cons t rest ih =>
    obtain ⟨reached, above, all⟩ := ih (max first t)
    rw [List.foldl_cons]
    refine ⟨?_, (le_max_left _ _).trans above, ?_⟩
    · rcases reached with here | there
      · rcases le_total t first with lower | higher
        · exact .inl (here.trans (max_eq_left lower))
        · exact .inr (List.mem_cons.mpr (.inl (here.trans (max_eq_right higher))))
      · exact .inr (List.mem_cons_of_mem _ there)
    · intro u member
      rcases List.mem_cons.mp member with rfl | later
      · exact (le_max_right _ _).trans above
      · exact all u later

/-! The rows that are read. -/

def groupOf (row : ObservationRow) : Text × Text := (row.subjectId, row.checkKind)

theorem distinctOn_spec (rows : List ObservationRow) :
    (Postgres.distinctOn rows).Sublist rows ∧ ((Postgres.distinctOn rows).map groupOf).Nodup := by
  let keep := fun (kept : List ObservationRow) (row : ObservationRow) =>
    if kept.any fun old => old.subjectId == row.subjectId && old.checkKind == row.checkKind
      then kept else kept ++ [row]
  have run : ∀ (later kept : List ObservationRow), (kept.map groupOf).Nodup →
      ∃ sub, sub.Sublist later ∧ later.foldl keep kept = kept ++ sub ∧
        ((kept ++ sub).map groupOf).Nodup := by
    intro later
    induction later with
    | nil =>
      intro kept distinct
      exact ⟨[], .slnil, (List.append_nil _).symm, by rwa [List.append_nil]⟩
    | cons row rest ih =>
      intro kept distinct
      rw [List.foldl_cons]
      by_cases known : (kept.any fun old => old.subjectId == row.subjectId && old.checkKind ==
        row.checkKind) = true
      · obtain ⟨sub, below, grown, still⟩ := ih kept distinct
        refine ⟨sub, below.cons row, ?_, still⟩
        rw [← grown]
        simp only [keep, if_pos known]
      · have longer : ((kept ++ [row]).map groupOf).Nodup := by
          rw [List.map_append, List.nodup_append]
          refine ⟨distinct, List.nodup_singleton _, ?_⟩
          intro a here b there
          obtain ⟨old, member, rfl⟩ := List.mem_map.mp here
          obtain rfl : b = groupOf row := List.mem_singleton.mp there
          intro same
          apply known
          obtain ⟨subject, check⟩ := Prod.mk.inj same
          rw [List.any_eq_true]
          exact ⟨old, member, by rw [subject, check, beq_self_eq_true, beq_self_eq_true]; rfl⟩
        obtain ⟨sub, below, grown, still⟩ := ih (kept ++ [row]) longer
        refine ⟨row :: sub, below.cons_cons row, ?_, ?_⟩
        · simp only [keep, if_neg known]
          rw [List.append_assoc, List.singleton_append] at grown
          exact grown
        · rwa [List.append_assoc, List.singleton_append] at still
  obtain ⟨sub, below, grown, distinct⟩ := run rows [] List.nodup_nil
  have whole : Postgres.distinctOn rows = sub := grown
  rw [whole]
  exact ⟨below, distinct⟩

/-! Problems. -/

theorem withEarlier_nil {α : Type*} {problems : List α → α → List Text} {items : List α} :
    withEarlier problems items = [] ↔ ∀ before x after, items = before ++ x :: after →
      problems before x = [] := by
  rw [withEarlier, List.flatMap_eq_nil_iff]
  constructor
  · intro none before x after split
    have listed : (x, before.length) ∈ items.zipIdx := by
      rw [List.mk_mem_zipIdx_iff_getElem?, split, List.getElem?_append_right (le_refl _),
        Nat.sub_self]
      rfl
    have found := none _ listed
    rwa [split, List.take_left] at found
  · rintro none ⟨x, i⟩ listed
    rw [List.mk_mem_zipIdx_iff_getElem?] at listed
    obtain ⟨small, rfl⟩ := List.getElem?_eq_some_iff.mp listed
    apply none _ _ (items.drop (i + 1))
    rw [← List.drop_eq_getElem_cons small, List.take_append_drop]

/-- An ingested observation expires after it was made. -/
theorem expiry_of_ingested {catalog : Catalog} {observations : List Observation} {now : ℤ}
    (sound : observationProblems catalog observations now = []) {o : Observation}
    (member : o ∈ observations) :
    timeOf o.observedAt < timeOf o.expiresAt := by
  obtain ⟨before, after, split⟩ := List.append_of_mem member
  have none := withEarlier_nil.mp sound before o after split
  simp only [batchProblems, List.append_eq_nil_iff, ite_eq_right_iff, List.cons_ne_nil, imp_false,
    not_le] at none
  exact none.2

section Graphs

variable {g h : Catalog}

theorem nodeProblems_congr (nodes : g.nodes = h.nodes) (edges : g.edges = h.edges) :
    g.nodeProblems = h.nodeProblems := by
  obtain ⟨_, n, e, _⟩ := g
  obtain ⟨_, m, f, _⟩ := h
  obtain rfl : n = m := nodes
  obtain rfl : e = f := edges
  rfl

theorem edgeProblems_congr (nodes : g.nodes = h.nodes) (edges : g.edges = h.edges) :
    g.edgeProblems = h.edgeProblems := by
  obtain ⟨_, n, e, _⟩ := g
  obtain ⟨_, m, f, _⟩ := h
  obtain rfl : n = m := nodes
  obtain rfl : e = f := edges
  rfl

theorem visit_congr (edges : g.edges = h.edges) (fuel : ℕ) : g.visit fuel = h.visit fuel := by
  induction fuel with
  | zero => rfl
  | succ fuel ih =>
    funext id walk
    simp only [Catalog.visit, Catalog.dependencies, edges, ih]

theorem cycleProblems_congr (nodes : g.nodes = h.nodes) (edges : g.edges = h.edges) :
    g.cycleProblems = h.cycleProblems := by
  simp only [Catalog.cycleProblems, nodes, edges, visit_congr edges]

/-- Other observations of a sound graph leave it sound, when they are sound themselves. -/
theorem graphProblems_of_observations (nodes : g.nodes = h.nodes) (edges : g.edges = h.edges)
    (sound : graphProblems g = []) (distinct : (h.observations.map Observation.id).Nodup)
    (each : ∀ o ∈ h.observations, h.has o.subjectId = true ∧
      timeOf o.observedAt < timeOf o.expiresAt ∧
      timeOf o.observedAt ≤ timeOf h.observedAt) : graphProblems h = [] := by
  have observed : withEarlier h.observationProblems h.observations = [] := by
    rw [withEarlier_nil]
    intro before o after split
    have member : o ∈ h.observations := split ▸ List.mem_append_right _ List.mem_cons_self
    obtain ⟨known, expiry, older⟩ := each o member
    have fresh : o.id ∉ before.map Observation.id := by
      rw [split, List.map_append, List.map_cons, List.nodup_append] at distinct
      intro here
      exact distinct.2.2 _ here _ List.mem_cons_self rfl
    rw [Catalog.observationProblems, if_neg fresh, if_pos known, if_neg (not_le.mpr expiry),
      if_neg (not_lt.mpr older)]
    rfl
  simp only [graphProblems, List.append_eq_nil_iff] at sound ⊢
  obtain ⟨⟨⟨nodesSound, edgesSound⟩, acyclic⟩, -⟩ := sound
  rw [← nodeProblems_congr nodes edges, ← edgeProblems_congr nodes edges,
    ← cycleProblems_congr nodes edges,
    ← nodes, ← edges]
  exact ⟨⟨⟨nodesSound, edgesSound⟩, acyclic⟩, observed⟩

end Graphs

/-! Histories. -/

/-- A stored observation agrees with its document, and would be accepted again. -/
structure SoundRow (row : ObservationRow) : Prop where
  accepted : isPlatformObservation row.document = true
  id : row.id = idOf row.document
  subjectId : row.subjectId = subjectIdOf row.document
  kind : row.checkKind ∈ checks
  expiry : timeOf (observedAtOf row.document) < timeOf (expiresAtOf row.document)

/-- What the tables hold was imported and ingested by the calls. -/
structure Sound (db : Postgres) (calls : List Call) (t : Tables) : Prop where
  versions : ∀ version ∈ t.catalogVersions, ∃ call ∈ calls, ∃ catalog, call.Imports catalog ∧
    decodeCatalog catalog = some catalog ∧ Same catalog version.document ∧
      version.digest = db.contentDigest catalog
  assets : ∀ asset ∈ t.assetVersions, ∃ call ∈ calls, ∃ catalog, call.Imports catalog ∧
    decodeCatalog catalog = some catalog ∧ asset.catalogDigest = db.contentDigest catalog ∧
    asset.id ∈ (nodesOf catalog).map idOf
  rows : ∀ row ∈ t.observations, SoundRow row

theorem soundRow_of_storedAs {db : Postgres} {digest receiptId : Text} {v : Json}
    {row : ObservationRow}
    (stored : StoredAs db digest receiptId v row) (accepted : isPlatformObservation v = true)
    (kind : row.checkKind ∈ checks) (expiry : timeOf (observedAtOf v) < timeOf (expiresAtOf v)) :
    SoundRow row := by
  have whole := named_of_isStruct accepted
  refine ⟨(respects_isPlatformObservation _ _ stored.document).symm.trans accepted, ?_,
    ?_, kind, ?_⟩
  · rw [stored.id]
    exact same_textAt stored.document whole _
  · rw [stored.subjectId]
    exact same_textAt stored.document whole _
  · rw [observedAtOf, expiresAtOf, ← same_textAt stored.document whole,
      ← same_textAt stored.document whole]
    exact expiry

section Run

variable {db : Postgres} {t u m : Tables} {calls : List Call} {call : Call} {result : IngestResult}

theorem sound_migrated (db : Postgres) : Sound db [] db.migrated := ⟨nofun, nofun, nofun⟩

theorem sound_later (held : Sound db calls t) (call : Call) : Sound db (calls ++ [call]) t where
  versions version member := by
    obtain ⟨earlier, listed, rest⟩ := held.versions version member
    exact ⟨earlier, List.mem_append_left _ listed, rest⟩
  assets asset member := by
    obtain ⟨earlier, listed, rest⟩ := held.assets asset member
    exact ⟨earlier, List.mem_append_left _ listed, rest⟩
  rows := held.rows

theorem sound_prepared (held : Sound db calls t) (prepared : Prepared db call t m) :
    Sound db (calls ++ [call]) m where
  versions version member := by
    rcases prepared.versions version member with old | ⟨catalog, new⟩
    · exact (sound_later held call).versions version old
    · exact ⟨call, List.mem_append_right _ (List.mem_singleton.mpr rfl), catalog, new⟩
  assets asset member := by
    rcases prepared.assets asset member with old | ⟨catalog, new⟩
    · exact (sound_later held call).assets asset old
    · exact ⟨call, List.mem_append_right _ (List.mem_singleton.mpr rfl), catalog, new⟩
  rows := by
    rw [prepared.observations]
    exact held.rows

theorem sound_written {catalog batch : Json} {digest : Text} {now receivedAt : ℤ}
    {documents : List Json}
    {added : List ObservationRow} (held : Sound db calls m)
    (plain : ∀ v ∈ observationsOf batch, isPlatformObservation v = true)
    (sound : observationProblems (.read catalog)
      ((observationsOf batch).map Observation.read) now = [])
    (written : Written db digest batch receivedAt m u result documents added) :
    Sound db calls u := by
  have rows : ∀ row ∈ added, SoundRow row := by
    intro row member
    obtain ⟨v, chosen, stored⟩ := forall₂_left written.rows member
    rw [written.chosen] at chosen
    obtain ⟨submitted, fresh, rfl⟩ := List.mem_map.mp chosen
    have listed := (fresh_spec fresh).1
    exact soundRow_of_storedAs stored (plain _ listed) (written.kinds row member)
      (expiry_of_ingested sound (List.mem_map_of_mem listed))
  obtain rfl := written.tables
  refine ⟨held.versions, held.assets, ?_⟩
  intro row member
  rcases List.mem_append.mp member with old | new
  · exact held.rows row old
  · exact rows row new

theorem step_sound (ledger : Ledger db t) (held : Sound db calls t) (call : Call) :
    Sound db (calls ++ [call]) (db.step t call).2 := by
  rcases done : db.step t call with ⟨answer, u⟩
  cases answer with
  | error failure =>
    have unchanged : (db.step t call).2 = t := failed_unchanged (by rw [done])
    rw [done] at unchanged
    rw [unchanged]
    exact sound_later held call
  | ok result =>
    obtain ⟨-, -, plain, m, catalog, digest, now, receivedAt, prepared, ingested⟩ := step_spec done
    have distinct : (m.observations.map ObservationRow.id).Nodup := by
      rw [prepared.observations]
      exact ledger.observations
    rcases ingest_spec ingested plain distinct with
      ⟨-, -, -, -, rfl⟩ | ⟨sound, documents, added, written⟩
    · exact sound_prepared held prepared
    · exact sound_written (sound_prepared held prepared) plain sound written

theorem after_sound (db : Postgres) (calls : List Call) : Sound db calls (db.after calls) := by
  induction calls using List.reverseRecOn with
  | nil => exact sound_migrated db
  | append_singleton before call ih =>
    rw [after_snoc]
    exact step_sound (after_ledger db before) ih call

end Run

/-- No two of the catalogs that the calls import have one digest. -/
def CollisionFree (db : Postgres) (calls : List Call) : Prop :=
  ∀ one ∈ calls, ∀ other ∈ calls, ∀ v w, one.Imports v → other.Imports w →
    db.sha256 (canonicalJson v) = db.sha256 (canonicalJson w) → canonicalJson v = canonicalJson w

/-- The assets of a definition are its nodes. -/
theorem asset_is_node {db : Postgres} {calls : List Call} {t : Tables}
    (free : CollisionFree db calls)
    (held : Sound db calls t) {version : CatalogVersion}
    (stored : version ∈ t.catalogVersions) {id : Text}
    (asset : t.hasAsset version.digest id = true) : id ∈ (nodesOf version.document).map idOf := by
  obtain ⟨row, member, found⟩ := List.any_eq_true.mp asset
  rw [Bool.and_eq_true, beq_iff_eq, beq_iff_eq] at found
  obtain ⟨one, here, v, importsV, decodedV, sameV, digestV⟩ := held.versions version stored
  obtain ⟨other, there, w, importsW, decodedW, digestW, listed⟩ := held.assets row member
  obtain ⟨acceptedV, -, -⟩ := decodeCatalog_iff.mp decodedV
  obtain ⟨acceptedW, -, -⟩ := decodeCatalog_iff.mp decodedW
  have one_text := free one here other there v w importsV importsW (by
    rw [show db.sha256 (canonicalJson v) = version.digest from digestV.symm, ← found.1, digestW]
    rfl)
  have same : Same w version.document :=
    (same_of_canonicalJson (textual_isPlatformCatalog w acceptedW)
      (textual_isPlatformCatalog v acceptedV)
      one_text.symm).trans sameV
  have ids : (nodesOf w).map idOf = (nodesOf version.document).map idOf :=
    ids_congr (same_itemsAt same (named_of_isStruct acceptedW) _) (catalog_nodes acceptedW).1
  rw [← ids, ← found.2]
  exact listed

/-! The merged catalog. -/

theorem observedAt_accepted {v : Json} (accepted : isPlatformObservation v = true) :
    isObservationTime (observedAtOf v) = true := by
  have listed : required (lit "observedAt") (isText isObservationTime) ∈ observationFields := by
    simp [observationFields]
  exact (textAt_of_isStruct observation_distinct accepted listed).2

/-- The time of a merged catalog is one of the times that it covers. -/
theorem merged_time {graph : Json} {documents : List Json}
    (accepted : isPlatformCatalog graph = true)
    (each : ∀ v ∈ documents, isPlatformObservation v = true) :
    ∃ s, isObservationTime s = true ∧
      (documents.map fun v => timeOf (observedAtOf v)).foldl max (timeOf (observedAtOf graph)) =
        timeOf s := by
  rcases (foldl_max (documents.map fun v => timeOf (observedAtOf v))
    (timeOf (observedAtOf graph))).1 with own | later
  · have listed : required (lit "observedAt") (isText isObservationTime) ∈ catalogFields := by
      simp [catalogFields]
    exact ⟨_, (textAt_of_isStruct catalog_distinct accepted listed).2, own⟩
  · obtain ⟨v, member, time⟩ := List.mem_map.mp later
    exact ⟨_, observedAt_accepted (each v member), time.symm⟩

theorem itemsAt_put_self {v : Json} (plain : v.named = true) (k : Text) (items : List Json) :
    (v.put k (.array items)).itemsAt k = items := by
  rw [itemsAt, get_put_self plain]

theorem textAt_put_self {v : Json} (plain : v.named = true) (k s : Text) :
    (v.put k (.text s)).textAt k = s := by
  rw [textAt, get_put_self plain]

/-- The catalog with the latest observations is accepted. -/
theorem merged_accepted {graph : Json} {documents : List Json}
    (decoded : decodeCatalog graph = some graph)
    (few : documents.length ≤ 10000) (distinct : (documents.map idOf).Nodup)
    (each : ∀ v ∈ documents, isPlatformObservation v = true ∧
      subjectIdOf v ∈ (nodesOf graph).map idOf ∧
      timeOf (observedAtOf v) < timeOf (expiresAtOf v)) :
    decodeCatalog (Postgres.merged graph documents) = some (Postgres.merged graph documents) := by
  obtain ⟨accepted, sound, -⟩ := decodeCatalog_iff.mp decoded
  obtain ⟨s, plain, reached⟩ := merged_time accepted fun v member => (each v member).1
  obtain ⟨again, time⟩ := isObservationTime_toISOString plain
  obtain ⟨-, -, latest⟩ := foldl_max (documents.map fun v => timeOf (observedAtOf v))
    (timeOf (observedAtOf graph))
  have timed : required (lit "observedAt") (isText isObservationTime) ∈ catalogFields := by
    simp [catalogFields]
  have observed : Json.optional (lit "observations") (isArray 0 10000 isPlatformObservation) ∈
      catalogFields := by
    simp [catalogFields]
  have first : isPlatformCatalog
      (graph.put (lit "observedAt") (.text (IsoDate.toISOString (timeOf s)))) = true :=
    isStruct_put accepted timed again
  have named := named_of_isStruct first
  have whole : Postgres.merged graph documents =
      (graph.put (lit "observedAt") (.text (IsoDate.toISOString (timeOf s)))).put
      (lit "observations")
        (.array documents) := by
    rw [Postgres.merged, reached]
  rw [reached] at latest
  have nodes : nodesOf (Postgres.merged graph documents) = nodesOf graph := by
    rw [whole, nodesOf, itemsAt_put_other named (by decide),
      itemsAt_put_other (named_of_isStruct accepted) (by decide)]
    rfl
  have edges : edgesOf (Postgres.merged graph documents) = edgesOf graph := by
    rw [whole, edgesOf, itemsAt_put_other named (by decide),
      itemsAt_put_other (named_of_isStruct accepted) (by decide)]
    rfl
  have observations : observationsOf (Postgres.merged graph documents) = documents := by
    rw [whole]
    exact itemsAt_put_self named _ _
  have observedAt : observedAtOf (Postgres.merged graph documents) = IsoDate.toISOString
      (timeOf s) := by
    rw [whole, observedAtOf, textAt_put_other named (by decide)]
    exact textAt_put_self (named_of_isStruct accepted) _ _
  refine decodeCatalog_iff.mpr ⟨?_, ?_, rfl⟩
  · rw [whole]
    apply isStruct_put first observed
    simp only [Json.optional, isArray, Bool.and_eq_true, decide_eq_true_eq, List.all_eq_true]
    exact ⟨⟨Nat.zero_le _, few⟩, fun v member => (each v member).1⟩
  · apply graphProblems_of_observations (g := .read graph) _ _ sound
    · rw [Catalog.read, observations, List.map_map]
      exact distinct
    · intro o member
      simp only [Catalog.read, observations] at member
      obtain ⟨v, listed, rfl⟩ := List.mem_map.mp member
      obtain ⟨-, subject, expiry⟩ := each v listed
      refine ⟨?_, expiry, ?_⟩
      · obtain ⟨node, known, id⟩ := List.mem_map.mp subject
        rw [Catalog.has, List.any_eq_true]
        exact ⟨Node.read node, by rw [Catalog.read, nodes]; exact List.mem_map_of_mem known,
          decide_eq_true id⟩
      · rw [Catalog.read, observedAt, time]
        exact latest _ (List.mem_map_of_mem listed)
    · rw [Catalog.read, Catalog.read, nodes]
    · rw [Catalog.read, Catalog.read, edges]

/-! The read. -/

section Reads

variable {db : Postgres} {calls : List Call}

theorem latest_spec (db : Postgres) (pinned : Text) (t : Tables) :
    (∀ row ∈ db.latest pinned t, row ∈ t.observations ∧ t.hasAsset pinned row.subjectId = true) ∧
      ((db.latest pinned t).map groupOf).Nodup ∧
      ((t.observations.map ObservationRow.id).Nodup →
        ((db.latest pinned t).map ObservationRow.id).Nodup) := by
  have sorted := List.perm_insertionSort db.ordered
    (t.observations.filter fun row => t.hasAsset pinned row.subjectId)
  obtain ⟨below, groups⟩ := distinctOn_spec
    ((t.observations.filter fun row => t.hasAsset pinned row.subjectId).insertionSort db.ordered)
  refine ⟨?_, groups, ?_⟩
  · intro row member
    exact List.mem_filter.mp (sorted.mem_iff.mp (below.subset member))
  · intro distinct
    have filtered : ((t.observations.filter fun row => t.hasAsset pinned row.subjectId).map
        ObservationRow.id).Nodup :=
      distinct.sublist (List.filter_sublist.map ObservationRow.id)
    exact ((sorted.map ObservationRow.id).nodup_iff.mpr filtered).sublist (below.map _)

/-- There are at most five groups for each node. -/
theorem latest_few {pinned : Text} {t : Tables} {subjects : List Text}
    (few : subjects.length ≤ 2000)
    (known : ∀ row ∈ db.latest pinned t, row.subjectId ∈ subjects ∧ row.checkKind ∈ checks) :
    (db.latest pinned t).length ≤ 10000 := by
  have inside : (db.latest pinned t).map groupOf ⊆ subjects ×ˢ checks := by
    intro group member
    obtain ⟨row, listed, rfl⟩ := List.mem_map.mp member
    exact List.pair_mem_product.mpr (known row listed)
  have bounded := (List.subperm_of_subset (latest_spec db pinned t).2.1 inside).length_le
  have five : checks.length = 5 := rfl
  rw [List.length_map, List.length_product, five] at bounded
  omega

/-- The tables of a run give back a definition and its latest observations as they were accepted. -/
structure Readable (db : Postgres) (pinned : Text) (t : Tables) (graph : Json) : Prop where
  defined : db.definition pinned t = .ok graph
  redigest : db.contentDigest graph = pinned
  rows : ∀ row ∈ db.latest pinned t, isPlatformObservation row.document = true
  assembled : decodeCatalog
    (Postgres.merged graph ((db.latest pinned t).map ObservationRow.document)) =
    some (Postgres.merged graph ((db.latest pinned t).map ObservationRow.document))

theorem readable_of_defined (free : CollisionFree db calls) {pinned : Text}
    (verified : db.verifyMigration (db.after calls) = .ok ())
    (known : ((db.after calls).definition? pinned).isSome = true) :
    ∃ graph, Readable db pinned (db.after calls) graph := by
  have ledger := after_ledger db calls
  have sound := after_sound db calls
  obtain ⟨version, stored, digest, redigest, decoded, defined⟩ :=
    definition_again ledger verified known
  obtain ⟨rows, -, distinct⟩ := latest_spec db pinned (db.after calls)
  have ofGraph : ∀ row ∈ db.latest pinned (db.after calls),
      row.subjectId ∈ (nodesOf version.document).map idOf := by
    intro row member
    apply asset_is_node free sound stored
    rw [digest]
    exact (rows row member).2
  have plain : ∀ row ∈ db.latest pinned (db.after calls), SoundRow row := fun row member =>
    sound.rows row (rows row member).1
  refine ⟨version.document, defined, redigest, fun row member => (plain row member).accepted, ?_⟩
  apply merged_accepted decoded
  · rw [List.length_map]
    have few : ((nodesOf version.document).map idOf).length ≤ 2000 := by
      rw [List.length_map]
      exact (catalog_nodes (decodeCatalog_iff.mp decoded).1).2
    exact latest_few few fun row member => ⟨ofGraph row member, (plain row member).kind⟩
  · have ids : ((db.latest pinned (db.after calls)).map ObservationRow.document).map idOf =
        (db.latest pinned (db.after calls)).map ObservationRow.id := by
      rw [List.map_map]
      exact List.map_congr_left fun row member => (plain row member).id.symm
    rw [ids]
    exact distinct ledger.observations
  · intro v member
    obtain ⟨row, listed, rfl⟩ := List.mem_map.mp member
    refine ⟨(plain row listed).accepted, ?_, (plain row listed).expiry⟩
    rw [← (plain row listed).subjectId]
    exact ofGraph row listed

/-- A readable definition is read. -/
theorem read_of_readable {pinned : Text} {t : Tables} {graph : Json}
    (readable : Readable db pinned t graph) :
    ∃ snapshot, db.read pinned t = .ok snapshot ∧ snapshot.definitionDigest = pinned ∧
      snapshot.catalog = Postgres.merged graph
        ((db.latest pinned t).map ObservationRow.document) := by
  have rows : ((db.latest pinned t).map ObservationRow.document).all
      isPlatformObservation = true := by
    rw [List.all_eq_true]
    intro v member
    obtain ⟨row, listed, rfl⟩ := List.mem_map.mp member
    exact readable.rows row listed
  let catalog := Postgres.merged graph ((db.latest pinned t).map ObservationRow.document)
  refine ⟨⟨catalog, db.contentDigest catalog, pinned⟩, ?_, rfl, rfl⟩
  rw [Postgres.read, Postgres.reading, readable.defined]
  simp only [bind, Except.bind, rows, if_true, readable.assembled]
  rfl

/-- After any run, every definition that a call has imported is read. -/
theorem imported_is_read (free : CollisionFree db calls) {before after : List Call} {catalog : Json}
    {now receivedAt : ℤ} {result : IngestResult}
    (run : calls = before ++ .importCatalog catalog now receivedAt :: after)
    (imported : (db.step (db.after before) (.importCatalog catalog now receivedAt)).1 =
      .ok result) :
    ∃ graph snapshot, Readable db (db.contentDigest catalog) (db.after calls) graph ∧
      db.read (db.contentDigest catalog) (db.after calls) = .ok snapshot ∧
      snapshot.definitionDigest = db.contentDigest catalog ∧
      snapshot.catalog = Postgres.merged graph
        ((db.latest (db.contentDigest catalog) (db.after calls)).map ObservationRow.document) := by
  have accepted := step_accepted (after_ledger db before) (Prod.ext imported rfl)
  have whole : calls = (before ++ [.importCatalog catalog now receivedAt]) ++ after := by
    rw [run, List.append_assoc, List.singleton_append]
  have more := after_extends db (before ++ [.importCatalog catalog now receivedAt]) after
  rw [← whole, after_snoc] at more
  have verified : db.verifyMigration (db.after calls) = .ok () := by
    rw [← accepted.verified, Postgres.verifyMigration, Postgres.verifyMigration,
      (accepted.grown.trans more).schemaMigrations]
  have inserted := accepted.imported catalog ⟨now, receivedAt, rfl⟩
  have known : ((db.after calls).definition? (db.contentDigest catalog)).isSome = true := by
    rw [definition?_of_extends more inserted]
    exact inserted
  obtain ⟨graph, readable⟩ := readable_of_defined free verified known
  obtain ⟨snapshot, read, digest, merged⟩ := read_of_readable readable
  exact ⟨graph, snapshot, readable, read, digest, merged⟩

theorem collisionFree_sample :
    CollisionFree sampleDb [sampleImport, sampleAppend (sampleDb.contentDigest sampleCatalog)] := by
  have only : ∀ call ∈ [sampleImport, sampleAppend (sampleDb.contentDigest sampleCatalog)], ∀ v,
      call.Imports v →
      v = sampleCatalog := by
    rintro call member v ⟨now, receivedAt, equal⟩
    rcases List.mem_cons.mp member with rfl | later
    · cases equal
      rfl
    · obtain rfl := List.mem_singleton.mp later
      cases equal
  intro one here other there v w importsV importsW _
  rw [only one here v importsV, only other there w importsW]

theorem imported_is_read_sample : ∃ graph snapshot,
    Readable sampleDb (sampleDb.contentDigest sampleCatalog)
      (sampleDb.after [sampleImport, sampleAppend (sampleDb.contentDigest sampleCatalog)]) graph ∧
    sampleDb.read (sampleDb.contentDigest sampleCatalog)
      (sampleDb.after [sampleImport, sampleAppend (sampleDb.contentDigest sampleCatalog)]) =
        .ok snapshot := by
  have accepted : (sampleDb.step (sampleDb.after [])
      (.importCatalog sampleCatalog sampleNow sampleNow)).1.isOk = true := by
    decide +kernel
  cases answer : (sampleDb.step (sampleDb.after [])
    (.importCatalog sampleCatalog sampleNow sampleNow)).1 with
  | error failure =>
    rw [answer] at accepted
    cases accepted
  | ok result =>
    have run : [sampleImport, sampleAppend (sampleDb.contentDigest sampleCatalog)] =
        [] ++ .importCatalog sampleCatalog sampleNow sampleNow ::
        [sampleAppend (sampleDb.contentDigest sampleCatalog)] :=
      rfl
    obtain ⟨graph, snapshot, readable, read, -⟩ := imported_is_read collisionFree_sample run answer
    exact ⟨graph, snapshot, readable, read⟩

end Reads

end Metahumotonic.Platform
