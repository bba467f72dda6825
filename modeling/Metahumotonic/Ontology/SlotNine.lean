import Metahumotonic.Ontology.Projection

/-! Slot 9 of the apostles has no ratified entity. No document of the facade resolves
it, except through a field of the conflict records that nothing checks. -/
namespace Metahumotonic.Ontology

open Library

def atSlot (slot : ℤ) (node : Members) : Bool := isApostle node && atPosition slot node

/-- A summary without the name of an entity. -/
structure Anonymous (shown : Members) : Prop where
  name : field shown (lit "canonical_name") = .text (lit "미결")
  aliases : field shown (lit "aliases") = .array []
  servable : field shown (lit "default_servable") = .bool false

def AboutSlot9 (p : Projection) (conflict : Members) : Prop :=
  ∃ node ∈ p.nodes, atSlot 9 node = true ∧ field conflict (lit "subject_public_id") = field node
    (lit "public_id")

def Unnamed (p : Projection) (conflict : Members) : Prop :=
  AboutSlot9 p conflict → field conflict (lit "selected_candidate") = .null

/-- What every surface has to keep to. -/
structure NeverResolved (u : Unicode) (d : Digests) (p : Projection) : Prop where
  searched : ∀ query kind limit cursor served, p.search u d query kind limit cursor = .ok served →
    ∀ item, .object item ∈ served.items →
      atSlot 9 item = false ∧ (u.normalized query = lit "om" → atSlot 8 item = false)
  looked : ∀ publicId node, p.getNode publicId = .node node → atSlot 9 node = false
  held : ∃ node ∈ p.nodes, atSlot 9 node = true
  pending : ∀ node ∈ p.nodes, atSlot 9 node = true →
    p.getNode (textOf node (lit "public_id")) = .pending node
  neighboring : ∀ publicId direction predicate limit cursor served,
    p.neighbors d publicId direction predicate limit cursor = some (.ok served) →
      ∀ entry, .object entry ∈ served.items → atSlot 9 (within entry (lit "node")) = true →
        Anonymous (within entry (lit "node"))
  released : ∀ shown,
    .object shown ∈ items (field (within p.releaseDocument (lit "collections")) (lit "apostles")) →
      atSlot 9 shown = true → Anonymous shown
  conflicting : ∀ subject severity status limit cursor served,
    p.conflictsPage d subject severity status limit cursor = .ok served →
      ∀ conflict, .object conflict ∈ served.items → Unnamed p conflict
  releasedConflicts :
    ∀ conflict, .object conflict ∈ items (field p.releaseDocument (lit "conflicts")) →
    Unnamed p conflict
  selected : ∀ node ∈ p.nodes, isApostle node = true → atSlot 9 node = false →
    p.getNode (textOf node (lit "public_id")) = .node node ∧
      field node (lit "selection_state") = .text (lit "SELECTED") ∧
      ∃ entity name, field node (lit "entity") = .object entity ∧
        field entity (lit "canonical_name") = .text name ∧
        field (summary node) (lit "canonical_name") = .text name

/-- The public id of the apostle at a position. -/
def apostleAt (apostles : List Members) (p : ℤ) : Text :=
  ((apostles.find? (atPosition p)).map (textOf · (lit "public_id"))).getD []

/-- No conflict about slot 9 comes with a selected candidate. -/
def Unselected (snapshot : Json) : Prop :=
  ∀ conflict ∈ conflictsOf snapshot,
    isText (field conflict (lit "subject_public_id"))
      (apostleAt (recordsByCollection (collectionsOf snapshot) .apostles) 9) = true →
    isNull (field conflict (lit "selected_candidate")) = true

variable {u : Unicode} {d : Digests} {snapshot : Json} {digest : Text} {secret : Bytes}

/-- The record that an apostle of the index was made from. -/
theorem apostle_record (accepted : Accepted u snapshot digest) {node : Members}
    (member : node ∈ (Projection.init d snapshot secret).nodes) (apostle : isApostle node = true) :
    ∃ record ∈ recordsByCollection (collectionsOf snapshot) .apostles,
      node = nodeOf .apostles (publicRecord .apostles record) ∧ RecordOk .apostles record := by
  obtain ⟨c, record, inside, rfl⟩ := mem_nodes_init.mp member
  rw [isApostle_nodeOf, decide_eq_true_eq] at apostle
  subst apostle
  exact ⟨record, inside, rfl, (accepted.collections _).records record inside⟩

theorem field_apostle {record : Members} (good : RecordOk .apostles record) {k : Text}
    (plain : k ≠ lit "kind" ∧ k ≠ lit "entity" ∧ k ≠ lit "candidates") :
    field (nodeOf .apostles (publicRecord .apostles record)) k = field record k := by
  rw [field_nodeOf plain.1, field_publicRecord good.named fun _ => plain.2]

theorem atSlot_apostle {record : Members} (good : RecordOk .apostles record) (slot : ℤ) :
    atSlot slot (nodeOf .apostles (publicRecord .apostles record)) = atPosition slot record := by
  rw [atSlot, isApostle_nodeOf, decide_eq_true rfl, Bool.true_and, atPosition,
    field_apostle good (by decide),
    atPosition]

theorem atSlot_summary (slot : ℤ) (node : Members) :
    atSlot slot (summary node) = atSlot slot node := by
  rw [atSlot, isApostle, summary_kind, atPosition, summary_position]
  rfl

theorem conflictPending_apostle {record : Members} (good : RecordOk .apostles record) :
    conflictPending (nodeOf .apostles (publicRecord .apostles record)) =
      isText (field record (lit "selection_state")) (lit "CONFLICT_PENDING") := by
  rw [conflictPending, isApostle_nodeOf, decide_eq_true rfl, Bool.true_and,
    field_apostle good (by decide)]

theorem slot9_pending (accepted : Accepted u snapshot digest) {node : Members}
    (member : node ∈ (Projection.init d snapshot secret).nodes) (slot : atSlot 9 node = true) :
    conflictPending node = true := by
  have apostle := (Bool.and_eq_true_iff.mp slot).1
  obtain ⟨record, inside, rfl, good⟩ := apostle_record accepted member apostle
  rw [atSlot_apostle good] at slot
  rw [conflictPending_apostle good, (accepted.slots.slot9 record inside slot).state]
  decide

theorem slot9_anonymous (accepted : Accepted u snapshot digest) {node : Members}
    (member : node ∈ (Projection.init d snapshot secret).nodes) (slot : atSlot 9 node = true) :
    Anonymous (summary node) := by
  have pending := slot9_pending accepted member slot
  have apostle := (Bool.and_eq_true_iff.mp slot).1
  obtain ⟨record, inside, made, good⟩ := apostle_record accepted member apostle
  have nine : atPosition 9 record = true := by rwa [made, atSlot_apostle good] at slot
  have entity : mapping? (field node (lit "entity")) = none := by
    have other : lit "entity" ≠ lit "kind" := by decide
    rw [made, field_nodeOf other, entity_publicRecord,
      (accepted.slots.slot9 record inside nine).entity]
    rfl
  have identity : displayIdentity node = (lit "미결", []) := by
    simp only [displayIdentity, apostle, if_true, entity]
  constructor
  · rw [summary_name, identity]
  · rw [summary_aliases, identity]
    rfl
  · have absent : hasName (summaryHead node ++ copyKeys summaryKeys node)
        (lit "default_servable") = false := by
      have head : hasName (summaryHead node) (lit "default_servable") = false := by
        rw [hasName_summaryHead]
        decide
      have copied : member? (copyKeys summaryKeys node) (lit "default_servable") = none := by
        rw [member?_copyKeys, if_neg (by decide)]
      rw [hasName, Option.isSome_eq_false_iff, Option.isNone_iff_eq_none] at head ⊢
      rw [member?_append, head, copied]
      rfl
    simp only [summary, apostle, if_true, entity, pending]
    rw [field_append_right absent]
    rfl

theorem selected_apostle (accepted : Accepted u snapshot digest) {node : Members}
    (member : node ∈ (Projection.init d snapshot secret).nodes) (apostle : isApostle node = true)
    (other : atSlot 9 node = false) :
    conflictPending node = false ∧ field node (lit "selection_state") = .text (lit "SELECTED") ∧
      ∃ entity name, field node (lit "entity") = .object entity ∧
        field entity (lit "canonical_name") = .text name ∧
        field (summary node) (lit "canonical_name") = .text name := by
  obtain ⟨record, inside, rfl, good⟩ := apostle_record accepted member apostle
  rw [atSlot_apostle good] at other
  have chosen := accepted.slots.selected record inside other
  obtain ⟨entity, found⟩ := chosen.entity
  obtain ⟨name, text⟩ : ∃ name, field entity (lit "canonical_name") = .text name := by
    rcases good.entity rfl with none_ | ⟨entity', same, fine⟩
    · rw [none_] at found
      cases found
    · rw [same] at found
      cases found
      exact fine.canonical
  have copied : field (nodeOf .apostles (publicRecord .apostles record)) (lit "entity") =
      .object (copyKeys entityAllowedKeys entity) := by
    have plain : lit "entity" ≠ lit "kind" := by decide
    rw [field_nodeOf plain, entity_publicRecord, found]
    rfl
  have named : field (copyKeys entityAllowedKeys entity) (lit "canonical_name") = .text name := by
    rw [field_copyKeys (by decide), text]
  refine ⟨?_, ?_, _, name, copied, named, ?_⟩
  · rw [conflictPending_apostle good, chosen.state]
    decide
  · rw [field_apostle good (by decide), chosen.state]
  · rw [summary_name, displayIdentity, if_pos apostle, copied]
    simp only [mapping?, namesOf, textOf_text named]

theorem search_items {p : Projection} {query : Text} {kind : Option Text} {limit : Nat}
    {cursor : Option Text}
    {served : Page Text Json} (ok : p.search u d query kind limit cursor = .ok served)
    {item : Members}
    (shown : .object item ∈ served.items) :
    ∃ node ∈ p.nodes, item = summary node ∧ searchable (u.normalized query) kind node = true := by
  obtain ⟨node, there, same⟩ := List.mem_map.mp (page_subset ok _ shown)
  have matched := (List.mem_insertionSort _).mp there
  simp only [List.mem_filter, Bool.and_eq_true] at matched
  exact ⟨node, matched.1, (Json.object.inj same).symm, matched.2.1⟩

theorem slot9_record (accepted : Accepted u snapshot digest) :
    ∃ record ∈ recordsByCollection (collectionsOf snapshot) .apostles, atPosition 9 record = true ∧
      textOf record (lit "public_id") = apostleAt
        (recordsByCollection (collectionsOf snapshot) .apostles) 9 := by
  obtain ⟨record, member, nine⟩ := accepted.slots.pending
  cases found : (recordsByCollection (collectionsOf snapshot) .apostles).find? (atPosition 9) with
  | none => exact absurd nine (by simpa using List.find?_eq_none.mp found record member)
  | some first =>
    refine ⟨first, List.mem_of_find?_eq_some found, List.find?_some found, ?_⟩
    rw [apostleAt, found]
    rfl

/-- The conflicts about slot 9 are those with its public id. -/
theorem aboutSlot9_iff (accepted : Accepted u snapshot digest) (conflict : Members) :
    AboutSlot9 (Projection.init d snapshot secret) conflict ↔
      isText (field conflict (lit "subject_public_id"))
        (apostleAt (recordsByCollection (collectionsOf snapshot) .apostles) 9) = true := by
  obtain ⟨record, member, nine, id⟩ := slot9_record accepted
  have good := (accepted.collections .apostles).records record member
  rw [isText_iff, ← id]
  constructor
  · rintro ⟨node, there, slot, same⟩
    obtain ⟨other, inside, rfl, fine⟩ :=
      apostle_record accepted there (Bool.and_eq_true_iff.mp slot).1
    rw [atSlot_apostle fine] at slot
    have equal : other = record := by
      apply List.inj_on_of_nodup_map accepted.slots.once inside member
      rw [atPosition_iff.mp slot, atPosition_iff.mp nine]
    rw [same, nodeOf_publicId fine, equal]
  · intro same
    refine ⟨nodeOf .apostles (publicRecord .apostles record),
      mem_nodes_init.mpr ⟨_, record, member, rfl⟩, ?_, ?_⟩
    · rwa [atSlot_apostle good]
    · rw [same, nodeOf_publicId good]

theorem field_conflict {conflict : Members} {ids : List Text} (good : ConflictOk ids conflict)
    (k : Text) :
    field (copyKeys conflictAllowedKeys conflict) k = field conflict k :=
      copyKeys_named good.named k

/-- A served conflict is unnamed when the snapshot selects no candidate. -/
theorem unnamed_of_unselected (accepted : Accepted u snapshot digest)
    (unselected : Unselected snapshot)
    {conflict : Members} (member : conflict ∈ (Projection.init d snapshot secret).conflicts) :
    Unnamed (Projection.init d snapshot secret) conflict := by
  obtain ⟨raw, inside, rfl⟩ := List.mem_map.mp member
  have good := accepted.conflicts raw inside
  intro about
  have subject := (aboutSlot9_iff accepted _).mp about
  rw [field_conflict good] at subject ⊢
  exact isNull_iff.mp (unselected raw inside subject)

theorem release_conflicts (p : Projection)
    (metadata : Named p.metadata ((expectedMeta digest).map Prod.fst)) :
    field p.releaseDocument (lit "conflicts") = .array (p.conflicts.map .object) ∧
      field (within p.releaseDocument (lit "collections")) (lit "apostles") =
        .array ((p.collections .apostles).map fun record =>
          .object (summary (nodeOf .apostles record))) := by
  have absent : ∀ k, k ∉ (expectedMeta digest).map Prod.fst → hasName p.metadata k = false := by
    intro k unlisted
    cases found : member? p.metadata k with
    | none => simp [hasName, found]
    | some v => exact absurd (metadata k v (mem_of_entry found)) unlisted
  have names : (expectedMeta digest).map Prod.fst = [lit "schema_version", lit "projection_id",
      lit "release_state", lit "publication_status", lit "content_sha256"] := rfl
  rw [names] at absent
  constructor
  · rw [Projection.releaseDocument, field_append_right (absent _ (by decide))]
    rfl
  · rw [within, Projection.releaseDocument, field_append_right (absent _ (by decide))]
    rfl

theorem metadata_named (accepted : Accepted u snapshot digest) :
    Named (Projection.init d snapshot secret).metadata ((expectedMeta digest).map Prod.fst) :=
  (metaMatches_named accepted.metaSame).1

theorem unselected_of_released (accepted : Accepted u snapshot digest)
    (released : ∀ conflict, .object conflict ∈
      items (field (Projection.init d snapshot secret).releaseDocument (lit "conflicts")) →
        Unnamed (Projection.init d snapshot secret) conflict) : Unselected snapshot := by
  intro raw inside subject
  have good := accepted.conflicts raw inside
  have served : .object (copyKeys conflictAllowedKeys raw) ∈
      items (field (Projection.init d snapshot secret).releaseDocument (lit "conflicts")) := by
    rw [(release_conflicts _ (metadata_named accepted)).1]
    exact List.mem_map_of_mem (List.mem_map_of_mem inside)
  have null := released _ served ((aboutSlot9_iff accepted _).mpr (by rwa [field_conflict good]))
  rw [field_conflict good] at null
  exact isNull_iff.mpr null

theorem neighbors_entry {p : Projection} {publicId : Text} {direction : Direction}
    {predicate : Option Text}
    {limit : Nat} {cursor : Option Text} {served : Page Text Json}
    (ok : p.neighbors d publicId direction predicate limit cursor = some (.ok served))
    {entry : Members}
    (shown : .object entry ∈ served.items) :
    ∃ relationship ∈ p.relationships, ∃ edge, entry = p.entry relationship edge := by
  unfold Projection.neighbors at ok
  split at ok
  · cases ok
  · obtain ⟨listed, there, same⟩ := List.mem_map.mp (page_subset (Option.some.inj ok) _ shown)
    obtain ⟨relationship, inside, found⟩ :=
      List.mem_filterMap.mp ((List.mem_insertionSort _).mp there)
    split at found
    · obtain ⟨edge, _, made⟩ := Option.map_eq_some_iff.mp found
      exact ⟨relationship, inside, edge, by rw [made, Json.object.inj same]⟩
    · cases found

/-- The surfaces other than the conflict records keep to the rule in any case. -/
theorem never_resolved (accepted : Accepted u snapshot digest)
    (unnamed : ∀ conflict ∈ (Projection.init d snapshot secret).conflicts,
      Unnamed (Projection.init d snapshot secret) conflict) :
    NeverResolved u d (Projection.init d snapshot secret) := by
  constructor
  · intro query kind limit cursor served ok item shown
    obtain ⟨node, there, rfl, searched⟩ := search_items ok shown
    simp only [searchable, Bool.and_eq_true, Bool.not_eq_true', Bool.and_eq_false_imp] at searched
    rw [atSlot_summary, atSlot_summary]
    constructor
    · cases slot : atSlot 9 node with
      | false => rfl
      | true => rw [slot9_pending accepted there slot] at searched; exact absurd searched.1.2 (by decide)
    · intro om
      cases slot : atSlot 8 node with
      | false => rfl
      | true =>
        obtain ⟨apostle, eight⟩ := Bool.and_eq_true_iff.mp slot
        rw [searched.2 (by simp [om, apostle])] at eight
        exact absurd eight (by decide)
  · intro publicId node found
    unfold Projection.getNode at found
    split at found
    · cases found
    · rename_i other there
      split at found
      · cases found
      · rename_i open_
        cases found
        cases slot : atSlot 9 node with
        | false => rfl
        | true => exact absurd (slot9_pending accepted (mem_of_node? there).1 slot) open_
  · obtain ⟨record, member, nine⟩ := accepted.slots.pending
    refine ⟨_, mem_nodes_init.mpr ⟨.apostles, record, member, rfl⟩, ?_⟩
    rwa [atSlot_apostle ((accepted.collections _).records record member)]
  · intro node there slot
    have pending := slot9_pending accepted there slot
    simp only [Projection.getNode, node?_self accepted there, pending, if_true]
  · intro publicId direction predicate limit cursor served ok entry shown slot
    obtain ⟨relationship, _, edge, rfl⟩ := neighbors_entry ok shown
    have inner : within ((Projection.init d snapshot secret).entry relationship edge) (lit "node") =
        ((((Projection.init d snapshot secret).node? edge.2).map summary).getD []) := rfl
    rw [inner] at slot ⊢
    cases found : (Projection.init d snapshot secret).node? edge.2 with
    | none =>
      rw [found] at slot
      exact absurd slot (by decide)
    | some node =>
      rw [found, Option.map_some, Option.getD_some, atSlot_summary] at slot
      exact slot9_anonymous accepted (mem_of_node? found).1 slot
  · intro shown there slot
    rw [(release_conflicts _ (metadata_named accepted)).2] at there
    obtain ⟨record, inside, same⟩ := List.mem_map.mp there
    rw [← Json.object.inj same] at slot ⊢
    rw [atSlot_summary] at slot
    exact slot9_anonymous accepted (mem_nodes.mpr ⟨_, record, inside, rfl⟩) slot
  · intro subject severity status limit cursor served ok conflict shown
    obtain ⟨other, there, same⟩ := List.mem_map.mp (page_subset ok _ shown)
    have inside := (List.mem_filter.mp ((List.mem_insertionSort _).mp there)).1
    exact unnamed conflict (Json.object.inj same ▸ inside)
  · intro conflict there
    rw [(release_conflicts _ (metadata_named accepted)).1] at there
    obtain ⟨other, inside, same⟩ := List.mem_map.mp there
    exact unnamed conflict (Json.object.inj same ▸ inside)
  · intro node there apostle other
    obtain ⟨open_, state, named⟩ := selected_apostle accepted there apostle other
    refine ⟨?_, state, named⟩
    simp only [Projection.getNode, node?_self accepted there, open_, Bool.false_eq_true, if_false]

/-- Slot 9 is never resolved exactly when no conflict about it selects a candidate. -/
theorem slot9_never_resolved_iff (valid : validateSnapshot u snapshot digest = .ok ()) :
    NeverResolved u d (Projection.init d snapshot secret) ↔ Unselected snapshot := by
  have accepted := validateSnapshot_ok valid
  constructor
  · exact fun kept => unselected_of_released accepted kept.releasedConflicts
  · exact fun unselected => never_resolved accepted fun _ =>
      unnamed_of_unselected accepted unselected

theorem plainSnapshot_unselected : Unselected plainSnapshot := by
  unfold Unselected
  decide

theorem slot9_never_resolved_sample :
    validateSnapshot sampleUnicode plainSnapshot sampleDigest = .ok () ∧
    ∀ d secret, NeverResolved sampleUnicode d (Projection.init d plainSnapshot secret) :=
  ⟨plainSnapshot_valid, fun _ _ =>
    (slot9_never_resolved_iff plainSnapshot_valid).mpr plainSnapshot_unselected⟩

/-- An accepted snapshot whose conflict record names the candidate of slot 9. -/
theorem candidate_may_be_named :
    validateSnapshot sampleUnicode looseSnapshot sampleDigest = .ok () ∧
    ∀ d secret, ¬ NeverResolved sampleUnicode d (Projection.init d looseSnapshot secret) := by
  refine ⟨looseSnapshot_valid, fun d secret kept => ?_⟩
  have unselected := unselected_of_released (validateSnapshot_ok looseSnapshot_valid)
    kept.releasedConflicts
  have named : ¬ Unselected looseSnapshot := by
    unfold Unselected
    decide
  exact named unselected

end Metahumotonic.Ontology
