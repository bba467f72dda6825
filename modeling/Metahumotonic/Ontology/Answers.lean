import Mathlib.Data.List.Dedup
import Metahumotonic.Ontology.Handlers
import Metahumotonic.Ontology.Privacy

/-! When the routes answer. A request gets a documented status unless a key that is not ASCII
is compared, or the answer copies a part of the snapshot that cannot be rendered. -/
namespace Metahumotonic.Ontology

open Library

variable {u : Unicode} {d : Digests}

/-! What an accepted snapshot gives to every answer. -/

theorem configure_ok {settings : Settings} {disk : Text → File} {runtime : Runtime}
    (ok : configure u d settings disk = (.ok (), runtime)) :
    runtime = {} ∨ ∃ secret sha256 snapshot, Utf8.encode settings.ontologyInternalKey =
      some secret ∧
      32 ≤ secret.length ∧ disk settings.ontologySnapshotPath = .bytes sha256 (some snapshot) ∧
      validateSnapshot u snapshot settings.ontologyContentSha256 = .ok () ∧
      runtime = { enabled := true, ready := true, projection := some (Projection.init d snapshot secret),
                  internalKey := settings.ontologyInternalKey } := by
  by_cases enabled : settings.ontologyEnabled = true
  · cases key : Utf8.encode settings.ontologyInternalKey with
    | none =>
      rw [configure, if_neg (not_not.mpr enabled), key] at ok
      cases ok
    | some secret =>
      by_cases ready : 32 ≤ secret.length ∧ settings.ontologySnapshotPath ≠ []
      · rw [configure_of_loaded enabled key ready.1 ready.2] at ok
        split at ok
        · rename_i made
          obtain ⟨snapshot, file, valid, rfl⟩ := load_ok made
          exact .inr ⟨secret, _, snapshot, rfl, ready.1, file, valid, (Prod.mk.inj ok).2.symm⟩
        · cases ok
        · cases ok
      · rw [configure, if_neg (not_not.mpr enabled), key] at ok
        dsimp only at ok
        by_cases short : secret.length < 32
        · rw [if_pos short] at ok
          cases ok
        · have missing : settings.ontologySnapshotPath = [] := by
            by_contra path
            exact ready ⟨Nat.le_of_not_lt short, path⟩
          rw [if_neg short, if_pos missing] at ok
          cases ok
  · rw [configure, if_pos enabled] at ok
    exact .inl (Prod.mk.inj ok).2.symm

/-- The two groups of invariants, of the records that an accepted snapshot holds. -/
theorem validateSnapshot_invariants {snapshot : Json} {digest : Text}
    (ok : validateSnapshot u snapshot digest = .ok ()) :
    validateDomainInvariants u (recordsByCollection (collectionsOf snapshot)) = .ok () ∧
      validateRelationshipInvariants (recordsByCollection (collectionsOf snapshot))
        (relationshipsOf snapshot) =
        .ok () := by
  have accepted := validateSnapshot_ok ok
  simp only [validateSnapshot, bind_ok, requireMapping_ok, requireList_ok, ensure_ok] at ok
  obtain ⟨root, rfl, _, _, _, _, _, _, _, _, _, _, data, dataField, _, _, collections,
      collectionsField, _, _, _, _, _,
    domain, rs, relationshipsField, _, _, _, _, _, invariants, _⟩ := ok
  have readData : dataOf (.object root) = data := within_of_field dataField
  have readCollections : collectionsOf (.object root) = collections := by
    rw [collectionsOf, readData]
    exact within_of_field collectionsField
  have readRelationships : relationshipsOf (.object root) = rs.filterMap mapping? := by
    rw [relationshipsOf, readData, relationshipsField, items]
  rw [readCollections, readRelationships]
  exact ⟨domain, invariants⟩

theorem slots_placed {snapshot : Json} {digest : Text}
    (ok : validateSnapshot u snapshot digest = .ok ()) :
    (positions (recordsByCollection (collectionsOf snapshot) .apostles)).any
    (exactly 12) = true :=
  validateDomainInvariants_placed (validateSnapshot_invariants ok).1

theorem predicates_fixed {snapshot : Json} {digest : Text}
    (ok : validateSnapshot u snapshot digest = .ok ())
    {relationship : Members} (member : relationship ∈ relationshipsOf snapshot) :
    textOf relationship (lit "predicate") ∈
      [lit "COMMANDS_LEGION", lit "HAS_DIRECT_COMMANDER", lit "PHASE_OF"] := by
  obtain ⟨names, read, rest⟩ := bind_ok.mp (validateSnapshot_invariants ok).2
  obtain ⟨_, fixed, _⟩ := bind_ok.mp rest
  have same := (Bool.and_eq_true_iff.mp (ensure_ok.mp fixed)).1
  obtain ⟨name, listed, text⟩ := forall₂_right (texts_ok.mp read) member
  rw [textOf_text text]
  exact List.contains_iff_mem.mp (List.all_eq_true.mp same name listed)

theorem wellFormed_lowerHex {s : Text} (hex : s.all lowerHex = true) :
    Json.wellFormed s = true := by
  apply Json.wellFormed_ascii
  intro c there
  have digit := List.all_eq_true.mp hex c there
  simp only [lowerHex, Bool.or_eq_true, Bool.and_eq_true, decide_eq_true_eq] at digit
  omega

theorem wellFormed_publicId {s : Text} (shape : publicIdRe s = true) :
    Json.wellFormed s = true := by
  simp only [publicIdRe, Bool.and_eq_true, beq_iff_eq] at shape
  rw [← List.take_append_drop 5 s, Json.wellFormed_append, shape.1.1]
  exact ⟨Json.wellFormed_lit _, wellFormed_lowerHex shape.2⟩

theorem printable_small {n : Nat} (small : n < 100) : Json.printable n = true := by
  have digits : (Json.decimal n).length ≤ 2 := Json.decimal_length_le (by decide) small
  exact decide_eq_true (Nat.le_trans digits (by decide))

/-- What holds of every index that is served: all that the facade writes itself can be rendered. -/
structure Serving (p : Projection) : Prop where
  metadata : (Json.object p.metadata).renderable = true
  digest : latin1 p.contentSha256 = true
  collections : ∀ c, (p.collections c).length < 100
  relationships : p.relationships.length < 100
  conflicts : p.conflicts.length < 100
  ids : ∀ node ∈ p.nodes, Json.wellFormed (textOf node (lit "public_id")) = true
  slots : ∀ slot ∈ p.collections .apostles,
    (apostleWebRoutes.lookup (positionOf slot)).isSome = true ∧
    lit "web_reference" ∉ slot.map Prod.fst
  predicates : ∀ relationship ∈ p.relationships,
    Json.wellFormed (textOf relationship (lit "predicate")) = true

theorem latin1_lowerHex {s : Text} (hex : s.all lowerHex = true) : latin1 s = true := by
  rw [latin1, List.all_eq_true]
  intro c there
  have digit := List.all_eq_true.mp hex c there
  simp only [lowerHex, Bool.or_eq_true, Bool.and_eq_true, decide_eq_true_eq] at digit
  exact decide_eq_true (by omega)

/-- The metadata are fixed texts and the digest. -/
theorem renderable_meta {members : Members} {digest : Text}
    (whole : (Json.object members).distinct = true)
    (same : metaMatches members digest = true) (shape : sha256Re digest = true) :
    (Json.object members).renderable = true := by
  obtain ⟨named, each⟩ := metaMatches_named same
  have hex := (Bool.and_eq_true_iff.mp shape).2
  refine Json.renderable_object.mpr fun k v there => ?_
  obtain ⟨⟨j, w⟩, expected, rfl⟩ := List.mem_map.mp (named k v there)
  have value : v = w := (field_of_mem whole there).symm.trans (each j w expected)
  subst value
  simp only [expectedMeta, List.mem_cons, Prod.mk.injEq, List.not_mem_nil, or_false] at expected
  rcases expected with ⟨rfl, rfl⟩ | ⟨rfl, rfl⟩ | ⟨rfl, rfl⟩ | ⟨rfl, rfl⟩ | ⟨rfl, rfl⟩
  · exact ⟨Json.wellFormed_lit _, Json.renderable_text.trans (Json.wellFormed_lit _)⟩
  · exact ⟨Json.wellFormed_lit _, Json.renderable_text.trans (Json.wellFormed_lit _)⟩
  · exact ⟨Json.wellFormed_lit _, Json.renderable_text.trans (Json.wellFormed_lit _)⟩
  · exact ⟨Json.wellFormed_lit _, Json.renderable_text.trans (Json.wellFormed_lit _)⟩
  · exact ⟨Json.wellFormed_lit _, Json.renderable_text.trans (wellFormed_lowerHex hex)⟩

theorem mem_setEntry_key {k j : Text} {v : Json} {members : Members}
    (there : j ∈ (setEntry k v members).map Prod.fst) : j = k ∨ j ∈ members.map Prod.fst := by
  obtain ⟨⟨i, w⟩, member, rfl⟩ := List.mem_map.mp there
  rcases mem_setEntry member with new | old
  · exact .inl (Prod.mk.inj new).1
  · exact .inr (List.mem_map_of_mem old)

/-- A copied apostle has the fields of its allow-list. -/
theorem publicRecord_keys (record : Members) :
    lit "web_reference" ∉ (publicRecord .apostles record).map Prod.fst := by
  have copied : lit "web_reference" ∉ (copyKeys Collection.apostles.allowedKeys record).map
      Prod.fst := by
    intro there
    obtain ⟨⟨k, v⟩, member, same⟩ := List.mem_map.mp there
    have listed := (mem_copyKeys.mp member).1
    rw [show k = lit "web_reference" from same] at listed
    exact absurd listed (by decide)
  have others : lit "web_reference" ≠ lit "entity" ∧
      lit "web_reference" ≠ lit "candidates" := by decide
  unfold publicRecord
  simp only [ne_eq, not_true_eq_false, if_false]
  have withEntity : ∀ entity, lit "web_reference" ∉
      (setEntry (lit "entity") entity (copyKeys Collection.apostles.allowedKeys record)).map
        Prod.fst := by
    intro entity there
    exact (mem_setEntry_key there).elim others.1 copied
  split
  · intro there
    exact (mem_setEntry_key there).elim others.2 (withEntity _)
  · exact withEntity _

/-- Every record stands at one of the positions from 1 to n. -/
theorem position_within {n : Nat} {records : List Members}
    (placed : (positions records).any (exactly n) = true)
    {record : Members} (member : record ∈ records) : ∃ i, i < n ∧
      positionOf record = (i : ℤ) + 1 := by
  cases read : positions records with
  | none =>
    rw [read] at placed
    cases placed
  | some ps =>
    rw [read, Option.any_some] at placed
    have there : field record (lit "position") ∈ ps.map Json.int := by
      rw [← positions_some read]
      exact List.mem_map_of_mem (f := fun record => field record (lit "position")) member
    obtain ⟨p, inside, same⟩ := List.mem_map.mp there
    have listed := (exactly_perm placed).mem_iff.mp inside
    obtain ⟨i, small, rfl⟩ : ∃ i, i < n ∧ (i : ℤ) + 1 = p := by simpa using listed
    exact ⟨i, small, by rw [positionOf, ← same]; rfl⟩

theorem serving_init {snapshot : Json} {digest : Text} {secret : Bytes}
    (whole : snapshot.distinct = true)
    (valid : validateSnapshot u snapshot digest = .ok ()) :
    Serving (Projection.init d snapshot secret) := by
  have accepted := validateSnapshot_ok valid
  have parts := inherited Json.hereditary_distinct whole
  have sizes : ∀ c : Collection, c.expectedCardinality < 100 := by
    intro c
    cases c <;> decide
  constructor
  · exact renderable_meta parts.metadata accepted.metaSame accepted.digestShape
  · have digest_ : textOf (metaOf snapshot) (lit "content_sha256") = digest :=
      textOf_text ((metaMatches_named accepted.metaSame).2 _ _ (by simp [expectedMeta]))
    change latin1 (textOf (metaOf snapshot) (lit "content_sha256")) = true
    rw [digest_]
    exact latin1_lowerHex (Bool.and_eq_true_iff.mp accepted.digestShape).2
  · intro c
    change ((recordsByCollection (collectionsOf snapshot) c).map (publicRecord c)).length < 100
    rw [List.length_map, (accepted.collections c).size]
    exact sizes c
  · change ((relationshipsOf snapshot).map (copyKeys relationshipKeys)).length < 100
    rw [List.length_map, accepted.relationshipsCount]
    decide
  · change ((conflictsOf snapshot).map (copyKeys conflictAllowedKeys)).length < 100
    rw [List.length_map, accepted.conflictsCount]
    decide
  · intro node member
    obtain ⟨c, record, inside, rfl⟩ := mem_nodes_init.mp member
    have good := (accepted.collections c).records record inside
    rw [textOf_text (nodeOf_publicId good)]
    exact wellFormed_publicId good.shape
  · intro slot member
    obtain ⟨record, inside, rfl⟩ := List.mem_map.mp member
    have good := (accepted.collections .apostles).records record inside
    have position : field (publicRecord .apostles record) (lit "position") = field record
        (lit "position") :=
      field_publicRecord good.named fun _ => by decide
    obtain ⟨i, small, same⟩ := position_within (slots_placed valid) inside
    refine ⟨?_, publicRecord_keys record⟩
    rw [positionOf, position, ← positionOf, same]
    have each : ∀ i : Nat, i < 12 → (apostleWebRoutes.lookup ((i : ℤ) + 1)).isSome =
        true := by decide
    exact each i small
  · intro relationship member
    obtain ⟨original, inside, rfl⟩ := List.mem_map.mp member
    have kept : textOf (copyKeys relationshipKeys original) (lit "predicate") = textOf original
        (lit "predicate") := by
      rw [textOf, field_copyKeys (by decide), textOf]
    rw [kept]
    have fixed := predicates_fixed valid inside
    simp only [List.mem_cons, List.not_mem_nil, or_false] at fixed
    rcases fixed with same | same | same
    · rw [same]
      exact Json.wellFormed_lit _
    · rw [same]
      exact Json.wellFormed_lit _
    · rw [same]
      exact Json.wellFormed_lit _

/-! What an answer copies from the index, and what is written around it. -/

section
variable (u : Unicode) (d : Digests) (p : Projection)

/-- The parts of the index that the answer to a request copies. -/
def shown (query : List (Text × Text)) : Endpoint → List Json
  | .apostles =>
    match p.apostleWebDirectory with
    | .ok (some _) => (p.collections .apostles).map .object
    | _ => []
  | .search =>
    match searchPage u d p query with
    | .ok found => found.2.items
    | .error _ => []
  | .conflicts =>
    match conflictsFound d p query with
    | .ok found => found.2.items
    | .error _ => []
  | .node publicId =>
    match p.getNode publicId with
    | .node item => [.object item]
    | .pending record => [.object (conflictPayload record)]
    | .missing => []
  | .neighbors publicId =>
    match neighborsFound d p publicId query with
    | .ok (some found) => found.2.items
    | _ => []
  | .schema => []
  | .release projectionId =>
    if isText (field p.metadata (lit "projection_id")) projectionId then
      (collectionKinds.flatMap fun c => (p.collections c).map fun record =>
        .object (summary (nodeOf c record))) ++
        p.conflicts.map .object
    else []

end

/-- All of these can be rendered. -/
def Renderable (vs : List Json) : Prop := ∀ v ∈ vs, v.renderable = true

/-- A reply that can be sent exactly when the parts that it copies can be rendered. -/
def Reply.Sound (parts : List Json) : Reply → Prop
  | .failed status _ _ details =>
    status ∈ documentedStatuses ∧ (details.all Json.renderable = true ↔ Renderable parts)
  | .served etag cacheControl data next =>
    latin1 etag = true ∧ latin1 cacheControl = true ∧ (data.renderable = true ↔ Renderable parts) ∧
      ∀ cursor, next = some (some cursor) → Json.wellFormed cursor = true

theorem no_cursor {P : Text → Prop} : ∀ cursor, (none : Option (Option Text)) = some (some cursor) →
    P cursor := by
  rintro _ ⟨⟩

theorem renderable_nil : Renderable [] := nofun

theorem latin1_etag (p : Projection) (resource : String) (params : Json) :
    latin1 (p.etagFor d resource params) = true := by
  have digit : ∀ n, n < 16 → Json.hexDigit n < 256 := by decide
  have hex : ∀ bytes : Bytes, ∀ c ∈ hexText bytes, c < 256 := by
    intro bytes c there
    obtain ⟨b, -, two⟩ := List.mem_flatMap.mp there
    simp only [List.mem_cons, List.not_mem_nil, or_false] at two
    rcases two with rfl | rfl
    · exact digit _ (Nat.mod_lt _ (by decide))
    · exact digit _ (Nat.mod_lt _ (by decide))
  rw [latin1, List.all_eq_true]
  intro c there
  apply decide_eq_true
  rcases List.mem_cons.mp there with rfl | inside
  · decide
  · rcases List.mem_append.mp inside with inside | last
    · exact hex _ c inside
    · rw [List.mem_singleton.mp last]
      decide

theorem refused_sound (message : String) : (badRequest message).Sound [] :=
  ⟨by decide, iff_of_true rfl renderable_nil⟩

theorem missing_sound : nodeMissing.Sound [] := ⟨by decide, iff_of_true rfl renderable_nil⟩

/-- The cursor of a next page is plain. -/
theorem page_next {p : Projection} {items : List Json} {route : Text} {params : Params}
    {limit : Nat}
    {cursor : Option Text} {served : Page Text Json}
    (ok : p.page d items route params limit cursor = .ok served) {next : Text}
    (more : served.next = some next) :
    Json.wellFormed next = true := by
  unfold Projection.page page at ok
  split at ok
  · cases ok
  · cases ok
    rw [cut, Option.ite_none_right_eq_some] at more
    obtain ⟨-, same⟩ := more
    cases same
    apply Json.wellFormed_ascii
    intro c there
    rcases encodeCursor_plain _ there with rfl | plain
    · decide
    · simp only [Base64.plain, Bool.or_eq_true, Bool.and_eq_true, decide_eq_true_eq,
        beq_iff_eq] at plain
      omega

theorem pageReply_sound {p : Projection} {resource : String} {params : Json} {head : Members}
    {items : List Json}
    {route : Text} {fixed : Params} {limit : Nat} {cursor : Option Text} {served : Page Text Json}
    (ok : p.page d items route fixed limit cursor = .ok served)
    (plain : (Json.object head).renderable = true) :
    (pageReply d p resource params head served).Sound served.items := by
  refine ⟨latin1_etag p resource params, by decide, ?_, fun next more =>
    page_next ok (Option.some.inj more)⟩
  rw [Json.renderable_append, Json.renderable_cons, Json.renderable_array]
  constructor
  · exact fun written => written.2.1.2
  · exact fun each => ⟨plain, ⟨Json.wellFormed_lit _, each⟩, rfl⟩

theorem searchPage_ok {p : Projection} {query : List (Text × Text)} {found : Json × Page Text Json}
    (ok : searchPage u d p query = .ok found) : ∃ normalizedQuery kind limit cursor,
      p.search u d normalizedQuery kind limit cursor = .ok found.2 := by
  simp only [searchPage, bind_ok, pure_ok] at ok
  obtain ⟨raw, _, _, _, kind, _, _, _, limit, _, cursor, _, page, served, rfl⟩ := ok
  exact ⟨_, kind, limit, cursor, served⟩

theorem conflictsFound_ok {p : Projection} {query : List (Text × Text)}
    {found : Json × Page Text Json}
    (ok : conflictsFound d p query = .ok found) : ∃ subject severity status limit cursor,
      p.conflictsPage d subject severity status limit cursor = .ok found.2 := by
  simp only [conflictsFound, bind_ok, pure_ok] at ok
  obtain ⟨subject, _, _, _, severity, _, _, _, status, _, _, _, limit, _, cursor, _, page,
      served, rfl⟩ := ok
  exact ⟨subject, severity, status, limit, cursor, served⟩

theorem neighborsFound_ok {p : Projection} {publicId : Text} {query : List (Text × Text)}
    {found : Json × Page Text Json} (ok : neighborsFound d p publicId query = .ok (some found)) :
    ∃ direction predicate limit cursor,
      p.neighbors d publicId direction predicate limit cursor = some (.ok found.2) := by
  simp only [neighborsFound, bind_ok] at ok
  obtain ⟨named, _, ok⟩ := ok
  cases way : directionOf named with
  | none =>
    rw [way] at ok
    cases ok
  | some direction =>
    rw [way] at ok
    simp only [bind_ok] at ok
    obtain ⟨predicate, _, _, _, limit, _, cursor, _, ok⟩ := ok
    cases answered : p.neighbors d publicId direction predicate limit cursor with
    | none =>
      rw [answered] at ok
      cases ok
    | some answer =>
      rw [answered] at ok
      obtain ⟨page, served, back⟩ := bind_ok.mp ok
      cases back
      exact ⟨direction, predicate, limit, cursor, by rw [answered, served]⟩

theorem renderable_webReference (position : ℤ) {slug : Text} (plain : Json.wellFormed slug = true) :
    (webReference position slug).renderable = true := by
  have number : Json.wellFormed (Json.writeInt position) = true :=
    Json.wellFormed_ascii (Json.writeInt_ascii position)
  have status : Json.wellFormed (if position = 9 then lit "CONFLICT_REFERENCE_ONLY"
      else lit "EDITORIAL_REFERENCE") =
      true := by
    split <;> exact Json.wellFormed_lit _
  simp only [webReference, webOrigin, Json.renderable_cons, Json.renderable_text,
    Json.renderable_bool,
    Json.renderable_nil, Json.wellFormed_append, Json.wellFormed_lit, number, plain,
      status, and_self]

theorem slug_plain {position : ℤ} {name : Option Text} {slug : Text}
    (reviewed : apostleWebRoutes.lookup position = some (name, slug)) :
    Json.wellFormed slug = true := by
  have each : ∀ route ∈ apostleWebRoutes, Json.wellFormed route.2.2 = true := by decide
  exact each _ (mem_of_entry reviewed)

/-- Every slot has a reviewed position, so an item is a slot with a reference beside it. -/
theorem webItems_ok {slots : List Members}
    (placed : ∀ slot ∈ slots, (apostleWebRoutes.lookup (positionOf slot)).isSome = true ∧
      lit "web_reference" ∉ slot.map Prod.fst) :
    webItems slots = .ok none ∨ ∃ shown, webItems slots = .ok (some shown) ∧
      (Renderable shown ↔ Renderable (slots.map .object)) := by
  induction slots with
  | nil => exact .inr ⟨[], rfl, Iff.rfl⟩
  | cons slot rest ih =>
    obtain ⟨⟨known, absent⟩, later⟩ := List.forall_mem_cons.mp placed
    obtain ⟨⟨name, slug⟩, reviewed⟩ := Option.isSome_iff_exists.mp known
    have reference := renderable_webReference (positionOf slot) (slug_plain reviewed)
    have item : webItem slot = .mismatch ∨ webItem slot =
        .item (.object (setEntry (lit "web_reference") (webReference (positionOf slot) slug)
          slot)) := by
      unfold webItem
      rw [reviewed]
      dsimp only
      -- the outer condition is the ninth slot, the inner one the agreement
      split
      · split
        · exact .inr rfl
        · exact .inl rfl
      · split
        · exact .inr rfl
        · exact .inl rfl
    rw [webItems]
    rcases item with mismatch | item
    · rw [mismatch]
      exact .inl rfl
    · rw [item]
      rcases ih later with stopped | ⟨shown, others, same⟩
      · rw [stopped]
        exact .inl rfl
      · rw [others]
        refine .inr ⟨_, rfl, ?_⟩
        have here : (Json.object
            (setEntry (lit "web_reference") (webReference (positionOf slot) slug)
              slot)).renderable =
            true ↔ (Json.object slot).renderable = true := by
          rw [Json.renderable_setEntry absent, reference]
          exact and_iff_left ⟨Json.wellFormed_lit _, rfl⟩
        rw [Renderable, List.forall_mem_cons, List.map_cons, Renderable, List.forall_mem_cons, here]
        exact and_congr_right fun _ => same

theorem apostles_sound {p : Projection} (serving : Serving p) (query : List (Text × Text)) :
    ∃ reply, replyTo u d p query .apostles = .ok reply ∧
      reply.Sound (shown u d p query .apostles) := by
  have sorted : ∀ {slot}, slot ∈ (p.collections .apostles).insertionSort
      (fun a b => positionOf a ≤ positionOf b) ↔
      slot ∈ p.collections .apostles := List.mem_insertionSort _
  have placed : ∀ slot ∈ (p.collections .apostles).insertionSort
      (fun a b => positionOf a ≤ positionOf b), _ :=
    fun slot there => serving.slots slot (sorted.mp there)
  rw [replyTo, shown]
  rcases webItems_ok placed with mismatch | ⟨items, listed, same⟩
  · have directory : p.apostleWebDirectory = .ok none := by
      rw [Projection.apostleWebDirectory, mismatch]
      rfl
    rw [directory]
    exact ⟨_, rfl, by decide, iff_of_true rfl renderable_nil⟩
  · have directory : p.apostleWebDirectory = .ok (some (.object [(lit "items", .array items),
        (lit "mapping_version", .text (lit "apostle-web-references/v1"))])) := by
      rw [Projection.apostleWebDirectory, listed]
      rfl
    rw [directory]
    refine ⟨_, rfl, latin1_etag p _ _, by decide, ?_, no_cursor⟩
    have moved : Renderable (((p.collections .apostles).insertionSort
        fun a b => positionOf a ≤ positionOf b).map .object) ↔
          Renderable ((p.collections .apostles).map .object) := by
      simp only [Renderable, List.forall_mem_map, sorted]
    rw [← moved, ← same]
    simp only [Json.renderable_cons, Json.renderable_array, Json.renderable_text,
      Json.renderable_nil,
      Json.wellFormed_lit, true_and, and_true, Renderable]

theorem renderable_release {p : Projection} (serving : Serving p) :
    (Json.object p.releaseDocument).renderable = true ↔
      Renderable ((collectionKinds.flatMap fun c =>
      (p.collections c).map fun record => .object (summary (nodeOf c record))) ++ p.conflicts.map
        .object) := by
  have counts : (Json.object
      (collectionKinds.map fun c => (c.name, .int (p.collections c).length))).renderable =
      true := by
    refine Json.renderable_object.mpr fun k v there => ?_
    obtain ⟨c, _, same⟩ := List.mem_map.mp there
    cases same
    have name : Json.wellFormed c.name = true := by cases c <;> exact Json.wellFormed_lit _
    exact ⟨name, Json.renderable_int.trans (printable_small (serving.collections c))⟩
  have records : (Json.object
      (collectionKinds.map fun c => (c.name, .array ((p.collections c).map fun record =>
      .object (summary (nodeOf c record)))))).renderable = true ↔
        Renderable (collectionKinds.flatMap fun c =>
        (p.collections c).map fun record => .object (summary (nodeOf c record))) := by
    rw [Json.renderable_object, Renderable]
    constructor
    · intro each v there
      obtain ⟨c, listed, inside⟩ := List.mem_flatMap.mp there
      exact Json.renderable_array.mp (each c.name _ (List.mem_map_of_mem listed)).2 v inside
    · intro each k v there
      obtain ⟨c, listed, same⟩ := List.mem_map.mp there
      cases same
      have name : Json.wellFormed c.name = true := by cases c <;> exact Json.wellFormed_lit _
      exact ⟨name, Json.renderable_array.mpr fun v inside =>
        each v (List.mem_flatMap.mpr ⟨c, listed, inside⟩)⟩
  have relationships := Json.renderable_int.trans (printable_small serving.relationships)
  have conflicts := Json.renderable_int.trans (printable_small serving.conflicts)
  rw [Projection.releaseDocument, Json.renderable_append, Renderable, List.forall_mem_append]
  simp only [Json.renderable_cons, Json.wellFormed_lit, counts, records, relationships, conflicts,
    serving.metadata, Json.renderable_nil, Json.renderable_array, true_and, and_true, Renderable]

theorem renderable_schema {p : Projection} (serving : Serving p) :
    p.schemaDocument.renderable = true := by
  have predicates : (Json.array (p.predicates.map .text)).renderable = true := by
    refine Json.renderable_array.mpr fun v there => ?_
    obtain ⟨s, listed, rfl⟩ := List.mem_map.mp there
    have kept := List.mem_dedup.mp ((List.mem_insertionSort _).mp listed)
    obtain ⟨relationship, member, rfl⟩ := List.mem_map.mp kept
    exact Json.renderable_text.trans (serving.predicates relationship member)
  have kinds : (Json.object (collectionKinds.map fun c => (c.name, .text c.kind))).renderable =
      true := by
    decide
  have pattern : Json.wellFormed (lit "^mtg1-[a-f0-9]" ++ [123] ++ lit "16" ++ [125] ++ lit "$") =
      true := by decide
  have status : Json.printable 409 = true := by decide
  simp only [Projection.schemaDocument, Json.renderable_cons, Json.wellFormed_lit, predicates,
    kinds, pattern,
    status, Json.renderable_text, Json.renderable_bool, Json.renderable_int, Json.renderable_nil,
      schemaVersion,
    projectionId, and_self]

theorem neighbors_known {p : Projection} {publicId : Text} {direction : Direction}
    {predicate : Option Text}
    {limit : Nat} {cursor : Option Text} {served : Page Text Json}
    (ok : p.neighbors d publicId direction predicate limit cursor = some (.ok served)) :
    (∃ node, p.node? publicId = some node) ∧ ∃ items route params,
      p.page d items route params limit cursor = .ok served := by
  unfold Projection.neighbors at ok
  split at ok
  · cases ok
  · rename_i there
    exact ⟨Option.ne_none_iff_exists'.mp (by simpa using there), _, _, _, Option.some.inj ok⟩

/-- Every reply is documented, and can be sent exactly when what it copies can be rendered. -/
theorem replyTo_sound {p : Projection} (serving : Serving p) (query : List (Text × Text))
    (endpoint : Endpoint) :
    ∃ reply, replyTo u d p query endpoint = .ok reply ∧
      reply.Sound (shown u d p query endpoint) := by
  cases endpoint with
  | apostles => exact apostles_sound serving query
  | search =>
    rw [replyTo, shown]
    cases found : searchPage u d p query with
    | error message => exact ⟨_, rfl, refused_sound message⟩
    | ok page =>
      obtain ⟨_, _, _, _, ok⟩ := searchPage_ok found
      exact ⟨_, rfl, pageReply_sound ok rfl⟩
  | conflicts =>
    rw [replyTo, shown]
    cases found : conflictsFound d p query with
    | error message => exact ⟨_, rfl, refused_sound message⟩
    | ok page =>
      obtain ⟨_, _, _, _, _, ok⟩ := conflictsFound_ok found
      exact ⟨_, rfl, pageReply_sound ok rfl⟩
  | node publicId =>
    rw [replyTo, shown]
    cases p.getNode publicId with
    | missing => exact ⟨_, rfl, missing_sound⟩
    | pending record => exact ⟨_, rfl, by decide, by simp [Renderable]⟩
    | node item => exact ⟨_, rfl, latin1_etag p _ _, by decide, by simp [Renderable], no_cursor⟩
  | neighbors publicId =>
    rw [replyTo, shown]
    cases found : neighborsFound d p publicId query with
    | error message => exact ⟨_, rfl, refused_sound message⟩
    | ok answered =>
      cases answered with
      | none => exact ⟨_, rfl, missing_sound⟩
      | some page =>
        obtain ⟨_, _, _, _, ok⟩ := neighborsFound_ok found
        obtain ⟨⟨node, there⟩, _, _, _, served⟩ := neighbors_known ok
        obtain ⟨member, id⟩ := mem_of_node? there
        have plain := serving.ids node member
        rw [textOf_text id] at plain
        exact ⟨_, rfl, pageReply_sound served (by simp [Json.wellFormed_lit, plain])⟩
  | schema =>
    rw [replyTo, shown]
    exact ⟨_, rfl, latin1_etag p _ _, by decide,
      iff_of_true (renderable_schema serving) renderable_nil, no_cursor⟩
  | release projectionId =>
    rw [replyTo, shown]
    split
    · exact ⟨_, rfl, latin1_etag p _ _, by decide, renderable_release serving, no_cursor⟩
    · exact ⟨_, rfl, by decide, iff_of_true rfl renderable_nil⟩

/-! Sending a reply, and the whole of a request. -/

/-- A documented status, with a body that is UTF-8 and strict JSON. -/
def Answered (outcome : Except Crash Response) : Prop :=
  ∃ response, outcome = .ok response ∧ response.status ∈ documentedStatuses ∧
    response.body.all Json.renderable = true

theorem answered_makeResponse {status : Nat} {headers : Headers} {body : Option Json}
    (documented : status ∈ documentedStatuses)
    (plain : headers.all (fun header => latin1 header.2) = true) :
    Answered (makeResponse status headers body) ↔ body.all Json.renderable = true := by
  unfold makeResponse
  rw [plain, Bool.true_and]
  split
  · rename_i written
    exact iff_of_true ⟨_, rfl, documented, written⟩ written
  · rename_i unwritten
    refine iff_of_false ?_ unwritten
    rintro ⟨_, crashed, _⟩
    cases crashed

theorem latin1_headers {p : Projection} (serving : Serving p) {etag : Option Text}
    {cacheControl : Text}
    (tag : ∀ text ∈ etag, latin1 text = true) (plain : latin1 cacheControl = true) :
    (headersOf (some p) etag cacheControl).all (fun header => latin1 header.2) = true := by
  have vary : latin1 (lit "X-Ontology-Key") = true := by decide
  cases etag with
  | none => simp [headersOf, plain, vary, serving.digest]
  | some text => simp [headersOf, plain, vary, serving.digest, tag text rfl]

theorem answered_error {p : Projection} (serving : Serving p) (request : HttpRequest) {status : Nat}
    (documented : status ∈ documentedStatuses) (code message : String) (details : Option Json) :
    Answered (errorResponse (some p) request.requestId status code message details) ↔
      details.all Json.renderable = true := by
  have id : Json.wellFormed request.requestId = true := wellFormed_lowerHex request.requestId_hex
  have headers : (headersOf (some p) none (lit "private, no-store")).all
      (fun header => latin1 header.2) = true :=
    latin1_headers serving (fun _ none_ => nomatch none_) (by decide)
  rw [errorResponse, answered_makeResponse documented headers, Option.all_some]
  cases details <;> simp [errorContent, metaPayload, id, Json.wellFormed_lit, serving.metadata]

/-- The page, when there is one, is as plain as its cursor. -/
theorem renderable_success {p : Projection} (serving : Serving p) {data : Json}
    {next : Option (Option Text)}
    (cursor : ∀ text, next = some (some text) → Json.wellFormed text = true) :
    (successContent p data next).renderable = true ↔ data.renderable = true := by
  have whole : (Json.object [(lit "data", data), (lit "meta", .object p.metadata)]).renderable =
      true ↔
      data.renderable = true := by
    simp [Json.wellFormed_lit, serving.metadata]
  rw [successContent, Json.renderable_append, whole]
  refine and_iff_left ?_
  cases next with
  | none => rfl
  | some shown =>
    cases shown with
    | none => decide
    | some text => simp [Json.wellFormed_lit, paramJson, cursor text rfl]

variable (u d) in
/-- The client already holds what it asks for. -/
def revalidated (p : Projection) (request : HttpRequest) : Bool :=
  match replyTo u d p request.query request.endpoint with
  | .ok (.served etag _ _ _) => etagMatches request.ifNoneMatch etag
  | _ => false

theorem answered_authorized {p : Projection} (serving : Serving p) (request : HttpRequest) :
    Answered (do
      let reply ← replyTo u d p request.query request.endpoint
      sendReply p request reply) ↔
      revalidated u d p request = true ∨
        Renderable (shown u d p request.query request.endpoint) := by
  obtain ⟨reply, found, sound⟩ :=
    replyTo_sound (u := u) (d := d) serving request.query request.endpoint
  rw [revalidated, found]
  change Answered (sendReply p request reply) ↔ _
  cases reply with
  | failed status code message details =>
    obtain ⟨documented, same⟩ := sound
    rw [sendReply, answered_error serving request documented, same]
    simp
  | served etag cacheControl data next =>
    obtain ⟨tag, plain, same, cursor⟩ := sound
    have headers : (headersOf (some p) (some etag) cacheControl).all
        (fun header => latin1 header.2) = true :=
      latin1_headers serving (fun text same => Option.some.inj same ▸ tag) plain
    rw [sendReply]
    split
    · rename_i held
      exact iff_of_true ((answered_makeResponse (by decide) headers).mpr rfl) (.inl held)
    · rename_i fresh
      rw [answered_makeResponse (by decide) headers, ← same, Option.all_some]
      rw [renderable_success serving cursor]
      simp [fresh]

/-- What is asked of a request: that its key can be compared, and that what a right key opens
can be rendered. -/
def Answerable (u : Unicode) (d : Digests) (runtime : Runtime) (p : Projection)
    (request : HttpRequest) : Prop :=
  ∀ key ∈ request.ontologyKey, key ≠ [] →
    key.all (· < 128) = true ∧ runtime.internalKey.all (· < 128) = true ∧
      (key = runtime.internalKey →
        revalidated u d p request = true ∨ Renderable (shown u d p request.query request.endpoint))

theorem answered_serving {runtime : Runtime} {p : Projection} (serving : Serving p)
    (enabled : (runtime.enabled && runtime.ready) = true) (installed : runtime.projection = some p)
    (keyed : runtime.internalKey ≠ []) (request : HttpRequest) :
    Answered (respond u d runtime request) ↔ Answerable u d runtime p request := by
  have unauthorized : Answered (errorResponse (some p) request.requestId 401 "ONTOLOGY_UNAUTHORIZED"
      "A valid internal ontology key is required." none) :=
    (answered_error serving request (by decide) _ _ none).mpr rfl
  unfold respond
  rw [enabled, installed]
  dsimp only
  cases supplied : request.ontologyKey with
  | none => exact iff_of_true unauthorized (by rw [Answerable, supplied]; exact nofun)
  | some key =>
    simp only [Answerable, supplied, Option.mem_some_iff, forall_eq']
    by_cases empty : key = []
    · subst empty
      exact iff_of_true unauthorized fun nonempty => absurd rfl nonempty
    · rw [Runtime.authorized, if_neg (by simp [empty, keyed]), compareDigest]
      by_cases ascii : key.all (· < 128) = true ∧ runtime.internalKey.all (· < 128) = true
      · rw [ascii.1, ascii.2]
        by_cases same : key = runtime.internalKey
        · have right : (key == runtime.internalKey) = true := beq_iff_eq.mpr same
          simp only [Bool.and_self, if_true, right]
          refine (answered_authorized serving request).trans ?_
          exact ⟨fun fine _ => ⟨trivial, trivial, fun _ => fine⟩, fun each => (each empty).2.2 same⟩
        · have wrong : (key == runtime.internalKey) = false := beq_eq_false_iff_ne.mpr same
          simp only [Bool.and_self, if_true, wrong]
          exact iff_of_true unauthorized fun _ => ⟨trivial, trivial, fun right => absurd right same⟩
      · rw [if_neg (by simpa [Bool.and_eq_true] using ascii)]
        refine iff_of_false ?_ fun each => ascii ⟨(each empty).1, (each empty).2.1⟩
        rintro ⟨_, crashed, _⟩
        cases crashed

/-- For a runtime that was configured with a snapshot, or left disabled. -/
theorem routes_answer_iff {settings : Settings} {disk : Text → File} {runtime : Runtime}
    (configured : configure u d settings disk = (.ok (), runtime))
    (whole : ∀ path sha256 snapshot, disk path = .bytes sha256 (some snapshot) →
      snapshot.distinct = true)
    (request : HttpRequest) :
    Answered (respond u d runtime request) ↔ ∀ p ∈ runtime.projection,
      Answerable u d runtime p request := by
  rcases configure_ok configured with rfl | ⟨secret, sha256, snapshot, key, long, file, valid, rfl⟩
  · refine iff_of_true ?_ nofun
    have id : Json.wellFormed request.requestId = true := wellFormed_lowerHex request.requestId_hex
    refine (answered_makeResponse (by decide) (by decide)).mpr ?_
    simp [errorContent, metaPayload, id, Json.wellFormed_lit, schemaVersion, projectionId]
  · have serving : Serving
        (Projection.init d snapshot secret) := serving_init (whole _ _ _ file) valid
    have keyed : settings.ontologyInternalKey ≠ [] := by
      intro empty
      rw [empty] at key
      cases key
      exact absurd long (by decide)
    rw [answered_serving serving rfl rfl keyed request]
    simp only [Option.mem_some_iff, forall_eq']

def sampleDisk : Text → File := fun _ => .bytes sampleDigest (some plainSnapshot)

theorem plainSnapshot_distinct : plainSnapshot.distinct = true := samples_distinct.1

theorem sampleDisk_whole (path sha256 : Text) (snapshot : Json)
    (held : sampleDisk path = .bytes sha256 (some snapshot)) : snapshot.distinct = true := by
  cases held
  exact plainSnapshot_distinct

theorem plainSnapshot_configured (d : Digests) :
    configure sampleUnicode d sampleSettings sampleDisk = (.ok (),
    { enabled := true, ready := true,
      projection := some (Projection.init d plainSnapshot (List.replicate 32 107)),
      internalKey := sampleSettings.ontologyInternalKey }) := by
  have key : Utf8.encode sampleSettings.ontologyInternalKey = some (List.replicate 32 107) := by
    decide
  have short : plainSnapshot.writable = true := by decide
  have shape : sha256Re sampleDigest = true := by decide
  have made : loaded sampleUnicode d sampleSettings sampleDisk (List.replicate 32 107) =
      .ok (Projection.init d plainSnapshot (List.replicate 32 107)) := by
    refine (load_document shape shape short).trans (bind_ok.mpr ⟨(), plainSnapshot_valid, ?_⟩)
    exact construct_ok.mpr ⟨by decide, short, rfl⟩
  rw [configure_of_loaded rfl key (by decide) (by decide), made]

/-- A request for the schema, with the key that is given. -/
def schemaRequest (key : Option Text) : HttpRequest :=
  ⟨.schema, [], key, none, lit "0123456789abcdef", by decide⟩

theorem routes_answer_sample : plainSnapshot.distinct = true ∧ ∀ d, ∃ runtime,
    configure sampleUnicode d sampleSettings sampleDisk = (.ok (), runtime) ∧
      Answered (respond sampleUnicode d runtime
        (schemaRequest (some sampleSettings.ontologyInternalKey))) := by
  refine ⟨plainSnapshot_distinct, fun d => ⟨_, plainSnapshot_configured d,
    (routes_answer_iff (plainSnapshot_configured d) sampleDisk_whole _).mpr ?_⟩⟩
  rintro p - key ⟨⟩ -
  have ascii : sampleSettings.ontologyInternalKey.all (· < 128) = true := by decide
  exact ⟨ascii, ascii, fun _ => .inr nofun⟩

/-- A key header that holds a letter beyond ASCII. -/
theorem accented_key_crashes : plainSnapshot.distinct = true ∧ ∀ d, ∃ runtime,
    configure sampleUnicode d sampleSettings sampleDisk = (.ok (), runtime) ∧
      ¬ Answered (respond sampleUnicode d runtime (schemaRequest (some [233]))) := by
  refine ⟨plainSnapshot_distinct, fun d => ⟨_, plainSnapshot_configured d, ?_⟩⟩
  rintro ⟨_, crashed, -⟩
  cases crashed

end Metahumotonic.Ontology
