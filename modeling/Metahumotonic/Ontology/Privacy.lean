import Metahumotonic.Ontology.Routes
import Metahumotonic.Ontology.SlotNine

/-! What leaves the facade. Every body is made of copies of the scanned snapshot and of
fixed texts. The scanner compares the names of objects with the forbidden keys but does
not look for markers in them, so a name may carry one out. -/
namespace Metahumotonic.Ontology

open Library

variable (u : Unicode)

/-- A name that may be served: no forbidden key, no digest, no marker. -/
def Unicode.cleanKey (key : Text) : Bool := u.permittedKey key && u.unmarked key

def Clean (v : Json) : Prop := v.all u.cleanKey u.unmarked = true

/-- No name of an object holds a marker, at any depth. -/
def NamesUnmarked (v : Json) : Prop := v.all u.unmarked (fun _ => true) = true

/-- A document as it is parsed: no object repeats a name. -/
structure Document where
  json : Json
  distinct : json.distinct = true

variable {u}

/-- The scanner covers everything but the markers in names. -/
theorem clean_iff {v : Json} :
    Clean u v ↔ v.all u.permittedKey u.unmarked = true ∧ NamesUnmarked u v := by
  have apart : v.all (fun k => u.permittedKey k && u.unmarked k) (fun s => u.unmarked s && true) =
      _ := v.all_and
  simp only [Bool.and_true] at apart
  change v.all (fun k => u.permittedKey k && u.unmarked k) (fun s => u.unmarked s) = true ↔ _
  rw [apart, Bool.and_eq_true]
  rfl

/-! Fixed texts are ASCII, but for the name of the undecided slot. -/

def harmless (s : Text) : Bool :=
  s.all (· < 128) && permitted (s.map asciiLower) && markerFree (s.map asciiLower)

theorem harmless_clean {s : Text} (ok : harmless s = true) : u.cleanKey s = true := by
  simp only [harmless, Bool.and_eq_true] at ok
  rw [Unicode.cleanKey, Unicode.permittedKey, Unicode.unmarked, casefold_ascii u ok.1.1,
    ok.1.2, ok.2]
  rfl

theorem harmless_unmarked {s : Text} (ok : harmless s = true) : u.unmarked s = true :=
  (Bool.and_eq_true_iff.mp (harmless_clean ok)).2

/-- The names that the facade writes itself. -/
def servedNames : List Text :=
  [lit "public_id", lit "kind", lit "canonical_name", lit "aliases", lit "candidate_count",
    lit "default_servable", lit "body_policy", lit "position", lit "selection_state",
      lit "candidates",
    lit "entity", lit "direction", lit "relationship", lit "node", lit "counts", lit "collections",
    lit "relationships", lit "conflicts", lit "data", lit "meta", lit "items", lit "page",
      lit "next_cursor",
    lit "error", lit "code", lit "message", lit "details", lit "node_public_id"] ++
  collectionKinds.map Collection.name

/-- Every name and kind that the contract fixes. -/
def fixedNames : List Text :=
  servedNames ++ collectionKinds.map Collection.kind ++ collectionKinds.flatMap
    Collection.allowedKeys ++
    entityAllowedKeys ++ candidateKeys ++ relationshipKeys ++ conflictAllowedKeys ++
    (expectedMeta []).map Prod.fst

theorem fixedNames_harmless : fixedNames.all harmless = true := by decide

theorem harmless_fixed {s : Text} (listed : s ∈ fixedNames) : harmless s = true :=
  List.all_eq_true.mp fixedNames_harmless s listed

theorem all_harmless {names : List Text} (listed : names ⊆ fixedNames) :
    names.all harmless = true :=
  List.all_eq_true.mpr fun _ member => harmless_fixed (listed member)

theorem served_fixed {s : Text} (listed : s ∈ servedNames) : s ∈ fixedNames := by
  simp [fixedNames, listed]

theorem served_clean {k : Text} (listed : k ∈ servedNames := by simp [servedNames]) :
    u.cleanKey k = true :=
  harmless_clean (harmless_fixed (served_fixed listed))

theorem kind_unmarked (c : Collection) : u.unmarked c.kind = true := by
  have listed : c.kind ∈ collectionKinds.map Collection.kind :=
    List.mem_map_of_mem (mem_collectionKinds c)
  exact harmless_unmarked (harmless_fixed (by simp [fixedNames, listed]))

theorem unmarked_of_plain {s : Text}
    (point : ∀ c ∈ s, c < 128 ∧ asciiLower c ≠ 47 ∧ asciiLower c ≠ 58) :
    u.unmarked s = true := by
  have ascii : s.all (· < 128) = true := List.all_eq_true.mpr fun c member =>
    decide_eq_true (point c member).1
  rw [Unicode.unmarked, casefold_ascii u ascii]
  apply markerFree_of_plain
  · intro there
    obtain ⟨c, member, same⟩ := List.mem_map.mp there
    exact (point c member).2.1 same
  · intro there
    obtain ⟨c, member, same⟩ := List.mem_map.mp there
    exact (point c member).2.2 same

/-- The codes and messages of the refusals. -/
def errorTexts : List String :=
  badRequests ++ ["ONTOLOGY_BAD_REQUEST", "CONFLICT_PENDING",
    "This ontology slot has no ratified default entity.",
    "ONTOLOGY_NODE_NOT_FOUND", "Ontology node not found.", "ONTOLOGY_RELEASE_NOT_FOUND",
    "Ontology release not found.", "ONTOLOGY_UNAUTHORIZED",
      "A valid internal ontology key is required."]

/-- A literal whose characters are ASCII, without a slash or a colon. -/
theorem literal_unmarked {text : String} {chars : List Char} (spelled : text = String.ofList chars)
    (plain : (chars.all fun c => c.toNat < 128 && asciiLower c.toNat != 47 && asciiLower c.toNat !=
      58) = true) :
    u.unmarked (lit text) = true := by
  apply unmarked_of_plain
  intro point member
  rw [lit, spelled, String.toList_ofList] at member
  obtain ⟨c, there, rfl⟩ := List.mem_map.mp member
  have held := List.all_eq_true.mp plain c there
  simp only [Bool.and_eq_true, decide_eq_true_eq, bne_iff_ne] at held
  exact ⟨held.1.1, held.1.2, held.2⟩

theorem error_unmarked {text : String} (listed : text ∈ errorTexts := by simp [errorTexts]) :
    u.unmarked (lit text) = true := by
  have each : ∀ text ∈ errorTexts, u.unmarked (lit text) = true := by
    simp only [errorTexts, badRequests, List.cons_append, List.nil_append]
    repeat refine List.forall_mem_cons.mpr ⟨literal_unmarked rfl (by decide), ?_⟩
    exact nofun
  exact each text listed

theorem undecided_unmarked : u.unmarked (lit "미결") = true := by
  have folded : u.casefold (lit "미결") = lit "미결" := by
    change u.fold 0xBBF8 ++ (u.fold 0xACB0 ++ []) = _
    rw [u.fold_hangul 0xBBF8 (by decide) (by decide), u.fold_hangul 0xACB0 (by decide) (by decide)]
    rfl
  rw [Unicode.unmarked, folded]
  decide

/-- A cursor has neither a slash nor a colon. -/
theorem cursor_unmarked {d : Digests} {key : Bytes} (payload : Json) :
    u.unmarked (encodeCursor d key payload) = true := by
  have point : ∀ c ∈ encodeCursor d key payload, c < 128 ∧ asciiLower c ≠ 47 ∧
      asciiLower c ≠ 58 := by
    intro c member
    rcases encodeCursor_plain payload member with rfl | plain
    · decide
    · simp only [Base64.plain, Bool.or_eq_true, Bool.and_eq_true, decide_eq_true_eq,
        beq_iff_eq] at plain
      unfold asciiLower
      split <;> omega
  exact unmarked_of_plain point

/-! Clean documents are built from clean parts. -/

theorem clean_object {members : Members} :
    Clean u (.object members) ↔ ∀ k v, (k, v) ∈ members → u.cleanKey k = true ∧ Clean u v :=
      Json.all_object

theorem clean_array {vs : List Json} : Clean u (.array vs) ↔ ∀ v ∈ vs, Clean u v := Json.all_array

theorem clean_nil : Clean u (.object []) := rfl

theorem clean_cons {k : Text} {v : Json} {rest : Members} :
    Clean u (.object ((k, v) :: rest)) ↔ (u.cleanKey k = true ∧ Clean u v) ∧
      Clean u (.object rest) := by
  simp only [clean_object, List.mem_cons, Prod.mk.injEq]
  constructor
  · intro each
    exact ⟨each k v (.inl ⟨rfl, rfl⟩), fun j w there => each j w (.inr there)⟩
  · rintro ⟨here, later⟩ j w (⟨rfl, rfl⟩ | there)
    · exact here
    · exact later j w there

theorem clean_append {first later : Members} :
    Clean u (.object (first ++ later)) ↔ Clean u (.object first) ∧ Clean u (.object later) := by
  induction first with
  | nil => simp [clean_nil]
  | cons member rest ih =>
    obtain ⟨k, v⟩ := member
    rw [List.cons_append, clean_cons, clean_cons, ih]
    tauto

theorem clean_copyKeys {members : Members} (keys : List Text) (clean : Clean u (.object members)) :
    Clean u (.object (copyKeys keys members)) := by
  rw [clean_object] at clean ⊢
  intro k v there
  exact clean k v (mem_of_entry (mem_copyKeys.mp there).2)

theorem clean_setEntry {members : Members} {k : Text} {v : Json} (key : u.cleanKey k = true)
    (value : Clean u v)
    (clean : Clean u (.object members)) : Clean u (.object (setEntry k v members)) := by
  rw [clean_object] at clean ⊢
  intro j w there
  rcases mem_setEntry there with same | inside
  · cases same
    exact ⟨key, value⟩
  · exact clean j w inside

/-! What a whole document passes on to the parts that the facade reads. -/

section
variable {holds : Json → Prop}

theorem holds_mapping {v : Json} {members : Members} (found : mapping? v = some members)
    (whole : holds v) :
    holds (.object members) := by
  rwa [mapping?_eq.mp found] at whole

variable (inherits : Json.Hereditary holds)
include inherits

theorem inherits_items {v : Json} (whole : holds v) : ∀ w ∈ items v, holds w := by
  cases v with
  | array vs => exact fun w => inherits.item vs w whole
  | _ => exact List.forall_mem_nil _

theorem inherits_within {members : Members} (whole : holds (.object members)) (k : Text) :
    holds (.object (within members k)) := by
  unfold within
  cases found : mapping? (field members k) with
  | none => exact inherits.empty
  | some inner => exact holds_mapping found (inherits.field whole k)

theorem inherits_mappings {v : Json} (whole : holds v) {members : Members}
    (there : members ∈ (items v).filterMap mapping?) : holds (.object members) := by
  obtain ⟨w, inside, found⟩ := List.mem_filterMap.mp there
  exact holds_mapping found (inherits_items inherits whole w inside)

/-- The records, relationships and conflicts of a snapshot, and its metadata. -/
structure Inherited (holds : Json → Prop) (snapshot : Json) : Prop where
  metadata : holds (.object (metaOf snapshot))
  collections : ∀ c, ∀ record ∈ recordsByCollection (collectionsOf snapshot) c,
    holds (.object record)
  relationships : ∀ relationship ∈ relationshipsOf snapshot, holds (.object relationship)
  conflicts : ∀ conflict ∈ conflictsOf snapshot, holds (.object conflict)

theorem inherited {snapshot : Json} (whole : holds snapshot) : Inherited holds snapshot := by
  have root : holds (.object (rootOf snapshot)) := by
    unfold rootOf
    cases found : mapping? snapshot with
    | none => exact inherits.empty
    | some members => exact holds_mapping found whole
  have data := inherits_within inherits root (lit "data")
  have collections := inherits_within inherits data (lit "collections")
  constructor
  · exact inherits_within inherits root _
  · exact fun c record there => inherits_mappings inherits (inherits.field collections _) there
  · exact fun relationship there => inherits_mappings inherits (inherits.field data _) there
  · exact fun conflict there => inherits_mappings inherits (inherits.field data _) there

end

theorem clean_hereditary : Json.Hereditary (Clean u) := Json.hereditary_all

theorem clean_field {members : Members} (clean : Clean u (.object members)) (k : Text) :
    Clean u (field members k) := clean_hereditary.field clean k

theorem unmarked_text {v : Json} {s : Text} (found : text? v = some s) (clean : Clean u v) :
    u.unmarked s = true := by
  rwa [text?_eq.mp found] at clean

theorem unmarked_textOf {members : Members} (clean : Clean u (.object members)) (k : Text) :
    u.unmarked (textOf members k) = true := by
  unfold textOf
  cases found : text? (field members k) with
  | none => exact harmless_unmarked rfl
  | some s => exact unmarked_text found (clean_field clean k)

/-! The index keeps what it serves clean. -/

theorem clean_publicRecord (c : Collection) {record : Members} (clean : Clean u (.object record)) :
    Clean u (.object (publicRecord c record)) := by
  have copied := clean_copyKeys c.allowedKeys clean
  have candidates : Clean u
      (.array (((items (field record (lit "candidates"))).filterMap mapping?).map
      fun candidate => .object (copyKeys candidateKeys candidate))) := by
    refine clean_array.mpr ?_
    intro v there
    obtain ⟨candidate, inside, rfl⟩ := List.mem_map.mp there
    exact clean_copyKeys _ (inherits_mappings clean_hereditary (clean_field clean _) inside)
  have finished : ∀ {entity : Json}, Clean u entity → Clean u (.object
      (if hasName record (lit "candidates") then
        setEntry (lit "candidates")
          (.array (((items (field record (lit "candidates"))).filterMap mapping?).map
          fun candidate => .object (copyKeys candidateKeys candidate)))
          (setEntry (lit "entity") entity (copyKeys c.allowedKeys record))
      else setEntry (lit "entity") entity (copyKeys c.allowedKeys record))) := by
    intro entity held
    have withEntity := clean_setEntry (served_clean (k := lit "entity")) held copied
    split
    · exact clean_setEntry served_clean candidates withEntity
    · exact withEntity
  unfold publicRecord
  simp only
  split
  · exact copied
  · cases found : mapping? (field record (lit "entity")) with
    | none => exact finished rfl
    | some entity => exact finished (clean_copyKeys _ (holds_mapping found (clean_field clean _)))

theorem clean_nodeOf (c : Collection) {record : Members} (clean : Clean u (.object record)) :
    Clean u (.object (nodeOf c record)) :=
  clean_cons.mpr ⟨⟨served_clean, kind_unmarked c⟩, clean⟩

theorem clean_namesOf {record : Members} (clean : Clean u (.object record)) :
    u.unmarked (namesOf record).1 = true ∧ ∀ s ∈ (namesOf record).2, u.unmarked s = true := by
  refine ⟨unmarked_textOf clean _, fun s there => ?_⟩
  obtain ⟨v, inside, found⟩ := List.mem_filterMap.mp there
  exact unmarked_text found (inherits_items clean_hereditary (clean_field clean _) v inside)

theorem clean_displayIdentity {node : Members} (clean : Clean u (.object node)) :
    u.unmarked (displayIdentity node).1 = true ∧ ∀ s ∈ (displayIdentity node).2,
      u.unmarked s = true := by
  unfold displayIdentity
  split
  · split
    · rename_i entity found
      exact clean_namesOf (holds_mapping found (clean_field clean _))
    · exact ⟨undecided_unmarked, List.forall_mem_nil _⟩
  · exact clean_namesOf clean

theorem clean_summary {node : Members} (clean : Clean u (.object node)) :
    Clean u (.object (summary node)) := by
  obtain ⟨name, aliases⟩ := clean_displayIdentity clean
  have head : Clean u (.object (summaryHead node)) := by
    simp only [summaryHead, clean_cons]
    refine ⟨⟨served_clean, clean_field clean _⟩, ⟨served_clean, clean_field clean _⟩,
      ⟨served_clean, name⟩, ⟨served_clean, clean_array.mpr ?_⟩, clean_nil⟩
    intro v there
    obtain ⟨s, inside, rfl⟩ := List.mem_map.mp there
    exact aliases s inside
  have copied := clean_append.mpr ⟨head, clean_copyKeys summaryKeys clean⟩
  unfold summary
  simp only
  split
  · split
    · rename_i entity found
      have kept := clean_copyKeys entitySummaryKeys (holds_mapping found (clean_field clean _))
      generalize summaryHead node ++ copyKeys summaryKeys node = shown at copied
      generalize copyKeys entitySummaryKeys entity = chosen at kept
      clear head
      induction chosen generalizing shown with
      | nil => exact copied
      | cons member rest ih =>
        obtain ⟨⟨key, value⟩, later⟩ := clean_cons.mp kept
        exact ih _ (clean_setEntry key value copied) later
    · split
      · refine clean_append.mpr ⟨copied, ?_⟩
        simp only [clean_cons]
        exact ⟨⟨served_clean, rfl⟩, ⟨served_clean, rfl⟩,
          ⟨served_clean, clean_field clean _⟩, clean_nil⟩
      · exact copied
  · exact copied

theorem clean_conflictPayload {record : Members} (clean : Clean u (.object record)) :
    Clean u (.object (conflictPayload record)) := by
  have candidates : Clean u (if hasName record (lit "candidates")
      then field record (lit "candidates")
      else .array []) := by
    split
    · exact clean_field clean _
    · rfl
  simp only [conflictPayload, clean_cons]
  exact ⟨⟨served_clean, clean_field clean _⟩,
    ⟨served_clean, kind_unmarked .apostles⟩, ⟨served_clean, clean_field clean _⟩,
    ⟨served_clean, clean_field clean _⟩, ⟨served_clean, clean_field clean _⟩,
    ⟨served_clean, rfl⟩, ⟨served_clean, candidates⟩, clean_nil⟩

/-- A projection that holds nothing but clean documents. -/
structure CleanIndex (u : Unicode) (p : Projection) : Prop where
  metadata : Clean u (.object p.metadata)
  collections : ∀ c, ∀ record ∈ p.collections c, Clean u (.object record)
  relationships : ∀ relationship ∈ p.relationships, Clean u (.object relationship)
  conflicts : ∀ conflict ∈ p.conflicts, Clean u (.object conflict)

section
variable {d : Digests} {p : Projection}

theorem clean_init {snapshot : Json} {secret : Bytes} (clean : Clean u snapshot) :
    CleanIndex u (Projection.init d snapshot secret) := by
  have parts := inherited clean_hereditary clean
  constructor
  · exact parts.metadata
  · intro c copied there
    obtain ⟨record, inside, rfl⟩ := List.mem_map.mp there
    exact clean_publicRecord c (parts.collections c record inside)
  · intro copied there
    obtain ⟨relationship, inside, rfl⟩ := List.mem_map.mp there
    exact clean_copyKeys _ (parts.relationships relationship inside)
  · intro copied there
    obtain ⟨conflict, inside, rfl⟩ := List.mem_map.mp there
    exact clean_copyKeys _ (parts.conflicts conflict inside)

namespace CleanIndex

variable (clean : CleanIndex u p)
include clean

theorem node {node : Members} (member : node ∈ p.nodes) : Clean u (.object node) := by
  obtain ⟨c, record, inside, rfl⟩ := mem_nodes.mp member
  exact clean_nodeOf c (clean.collections c record inside)

theorem found {publicId : Text} {node : Members} (found : p.node? publicId = some node) :
    Clean u (.object node) ∧ u.unmarked publicId = true := by
  obtain ⟨member, id⟩ := mem_of_node? found
  have whole := clean.node member
  refine ⟨whole, ?_⟩
  have text := clean_field whole (lit "public_id")
  rwa [id] at text

theorem entry {relationship : Members} (member : relationship ∈ p.relationships) {publicId : Text}
    {direction : Direction} {edge : Text × Text}
    (side : edgeFrom publicId direction relationship = some edge) :
    Clean u (.object (p.entry relationship edge)) := by
  have way : u.unmarked edge.1 = true := by
    unfold edgeFrom at side
    split at side
    · cases side
      exact literal_unmarked rfl (by decide)
    · split at side
      · cases side
        exact literal_unmarked rfl (by decide)
      · cases side
  have other : Clean u (.object (((p.node? edge.2).map summary).getD [])) := by
    cases there : p.node? edge.2 with
    | none => exact clean_nil
    | some node => exact clean_summary (clean.found there).1
  simp only [Projection.entry, clean_cons]
  exact ⟨⟨served_clean, way⟩,
    ⟨served_clean, clean.relationships relationship member⟩,
    ⟨served_clean, other⟩, clean_nil⟩

theorem releaseDocument : Clean u (.object p.releaseDocument) := by
  have counts : Clean u
      (.object (collectionKinds.map fun c => (c.name, .int (p.collections c).length))) := by
    apply clean_object.mpr
    intro k v there
    obtain ⟨c, _, same⟩ := List.mem_map.mp there
    cases same
    exact ⟨served_clean (List.mem_append_right _ (List.mem_map_of_mem (mem_collectionKinds c))),
      rfl⟩
  have shown : Clean u (.object (collectionKinds.map fun c =>
      (c.name, .array ((p.collections c).map fun record =>
        .object (summary (nodeOf c record)))))) := by
    apply clean_object.mpr
    intro k v there
    obtain ⟨c, _, same⟩ := List.mem_map.mp there
    cases same
    refine ⟨served_clean (List.mem_append_right _ (List.mem_map_of_mem (mem_collectionKinds c))),
      ?_⟩
    apply clean_array.mpr
    intro w inside
    obtain ⟨record, member, rfl⟩ := List.mem_map.mp inside
    exact clean_summary (clean_nodeOf c (clean.collections c record member))
  have conflicts : Clean u (.array (p.conflicts.map .object)) := by
    apply clean_array.mpr
    intro w inside
    obtain ⟨conflict, member, rfl⟩ := List.mem_map.mp inside
    exact clean.conflicts conflict member
  simp only [Projection.releaseDocument, clean_append, clean_cons]
  exact ⟨clean.metadata,
    ⟨served_clean, ⟨served_clean, counts⟩, ⟨served_clean, rfl⟩,
      ⟨served_clean, rfl⟩, clean_nil⟩,
    ⟨served_clean, shown⟩, ⟨served_clean, conflicts⟩, clean_nil⟩

theorem successBody {data : Json} (inner : Clean u data) : Clean u (successBody p data) := by
  simp only [Ontology.successBody, clean_cons]
  exact ⟨⟨served_clean, inner⟩, ⟨served_clean, clean.metadata⟩, clean_nil⟩

theorem errorBody {code message : String} {details : Members} (known : u.unmarked (lit code) = true)
    (plain : u.unmarked (lit message) = true) (inner : Clean u (.object details)) :
    Clean u (errorBody p code message details) := by
  simp only [Ontology.errorBody, List.cons_append, List.nil_append, clean_cons]
  exact ⟨⟨served_clean, ⟨served_clean, known⟩,
      ⟨served_clean, plain⟩, inner⟩,
    ⟨served_clean, clean.metadata⟩, clean_nil⟩

theorem pageBody {data : Members} {items : List Json} {route : Text} {params : Params} {limit : Nat}
    {cursor : Option Text} {served : Page Text Json}
    (ok : p.page d items route params limit cursor = .ok served) (head : Clean u (.object data))
    (each : ∀ v ∈ items, Clean u v) : Clean u (pageBody p data served) := by
  have next : Clean u (cursorJson served.next) := by
    unfold Projection.page page at ok
    split at ok
    · cases ok
    · cases ok
      simp only [cut]
      split
      · exact cursor_unmarked _
      · rfl
  have listed : Clean u (.array served.items) :=
    clean_array.mpr fun v there => each v (page_subset ok v there)
  simp only [Ontology.pageBody, clean_cons, clean_append]
  exact ⟨⟨served_clean, head, ⟨served_clean, listed⟩, clean_nil⟩,
    ⟨served_clean, clean.metadata⟩,
    ⟨served_clean, ⟨served_clean, next⟩, clean_nil⟩, clean_nil⟩

/-- Whatever is asked, the answer is clean. -/
theorem served {body : Json} (served : Served u d p body) : Clean u body := by
  have refused : ∀ message ∈ badRequests,
      Clean u (Ontology.errorBody p "ONTOLOGY_BAD_REQUEST" message []) :=
    fun message listed => clean.errorBody error_unmarked
      (error_unmarked (List.mem_append_left _ listed)) clean_nil
  have missing : Clean u
      (Ontology.errorBody p "ONTOLOGY_NODE_NOT_FOUND" "Ontology node not found." []) :=
    clean.errorBody error_unmarked error_unmarked clean_nil
  cases served with
  | search query kind limit cursor page ok =>
    refine clean.pageBody (searchRoute_ok ok) clean_nil fun v there => ?_
    obtain ⟨node, inside, rfl⟩ := List.mem_map.mp there
    have member := (List.mem_filter.mp ((List.mem_insertionSort _).mp inside)).1
    exact clean_summary (clean.node member)
  | searchRefused query kind limit cursor message bad => exact refused _ (searchRoute_error bad)
  | conflicts subject severity status limit cursor page ok =>
    refine clean.pageBody (conflictsRoute_ok ok) clean_nil fun v there => ?_
    obtain ⟨conflict, inside, rfl⟩ := List.mem_map.mp there
    exact clean.conflicts _ (List.mem_filter.mp ((List.mem_insertionSort _).mp inside)).1
  | conflictsRefused subject severity status limit cursor message bad =>
    exact refused _ (conflictsRoute_error bad)
  | node publicId node there =>
    unfold Projection.getNode at there
    split at there
    · cases there
    · rename_i other looked
      split at there
      · cases there
      · cases there
        exact clean.successBody (clean.found looked).1
  | nodePending publicId record there =>
    unfold Projection.getNode at there
    split at there
    · cases there
    · rename_i other looked
      split at there
      · cases there
        refine clean.errorBody error_unmarked error_unmarked ?_
        rw [clean_cons]
        exact ⟨⟨served_clean, clean_conflictPayload (clean.found looked).1⟩, clean_nil⟩
      · cases there
  | nodeMissing publicId there => exact missing
  | neighbors publicId direction predicate limit cursor page ok =>
    obtain ⟨way, same⟩ := neighborsRoute_ok ok
    unfold Projection.neighbors at same
    split at same
    · cases same
    · rename_i there
      obtain ⟨node, looked⟩ := Option.ne_none_iff_exists'.mp (by simpa using there)
      have head : Clean u (.object [(lit "node_public_id", .text publicId)]) :=
        clean_cons.mpr ⟨⟨served_clean, (clean.found looked).2⟩, clean_nil⟩
      refine clean.pageBody (Option.some.inj same) head fun v there => ?_
      obtain ⟨entry, inside, rfl⟩ := List.mem_map.mp there
      obtain ⟨relationship, member, made⟩ :=
        List.mem_filterMap.mp ((List.mem_insertionSort _).mp inside)
      split at made
      · obtain ⟨edge, side, rfl⟩ := Option.map_eq_some_iff.mp made
        exact clean.entry member side
      · cases made
  | neighborsMissing publicId direction predicate limit cursor ok => exact missing
  | neighborsRefused publicId direction predicate limit cursor message bad =>
    exact refused _ (neighborsRoute_error bad)
  | release => exact clean.successBody clean.releaseDocument
  | releaseMissing => exact clean.errorBody error_unmarked error_unmarked clean_nil
  | unauthorized => exact clean.errorBody error_unmarked error_unmarked clean_nil

end CleanIndex

end

/-! Every part of an accepted snapshot is served by some answer. -/

/-- An object with fixed names, when its fields are unmarked. -/
theorem names_object {members : Members} {allowed : List Text} (fixed : allowed.all harmless = true)
    (whole : (Json.object members).distinct = true) (named : Named members allowed)
    (each : ∀ k ∈ allowed, hasName members k = true → NamesUnmarked u (field members k)) :
    NamesUnmarked u (.object members) := by
  apply Json.all_object.mpr
  intro k v there
  have inside := named k v there
  refine ⟨harmless_unmarked (List.all_eq_true.mp fixed k inside), ?_⟩
  have present : hasName members k = true := by
    rw [hasName, entry_of_mem (Json.distinct_object.mp whole).1 there]
    rfl
  have same := each k inside present
  rwa [field_of_mem whole there] at same

theorem allowedKeys_harmless (c : Collection) : c.allowedKeys.all harmless = true := by
  refine all_harmless fun k member => ?_
  have listed : k ∈ collectionKinds.flatMap Collection.allowedKeys :=
    List.mem_flatMap.mpr ⟨c, mem_collectionKinds c, member⟩
  simp only [fixedNames, List.mem_append, listed, true_or, or_true]

theorem entityKeys_harmless : entityAllowedKeys.all harmless = true :=
  all_harmless fun k member => by simp only [fixedNames, List.mem_append, member, true_or, or_true]

theorem candidateKeys_harmless : candidateKeys.all harmless = true :=
  all_harmless fun k member => by simp only [fixedNames, List.mem_append, member, true_or, or_true]

theorem relationshipKeys_harmless : relationshipKeys.all harmless = true :=
  all_harmless fun k member => by simp only [fixedNames, List.mem_append, member, true_or, or_true]

theorem conflictKeys_harmless : conflictAllowedKeys.all harmless = true :=
  all_harmless fun k member => by simp only [fixedNames, List.mem_append, member, true_or, or_true]

theorem metaKeys_harmless : ((expectedMeta []).map Prod.fst).all harmless = true :=
  all_harmless fun k member => by simp only [fixedNames, List.mem_append, member, or_true]

theorem servedNames_harmless {names : List Text} (listed : names ⊆ servedNames) :
    names.all harmless = true :=
  all_harmless fun _ member => served_fixed (listed member)

theorem names_clean {v : Json} (clean : Clean u v) : NamesUnmarked u v := (clean_iff.mp clean).2

theorem names_text {members : Members} {k : Text} (text : ∃ s, field members k = .text s) :
    NamesUnmarked u (field members k) := by
  obtain ⟨s, same⟩ := text
  rw [same]
  rfl

/-- A candidate holds texts, and whether it may be served. -/
theorem names_candidate {v : Json} (whole : v.distinct = true) (closed : notServable v = true)
    (shape : ∃ candidate, v = .object candidate ∧ CandidateOk candidate) : NamesUnmarked u v := by
  obtain ⟨candidate, rfl, good⟩ := shape
  refine names_object candidateKeys_harmless whole good.named fun k inside _ => ?_
  by_cases servable : k = lit "default_servable"
  · have value : field candidate (lit "default_servable") = .bool false := by
      simp only [notServable, mapping?, Option.map_some] at closed
      split at closed
      · rename_i same
        exact Option.some.inj same
      · cases closed
    rw [servable, value]
    rfl
  · exact names_text (good.texts k inside servable)

section
variable {d : Digests} {snapshot : Document} {digest : Text} {secret : Bytes}
  (accepted : Accepted u snapshot.json digest)
  (answers : ∀ body, Served u d (Projection.init d snapshot.json secret) body → Clean u body)
include answers

theorem release_clean :
    Clean u (.object (Projection.init d snapshot.json secret).releaseDocument) := by
  have body := answers _ .release
  rw [successBody, clean_cons] at body
  exact body.1.2

include accepted

theorem node_clean {node : Members} (member : node ∈ (Projection.init d snapshot.json secret).nodes)
    (settled : conflictPending node = false) : Clean u (.object node) := by
  have found : (Projection.init d snapshot.json secret).getNode (textOf node (lit "public_id")) =
      .node node := by
    simp only [Projection.getNode, node?_self accepted member, settled,
      Bool.false_eq_true, if_false]
  have body := answers _ (.node _ node found)
  rw [successBody, clean_cons] at body
  exact body.1.2

theorem names_conflict {conflict : Members} (member : conflict ∈ conflictsOf snapshot.json) :
    NamesUnmarked u (.object conflict) := by
  have good := accepted.conflicts conflict member
  have whole := (inherited Json.hereditary_distinct snapshot.distinct).conflicts conflict member
  have shown : Clean u (.object (copyKeys conflictAllowedKeys conflict)) := by
    have each := clean_field (release_clean answers) (lit "conflicts")
    rw [(release_conflicts _ (metadata_named accepted)).1] at each
    exact clean_array.mp each _ (List.mem_map_of_mem (List.mem_map_of_mem member))
  refine names_object conflictKeys_harmless whole good.named fun k _ _ => ?_
  have same := clean_field shown k
  rw [field_conflict good] at same
  exact names_clean same

/-- Slot 9 is shown without its fields, but the release shows its group. -/
theorem names_slot9 {record : Members}
    (member : record ∈ recordsByCollection (collectionsOf snapshot.json) .apostles)
    (nine : atPosition 9 record = true) {k : Text} (allowed : k ∈ Collection.apostles.allowedKeys)
    (present : hasName record k = true) : NamesUnmarked u (field record k) := by
  have good := (accepted.collections .apostles).records record member
  have slot := accepted.slots.slot9 record member nine
  have node : nodeOf .apostles (publicRecord .apostles record) ∈
      (Projection.init d snapshot.json secret).nodes := mem_nodes_init.mpr ⟨_, record, member, rfl⟩
  simp only [Collection.allowedKeys, List.mem_cons, List.not_mem_nil, or_false] at allowed
  rcases allowed with rfl | rfl | rfl | rfl | rfl | rfl | rfl
  · exact names_text ⟨_, slot.policy⟩
  · obtain ⟨vs, array, closed⟩ := slot.candidates
    obtain ⟨vs', same, shape⟩ := good.candidates rfl present
    rw [array] at same
    cases same
    have whole := (inherited Json.hereditary_distinct snapshot.distinct).collections _ record member
    have inner := Json.hereditary_distinct.field whole (lit "candidates")
    rw [array] at inner ⊢
    exact Json.all_array.mpr fun v there =>
      names_candidate (Json.hereditary_distinct.item vs v inner there) (closed v there)
        (shape v there)
  · rw [slot.entity]
    rfl
  · rw [atPosition_iff.mp nine]
    rfl
  · exact names_text ⟨_, good.publicId⟩
  · exact names_text ⟨_, slot.state⟩
  · have shown : Clean u
        (.object (summary (nodeOf .apostles (publicRecord .apostles record)))) := by
      have each := clean_field
        (inherits_within clean_hereditary (release_clean answers) (lit "collections"))
        (lit "apostles")
      rw [(release_conflicts _ (metadata_named accepted)).2] at each
      exact clean_array.mp each _ (List.mem_map.mpr ⟨_, List.mem_map_of_mem member, rfl⟩)
    have same := clean_field shown (lit "structural_group")
    have apart : lit "structural_group" ∉ headKeys := by decide
    rw [field_summary (by decide) (by decide),
      field_append_right (by rw [hasName_summaryHead, decide_eq_false apart]),
        field_copyKeys (by decide),
      field_apostle good (by decide)] at same
    exact names_clean same

theorem names_selected {record : Members}
    (member : record ∈ recordsByCollection (collectionsOf snapshot.json) .apostles)
    (other : atPosition 9 record = false) {k : Text} (allowed : k ∈ Collection.apostles.allowedKeys)
    (present : hasName record k = true) : NamesUnmarked u (field record k) := by
  have good := (accepted.collections .apostles).records record member
  have chosen := accepted.slots.selected record member other
  have node : nodeOf .apostles (publicRecord .apostles record) ∈
      (Projection.init d snapshot.json secret).nodes := mem_nodes_init.mpr ⟨_, record, member, rfl⟩
  have settled : conflictPending (nodeOf .apostles (publicRecord .apostles record)) = false := by
    rw [conflictPending_apostle good, chosen.state]
    decide
  have clean := node_clean accepted answers node settled
  have kind : ∀ j ∈ Collection.apostles.allowedKeys, j ≠ lit "kind" := by decide
  by_cases entity : k = lit "entity"
  · obtain ⟨inner, found⟩ := chosen.entity
    have fine : EntityOk inner := by
      rcases good.entity rfl with none_ | ⟨other, same, fine⟩
      · rw [none_] at found
        cases found
      · rw [same] at found
        cases found
        exact fine
    have whole := Json.hereditary_distinct.field
      ((inherited Json.hereditary_distinct snapshot.distinct).collections _ record member)
      (lit "entity")
    rw [entity, found]
    rw [found] at whole
    refine names_object entityKeys_harmless whole fine.named fun j _ _ => ?_
    have plain : lit "entity" ≠ lit "kind" := by decide
    have same := clean_field clean (lit "entity")
    rw [field_nodeOf plain, entity_publicRecord, found] at same
    have part : Clean u (field (copyKeys entityAllowedKeys inner) j) := clean_field same j
    rw [copyKeys_named fine.named] at part
    exact names_clean part
  · by_cases candidates : k = lit "candidates"
    · rw [candidates, chosen.candidates] at present
      cases present
    · have same := clean_field clean k
      rw [field_apostle good ⟨kind k allowed, entity, candidates⟩] at same
      exact names_clean same

theorem names_record {c : Collection} {record : Members}
    (member : record ∈ recordsByCollection (collectionsOf snapshot.json) c) :
    NamesUnmarked u (.object record) := by
  have good := (accepted.collections c).records record member
  have whole := (inherited Json.hereditary_distinct snapshot.distinct).collections c record member
  refine names_object (allowedKeys_harmless c) whole good.named ?_
  intro k allowed present
  by_cases apostle : c = .apostles
  · subst apostle
    cases nine : atPosition 9 record with
    | true => exact names_slot9 accepted answers member nine allowed present
    | false => exact names_selected accepted answers member nine allowed present
  · have node : nodeOf c (publicRecord c record) ∈ (Projection.init d snapshot.json secret).nodes :=
      mem_nodes_init.mpr ⟨_, record, member, rfl⟩
    have settled : conflictPending (nodeOf c (publicRecord c record)) = false := by
      rw [conflictPending, isApostle_nodeOf, decide_eq_false apostle]
      rfl
    have kind : k ≠ lit "kind" := by
      have each : ∀ c, ∀ j ∈ Collection.allowedKeys c, j ≠ lit "kind" := by
        intro c
        cases c <;> decide
      exact each c k allowed
    have same := clean_field (node_clean accepted answers node settled) k
    rw [field_nodeOf kind, field_publicRecord good.named fun same => absurd same apostle] at same
    exact names_clean same

end

theorem names_relationship {ids : List Text} {relationship : Members}
    (good : RelationshipOk ids relationship)
    (whole : (Json.object relationship).distinct = true) :
    NamesUnmarked u (.object relationship) := by
  refine names_object relationshipKeys_harmless whole good.named fun k inside _ => ?_
  obtain ⟨source, _, from_⟩ := good.source
  obtain ⟨target, _, to_⟩ := good.target
  apply names_text
  simp only [relationshipKeys, List.mem_cons, List.not_mem_nil, or_false] at inside
  rcases inside with rfl | rfl | rfl | rfl | rfl | rfl
  · exact good.texts _ (by decide)
  · exact ⟨source, from_⟩
  · exact good.texts _ (by decide)
  · exact ⟨_, good.id⟩
  · exact good.texts _ (by decide)
  · exact ⟨target, to_⟩

theorem names_meta {members : Members} {digest : Text} (same : metaMatches members digest = true)
    (whole : (Json.object members).distinct = true) : NamesUnmarked u (.object members) := by
  obtain ⟨named, values⟩ := metaMatches_named same
  have fixed : ((expectedMeta digest).map Prod.fst).all harmless = true := by
    have same : (expectedMeta digest).map Prod.fst = (expectedMeta []).map Prod.fst := rfl
    rw [same]
    exact metaKeys_harmless
  refine names_object fixed whole named fun k inside _ => ?_
  obtain ⟨member, there, rfl⟩ := List.mem_map.mp inside
  have texts : ∀ member ∈ expectedMeta digest, ∃ s, member.2 = .text s := by
    simp [expectedMeta]
  rw [values member.1 member.2 there]
  obtain ⟨s, text⟩ := texts member there
  rw [text]
  rfl

/-- When every answer is clean, no name of the snapshot holds a marker. -/
theorem names_snapshot {d : Digests} {snapshot : Document} {digest : Text} {secret : Bytes}
    (accepted : Accepted u snapshot.json digest)
    (answers : ∀ body, Served u d (Projection.init d snapshot.json secret) body → Clean u body) :
    NamesUnmarked u snapshot.json := by
  have whole := snapshot.distinct
  rw [accepted.root] at whole ⊢
  have parts := inherited Json.hereditary_distinct snapshot.distinct
  have data := Json.hereditary_distinct.field whole (lit "data")
  rw [accepted.dataField] at data
  have collections := Json.hereditary_distinct.field data (lit "collections")
  rw [accepted.collectionsField] at collections
  refine names_object (servedNames_harmless (by simp [servedNames])) whole accepted.rootNames
    fun k inside _ => ?_
  simp only [List.mem_cons, List.not_mem_nil, or_false] at inside
  rcases inside with rfl | rfl
  · rw [accepted.metaField]
    exact names_meta accepted.metaSame parts.metadata
  · rw [accepted.dataField]
    refine names_object (servedNames_harmless (by simp [servedNames])) data accepted.dataNames
      fun k inside _ => ?_
    simp only [List.mem_cons, List.not_mem_nil, or_false] at inside
    rcases inside with rfl | rfl | rfl
    · rw [accepted.collectionsField]
      refine names_object (servedNames_harmless (List.subset_append_right _ _)) collections
        accepted.collectionsNames fun k inside _ => ?_
      obtain ⟨c, _, rfl⟩ := List.mem_map.mp inside
      rw [(accepted.collections c).content]
      apply Json.all_array.mpr
      intro v there
      obtain ⟨record, member, rfl⟩ := List.mem_map.mp there
      exact names_record accepted answers member
    · rw [accepted.relationshipsField]
      apply Json.all_array.mpr
      intro v there
      obtain ⟨relationship, member, rfl⟩ := List.mem_map.mp there
      exact names_relationship (accepted.relationships _ member) (parts.relationships _ member)
    · rw [accepted.conflictsField]
      apply Json.all_array.mpr
      intro v there
      obtain ⟨conflict, member, rfl⟩ := List.mem_map.mp there
      exact names_conflict accepted answers member

/-- Private material stays inside exactly when no name of the snapshot holds a marker. -/
theorem no_private_material_iff {d : Digests} {snapshot : Document} {digest : Text} {secret : Bytes}
    (valid : validateSnapshot u snapshot.json digest = .ok ()) :
    (∀ body, Served u d (Projection.init d snapshot.json secret) body → Clean u body) ↔
      NamesUnmarked u snapshot.json := by
  have accepted := validateSnapshot_ok valid
  constructor
  · exact names_snapshot accepted
  · intro names body answer
    exact (clean_init (clean_iff.mpr ⟨accepted.scanned, names⟩)).served answer

def plainDocument : Document := ⟨plainSnapshot, samples_distinct.1⟩

def looseDocument : Document := ⟨looseSnapshot, samples_distinct.2⟩

theorem no_private_material_sample :
    validateSnapshot sampleUnicode plainDocument.json sampleDigest = .ok () ∧
      ∀ d secret body, Served sampleUnicode d (Projection.init d plainDocument.json secret) body →
        Clean sampleUnicode body := by
  have names : NamesUnmarked sampleUnicode plainDocument.json := by
    unfold NamesUnmarked
    decide
  have valid : validateSnapshot sampleUnicode plainDocument.json sampleDigest = .ok () :=
    plainSnapshot_valid
  exact ⟨valid, fun _ _ => (no_private_material_iff valid).mpr names⟩

/-- An accepted snapshot that answers with a marker in the name of a nested field. -/
theorem marker_may_be_served :
    validateSnapshot sampleUnicode looseDocument.json sampleDigest = .ok () ∧
    ∀ d secret, ¬ ∀ body, Served sampleUnicode d
      (Projection.init d looseDocument.json secret) body →
      Clean sampleUnicode body := by
  have marked : ¬ NamesUnmarked sampleUnicode looseDocument.json := by
    unfold NamesUnmarked
    decide
  have valid : validateSnapshot sampleUnicode looseDocument.json sampleDigest = .ok () :=
    looseSnapshot_valid
  exact ⟨valid, fun _ _ answers => marked (names_snapshot (validateSnapshot_ok valid) answers)⟩

end Metahumotonic.Ontology
