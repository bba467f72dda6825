import Metahumotonic.Library.JsonNumbers
import Metahumotonic.Ontology.Accepted
import Metahumotonic.Ontology.Cursor

/-! The index over a validated snapshot and the documents it serves
(`OntologyProjection` in `app/ontology.py`). An object is read by its names, so the
order in which a copy lists them is that of the allow-list. -/
namespace Metahumotonic.Ontology

open Library

structure Projection where
  metadata : Members
  contentSha256 : Text
  cursorKey : Bytes
  collections : Collection → List Members
  relationships : List Members
  conflicts : List Members

/-- `_public_record`. -/
def publicRecord (c : Collection) (record : Members) : Members :=
  let copied := copyKeys c.allowedKeys record
  if c ≠ .apostles then copied
  else
    let entity := match mapping? (field record (lit "entity")) with
      | some entity => .object (copyKeys entityAllowedKeys entity)
      | none => .null
    let copied := setEntry (lit "entity") entity copied
    if hasName record (lit "candidates") then
      setEntry (lit "candidates")
        (.array (((items (field record (lit "candidates"))).filterMap mapping?).map
        fun candidate => .object (copyKeys candidateKeys candidate))) copied
    else copied

def Projection.init (d : Digests) (snapshot : Json) (cursorSecret : Bytes) : Projection where
  metadata := metaOf snapshot
  contentSha256 := textOf (metaOf snapshot) (lit "content_sha256")
  cursorKey := d.sha256 (lit "metahumotonic-ontology-cursor" ++ 0 :: cursorSecret)
  collections c := (recordsByCollection (collectionsOf snapshot) c).map (publicRecord c)
  relationships := (relationshipsOf snapshot).map (copyKeys relationshipKeys)
  conflicts := (conflictsOf snapshot).map (copyKeys conflictAllowedKeys)

/-- `_json_clone`: Python neither writes nor reads an integer that is too long. -/
def jsonClone (snapshot : Json) : Except Raised Json :=
  if snapshot.writable then .ok snapshot else .error .valueError

/-- `cls(snapshot, cursor_secret=cursor_secret)`. -/
def Projection.construct (d : Digests) (snapshot : Json) (cursorSecret : Bytes) :
    Except Raised Projection := do
  ensure (32 ≤ cursorSecret.length) (refusal "ontology cursor secret must be at least 32 bytes")
  let cloned ← jsonClone snapshot
  return Projection.init d cloned cursorSecret

def fromMapping (u : Unicode) (d : Digests) (snapshot : Json) (cursorSecret : Bytes)
    (expectedContentSha256 : Option Text) : Except Raised Projection :=
  match expectedContentSha256.or (text? (field (metaOf snapshot) (lit "content_sha256"))) with
  | none => .error (refusal "ontology content SHA-256 is missing")
  | some contentSha256 => do
    validateSnapshot u snapshot contentSha256
    Projection.construct d snapshot cursorSecret

def nodeOf (c : Collection) (record : Members) : Members := (lit "kind", .text c.kind) :: record

namespace Projection

variable (u : Unicode) (d : Digests) (p : Projection)

def nodes : List Members := collectionKinds.flatMap fun c => (p.collections c).map (nodeOf c)

/-- `self.nodes.get(public_id)`; the public ids are distinct. -/
def node? (publicId : Text) : Option Members :=
  p.nodes.find? fun node => isText (field node (lit "public_id")) publicId

end Projection

def isApostle (node : Members) : Bool := isText (field node (lit "kind")) (lit "apostle")

def conflictPending (node : Members) : Bool :=
  isApostle node && isText (field node (lit "selection_state")) (lit "CONFLICT_PENDING")

def namesOf (record : Members) : Text × List Text :=
  (textOf record (lit "canonical_name"), (items (field record (lit "aliases"))).filterMap text?)

def displayIdentity (node : Members) : Text × List Text :=
  if isApostle node then
    match mapping? (field node (lit "entity")) with
    | some entity => namesOf entity
    | none => (lit "미결", [])
  else namesOf node

def summaryKeys : List Text :=
  [lit "position", lit "status", lit "binding_state", lit "selection_state", lit "structural_group"]

def entitySummaryKeys : List Text :=
  [lit "binding_state", lit "body_policy", lit "content_authority", lit "identity_authority"]

def summaryHead (node : Members) : Members :=
  [(lit "public_id", field node (lit "public_id")), (lit "kind", field node (lit "kind")),
    (lit "canonical_name", .text (displayIdentity node).1),
    (lit "aliases", .array ((displayIdentity node).2.map .text))]

def summary (node : Members) : Members :=
  let copied := summaryHead node ++ copyKeys summaryKeys node
  if isApostle node then
    match mapping? (field node (lit "entity")) with
    | some entity =>
      (copyKeys entitySummaryKeys entity).foldl
        (fun read member => setEntry member.1 member.2 read) copied
    | none =>
      if conflictPending node then
        copied ++ [(lit "candidate_count", .int (items (field node (lit "candidates"))).length),
          (lit "default_servable", .bool false),
          (lit "body_policy", field node (lit "body_policy"))]
      else copied
  else copied

def conflictPayload (record : Members) : Members :=
  [(lit "public_id", field record (lit "public_id")), (lit "kind", .text (lit "apostle")),
    (lit "position", field record (lit "position")),
    (lit "selection_state", field record (lit "selection_state")),
    (lit "body_policy", field record (lit "body_policy")), (lit "default_servable", .bool false),
    (lit "candidates", if hasName record (lit "candidates") then field record (lit "candidates")
      else .array [])]

inductive Found where
  | missing
  | pending (record : Members)
  | node (node : Members)

/-- Sorted by a tuple of texts, ties in the given order. -/
def sortedBy (key : Members → List Text) (records : List Members) : List Members :=
  records.insertionSort fun a b => key a ≤ key b

/-- Exact before prefix before substring. -/
def rank (query : Text) (terms : List Text) : Option Nat :=
  if query ∈ terms then some 0
  else if terms.any (query.isPrefixOf ·) then some 1
  else if terms.any (contains query ·) then some 2
  else none

def normalizedTerms (u : Unicode) (node : Members) : List Text :=
  ((((displayIdentity node).1 :: (displayIdentity node).2)).filter (· ≠ [])).map u.normalized

/-- Nodes that a search with this query may return. -/
def searchable (normalizedQuery : Text) (kind : Option Text) (node : Members) : Bool :=
  kind.all (isText (field node (lit "kind")) ·) && !conflictPending node &&
    !(normalizedQuery == lit "om" && isApostle node && atPosition 8 node)

def searchKey (u : Unicode) (normalizedQuery : Text) (node : Members) : List Text :=
  [[(rank normalizedQuery (normalizedTerms u node)).getD 0], textOf node (lit "public_id")]

inductive Direction where
  | inbound
  | outbound
  | both
  deriving DecidableEq, Repr

def Direction.name : Direction → Text
  | inbound => lit "in"
  | outbound => lit "out"
  | both => lit "both"

/-- The side of an edge that a node is on, and the id on the other side. -/
def edgeFrom (publicId : Text) (direction : Direction) (relationship : Members) :
    Option (Text × Text) :=
  if direction ≠ .inbound ∧ isText (field relationship (lit "from_public_id")) publicId then
    some (lit "out", textOf relationship (lit "to_public_id"))
  else if direction ≠ .outbound ∧ isText (field relationship (lit "to_public_id")) publicId then
    some (lit "in", textOf relationship (lit "from_public_id"))
  else none

def conflictKey (conflict : Members) : List Text :=
  [textOf conflict (lit "severity"), textOf conflict (lit "status"),
    textOf conflict (lit "conflict_id")]

def neighborKey (entry : Members) : List Text :=
  [textOf (within entry (lit "relationship")) (lit "predicate"),
    textOf (within entry (lit "relationship")) (lit "relationship_id"),
      textOf entry (lit "direction")]

namespace Projection

variable (u : Unicode) (d : Digests) (p : Projection)

def getNode (publicId : Text) : Found :=
  match p.node? publicId with
  | none => .missing
  | some node => if conflictPending node then .pending node else .node node

def page (items : List Json) (route : Text) (params : Params) (limit : Nat) (cursor : Option Text) :
    Except String (Page Text Json) :=
  Ontology.page d p.cursorKey p.contentSha256 items route params limit cursor

/-- The nodes that match, in the order of the results. -/
def matching (normalizedQuery : Text) (kind : Option Text) : List Members :=
  sortedBy (searchKey u normalizedQuery) (p.nodes.filter fun node =>
    searchable normalizedQuery kind node && (rank normalizedQuery (normalizedTerms u node)).isSome)

def search (query : Text) (kind : Option Text) (limit : Nat) (cursor : Option Text) :
    Except String (Page Text Json) :=
  let normalizedQuery := u.normalized query
  p.page d ((p.matching u normalizedQuery kind).map fun node => .object (summary node))
    (lit "search")
    [(lit "kind", kind), (lit "q", some normalizedQuery)] limit cursor

def selectedConflicts (subject severity status : Option Text) : List Members :=
  p.conflicts.filter fun conflict =>
    subject.all (isText (field conflict (lit "subject_public_id")) ·) &&
      severity.all (isText (field conflict (lit "severity")) ·) &&
      status.all (isText (field conflict (lit "status")) ·)

def conflictsPage (subject severity status : Option Text) (limit : Nat) (cursor : Option Text) :
    Except String (Page Text Json) :=
  p.page d ((sortedBy conflictKey (p.selectedConflicts subject severity status)).map .object)
    (lit "conflicts")
    [(lit "severity", severity), (lit "status", status), (lit "subject_public_id", subject)]
      limit cursor

/-- A neighbour with its edge. The node at the other end is there (`neighbor_found`). -/
def entry (relationship : Members) (edge : Text × Text) : Members :=
  [(lit "direction", .text edge.1), (lit "relationship", .object relationship),
    (lit "node", .object (((p.node? edge.2).map summary).getD []))]

def entries (publicId : Text) (direction : Direction) (predicate : Option Text) : List Members :=
  p.relationships.filterMap fun relationship =>
    if predicate.all (isText (field relationship (lit "predicate")) ·) then
      (edgeFrom publicId direction relationship).map (p.entry relationship)
    else none

/-- Nothing when there is no such node. -/
def neighbors (publicId : Text) (direction : Direction) (predicate : Option Text) (limit : Nat)
    (cursor : Option Text) : Option (Except String (Page Text Json)) :=
  if (p.node? publicId).isNone then none
  else some (p.page d ((sortedBy neighborKey (p.entries publicId direction predicate)).map .object)
    (lit "neighbors")
    [(lit "direction", some direction.name), (lit "predicate", predicate),
      (lit "public_id", some publicId)]
    limit cursor)

def releaseDocument : Members :=
  p.metadata ++ [
    (lit "counts", .object [
      (lit "collections",
        .object (collectionKinds.map fun c => (c.name, .int (p.collections c).length))),
      (lit "relationships", .int p.relationships.length),
      (lit "conflicts", .int p.conflicts.length)]),
    (lit "collections", .object (collectionKinds.map fun c =>
      (c.name, .array ((p.collections c).map fun record => .object (summary (nodeOf c record)))))),
    (lit "conflicts", .array (p.conflicts.map .object))]

end Projection

theorem jsonClone_ok {snapshot cloned : Json} :
    jsonClone snapshot = .ok cloned ↔ snapshot.writable = true ∧ snapshot = cloned := by
  unfold jsonClone
  split <;> simp_all

theorem construct_ok {d : Digests} {snapshot : Json} {cursorSecret : Bytes} {p : Projection} :
    Projection.construct d snapshot cursorSecret = .ok p ↔
      32 ≤ cursorSecret.length ∧ snapshot.writable = true ∧
        Projection.init d snapshot cursorSecret = p := by
  simp only [Projection.construct, bind_ok, ensure_ok, jsonClone_ok, pure_ok]
  constructor
  · rintro ⟨_, long, _, ⟨short, rfl⟩, same⟩
    exact ⟨long, short, same⟩
  · rintro ⟨long, short, same⟩
    exact ⟨(), long, snapshot, ⟨short, rfl⟩, same⟩

theorem fromMapping_ok {u : Unicode} {d : Digests} {snapshot : Json} {cursorSecret : Bytes}
    {expected : Option Text} {p : Projection}
    (ok : fromMapping u d snapshot cursorSecret expected = .ok p) :
    p = Projection.init d snapshot cursorSecret ∧ ∃ digest, Accepted u snapshot digest := by
  unfold fromMapping at ok
  split at ok
  · cases ok
  · obtain ⟨_, valid, made⟩ := bind_ok.mp ok
    obtain ⟨_, _, rfl⟩ := construct_ok.mp made
    exact ⟨rfl, _, validateSnapshot_ok valid⟩

/-! What the index keeps of the snapshot. -/

theorem copyKeys_named {keys : List Text} {record : Members} (named : Named record keys)
    (k : Text) :
    field (copyKeys keys record) k = field record k := by
  by_cases listed : k ∈ keys
  · exact field_copyKeys listed record
  · have absent : member? record k = none := by
      cases found : member? record k with
      | none => rfl
      | some v => exact absurd (named k v (mem_of_entry found)) listed
    rw [field, member?_copyKeys, if_neg listed, field, absent]

/-- Every field but the two that are copied by name of their own is kept as it is. -/
theorem field_publicRecord {c : Collection} {record : Members}
    (named : Named record c.allowedKeys) {k : Text}
    (plain : c = .apostles → k ≠ lit "entity" ∧ k ≠ lit "candidates") :
    field (publicRecord c record) k = field record k := by
  unfold publicRecord
  by_cases other : c = .apostles
  · obtain ⟨entity, candidates⟩ := plain other
    simp only [other, ne_eq, not_true_eq_false, if_false]
    rw [other] at named
    split
    · rw [field_setEntry, if_neg candidates, field_setEntry, if_neg entity, copyKeys_named named]
    · rw [field_setEntry, if_neg entity, copyKeys_named named]
  · simp only [ne_eq, other, not_false_eq_true, if_true]
    exact copyKeys_named named k

/-- The entity of an apostle is copied key by key. -/
theorem entity_publicRecord (record : Members) :
    field (publicRecord .apostles record) (lit "entity") =
      match mapping? (field record (lit "entity")) with
      | some entity => .object (copyKeys entityAllowedKeys entity)
      | none => .null := by
  have other : lit "entity" ≠ lit "candidates" := by decide
  unfold publicRecord
  simp only [ne_eq, not_true_eq_false, if_false]
  split
  · rw [field_setEntry, if_neg other, field_setEntry, if_pos rfl]
  · rw [field_setEntry, if_pos rfl]

theorem field_nodeOf {c : Collection} {record : Members} {k : Text} (plain : k ≠ lit "kind") :
    field (nodeOf c record) k = field record k := by
  rw [nodeOf, field_cons, if_neg plain]

theorem isApostle_nodeOf (c : Collection) (record : Members) :
    isApostle (nodeOf c record) = decide (c = .apostles) := by
  have kind : field (nodeOf c record) (lit "kind") = .text c.kind := by
    rw [nodeOf, field_cons, if_pos rfl]
  rw [isApostle, kind]
  cases c <;> decide

section
variable {u : Unicode} {d : Digests} {snapshot : Json} {digest : Text} {secret : Bytes}

theorem mem_nodes {p : Projection} {node : Members} :
    node ∈ p.nodes ↔ ∃ c, ∃ record ∈ p.collections c, node = nodeOf c record := by
  simp only [Projection.nodes, List.mem_flatMap, List.mem_map]
  constructor
  · rintro ⟨c, _, record, there, rfl⟩
    exact ⟨c, record, there, rfl⟩
  · rintro ⟨c, record, there, rfl⟩
    exact ⟨c, mem_collectionKinds c, record, there, rfl⟩

/-- A node of the index and the record that it was made from. -/
theorem mem_nodes_init {node : Members} :
    node ∈ (Projection.init d snapshot secret).nodes ↔
      ∃ c, ∃ record ∈ recordsByCollection (collectionsOf snapshot) c,
        node = nodeOf c (publicRecord c record) := by
  rw [mem_nodes]
  constructor
  · rintro ⟨c, copied, there, rfl⟩
    obtain ⟨record, member, rfl⟩ := List.mem_map.mp there
    exact ⟨c, record, member, rfl⟩
  · rintro ⟨c, record, member, rfl⟩
    exact ⟨c, _, List.mem_map_of_mem member, rfl⟩

theorem nodeOf_publicId {c : Collection} {record : Members} (good : RecordOk c record) :
    field (nodeOf c (publicRecord c record)) (lit "public_id") =
      .text (textOf record (lit "public_id")) := by
  have kind : lit "public_id" ≠ lit "kind" := by decide
  have plain : lit "public_id" ≠ lit "entity" ∧ lit "public_id" ≠ lit "candidates" := by decide
  rw [field_nodeOf kind, field_publicRecord good.named fun _ => plain, good.publicId]

theorem map_nodes_publicId (accepted : Accepted u snapshot digest) :
    (Projection.init d snapshot secret).nodes.map (textOf · (lit "public_id")) =
      publicIds (collectionsOf snapshot) := by
  rw [Projection.nodes, List.map_flatMap, publicIds]
  congr 1
  funext c
  simp only [Projection.init, List.map_map, idsOf]
  apply List.map_congr_left
  intro record member
  exact textOf_text (nodeOf_publicId ((accepted.collections c).records record member))

theorem mem_of_node? {p : Projection} {publicId : Text} {node : Members}
    (found : p.node? publicId = some node) :
    node ∈ p.nodes ∧ field node (lit "public_id") = .text publicId := by
  have same : isText (field node (lit "public_id")) publicId = true :=
    List.find?_some (p := fun other => isText (field other (lit "public_id")) publicId) found
  exact ⟨List.mem_of_find?_eq_some found, isText_iff.mp same⟩

/-- A node is found under its public id. -/
theorem node?_self (accepted : Accepted u snapshot digest) {node : Members}
    (member : node ∈ (Projection.init d snapshot secret).nodes) :
    (Projection.init d snapshot secret).node? (textOf node (lit "public_id")) = some node := by
  have distinct := accepted.publicIds
  have ids : (Projection.init d snapshot secret).nodes.map (textOf · (lit "public_id")) = _ :=
    map_nodes_publicId accepted
  rw [← ids] at distinct
  have texts : ∀ other ∈ (Projection.init d snapshot secret).nodes,
      field other (lit "public_id") = .text (textOf other (lit "public_id")) := by
    intro other there
    obtain ⟨c, record, inside, rfl⟩ := mem_nodes_init.mp there
    have id := nodeOf_publicId ((accepted.collections c).records record inside)
    rw [textOf_text id, id]
  cases found : (Projection.init d snapshot secret).node? (textOf node (lit "public_id")) with
  | none =>
    have none_ := List.find?_eq_none.mp found node member
    rw [isText_iff] at none_
    exact absurd (texts node member) none_
  | some other =>
    obtain ⟨there, same⟩ := mem_of_node? found
    have equal := List.inj_on_of_nodup_map distinct there member (textOf_text same)
    rw [equal]

/-- Every edge leads to a node. -/
theorem neighbor_found (accepted : Accepted u snapshot digest) {relationship : Members}
    (member : relationship ∈ (Projection.init d snapshot secret).relationships) {publicId : Text}
    {direction : Direction} {edge : Text × Text}
    (along : edgeFrom publicId direction relationship = some edge) :
    ∃ node, (Projection.init d snapshot secret).node? edge.2 = some node := by
  obtain ⟨original, there, rfl⟩ := List.mem_map.mp member
  have good := accepted.relationships original there
  have found : ∀ k, k ∈ relationshipKeys →
      (∃ s ∈ publicIds (collectionsOf snapshot), field original k = .text s) →
      ∃ node, (Projection.init d snapshot secret).node?
        (textOf (copyKeys relationshipKeys original) k) =
        some node := by
    rintro k listed ⟨s, known, text⟩
    rw [← show (Projection.init d snapshot secret).nodes.map (textOf · (lit "public_id")) = _ from
      map_nodes_publicId accepted] at known
    obtain ⟨node, inside, same⟩ := List.mem_map.mp known
    have copied : textOf (copyKeys relationshipKeys original) k = s :=
      textOf_text (by rw [field_copyKeys listed, text])
    rw [copied, ← same]
    exact ⟨node, node?_self accepted inside⟩
  unfold edgeFrom at along
  split at along
  · cases along
    exact found _ (by decide) good.target
  · split at along
    · cases along
      exact found _ (by decide) good.source
    · cases along

end

/-! What a summary shows of a node. -/

theorem field_foldl_setEntry (later members : Members) {k : Text}
    (other : ∀ j v, (j, v) ∈ later → k ≠ j) :
    field (later.foldl (fun read member => setEntry member.1 member.2 read) members) k =
      field members k := by
  induction later generalizing members with
  | nil => rfl
  | cons member rest ih =>
    rw [List.foldl_cons, ih _ fun j v there => other j v (List.mem_cons_of_mem _ there),
      field_setEntry,
      if_neg (other member.1 member.2 List.mem_cons_self)]

def pendingKeys : List Text := [lit "candidate_count", lit "default_servable", lit "body_policy"]

/-- What the entity or the pending state does not add or replace. -/
theorem field_summary {node : Members} {k : Text} (plain : k ∉ entitySummaryKeys)
    (quiet : k ∉ pendingKeys) :
    field (summary node) k = field (summaryHead node ++ copyKeys summaryKeys node) k := by
  unfold summary
  simp only
  split
  · split
    · apply field_foldl_setEntry
      intro j v there same
      exact plain (same ▸ (mem_copyKeys.mp there).1)
    · split
      · cases found : hasName (summaryHead node ++ copyKeys summaryKeys node) k with
        | true => exact field_append_left found _
        | false =>
          have absent : member? (summaryHead node ++ copyKeys summaryKeys node) k = none :=
            Option.isNone_iff_eq_none.mp (by simpa [hasName] using found)
          simp only [pendingKeys, List.mem_cons, List.not_mem_nil, or_false, not_or] at quiet
          rw [field_append_right found, field_cons, if_neg quiet.1, field_cons,
            if_neg quiet.2.1, field_cons,
            if_neg quiet.2.2, field, field, absent]
          rfl
      · rfl
  · rfl

def headKeys : List Text := [lit "public_id", lit "kind", lit "canonical_name", lit "aliases"]

theorem hasName_summaryHead (node : Members) (k : Text) :
    hasName (summaryHead node) k = decide (k ∈ headKeys) := by
  have keys : (summaryHead node).map Prod.fst = headKeys := rfl
  rw [← keys]
  generalize summaryHead node = members
  induction members with
  | nil => rfl
  | cons member rest ih =>
    obtain ⟨j, v⟩ := member
    unfold hasName at ih ⊢
    rw [member?_cons, List.map_cons]
    by_cases same : k = j
    · simp [same]
    · rw [if_neg same, ih]
      simp [same]

theorem summary_head {node : Members} {k : Text} (listed : k ∈ headKeys) :
    field (summary node) k = field (summaryHead node) k := by
  have apart : ∀ j ∈ headKeys, j ∉ entitySummaryKeys ∧ j ∉ pendingKeys := by decide
  obtain ⟨plain, quiet⟩ := apart k listed
  rw [field_summary plain quiet,
    field_append_left (by rw [hasName_summaryHead, decide_eq_true listed])]

theorem summary_kind (node : Members) : field (summary node) (lit "kind") = field node
    (lit "kind") :=
  summary_head (by decide)

theorem summary_publicId (node : Members) :
    field (summary node) (lit "public_id") = field node (lit "public_id") :=
  summary_head (by decide)

theorem summary_name (node : Members) :
    field (summary node) (lit "canonical_name") = .text (displayIdentity node).1 :=
  summary_head (by decide)

theorem summary_aliases (node : Members) :
    field (summary node) (lit "aliases") = .array ((displayIdentity node).2.map .text) :=
  summary_head (by decide)

theorem summary_position (node : Members) :
    field (summary node) (lit "position") = field node (lit "position") := by
  have apart : lit "position" ∉ headKeys := by decide
  rw [field_summary (by decide) (by decide),
    field_append_right (by rw [hasName_summaryHead, decide_eq_false apart]),
      field_copyKeys (by decide)]

theorem page_subset {d : Digests} {p : Projection} {items : List Json} {route : Text}
    {params : Params}
    {limit : Nat} {cursor : Option Text} {served : Page Text Json}
    (ok : p.page d items route params limit cursor = .ok served) : ∀ v ∈ served.items,
      v ∈ items := by
  unfold Projection.page Ontology.page at ok
  split at ok
  · cases ok
  · cases ok
    intro v there
    exact (List.drop_sublist _ _).subset ((List.take_sublist _ _).subset there)

end Metahumotonic.Ontology
