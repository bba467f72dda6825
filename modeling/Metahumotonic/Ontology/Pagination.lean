import Metahumotonic.Ontology.Routes

/-! Following the cursors of a request. The pages are those of the list of matching items
as long as every cursor on the way is short enough to be read back. -/
namespace Metahumotonic.Ontology

open Library

/-! How long the cursors are. -/

def quotedSize (s : Text) : Nat := (s.map Json.escapeSize).sum

def paramSize : Option Text → Nat
  | some s => quotedSize s + 2
  | none => 4

theorem paramJson_length (param : Option Text) :
    (paramJson param).write.length = paramSize param := by
  cases param with
  | none => decide
  | some s => exact Json.quote_length s

/-- Nothing in the text needs an escape. -/
def printable (s : Text) : Bool := s.all (Json.escapeSize · == 1)

theorem printable_scalar {s : Text} (plain : printable s = true) : s.all scalar = true := by
  rw [printable, List.all_eq_true] at plain
  rw [List.all_eq_true]
  intro c there
  have one := beq_iff_eq.mp (plain c there)
  have small : c ≤ 126 := by
    unfold Json.escapeSize at one
    split at one
    · cases one
    · split at one
      · rename_i bounds
        exact bounds.2
      · split at one <;> cases one
  simp only [scalar, Bool.or_eq_true, decide_eq_true_eq]
  omega

theorem quotedSize_printable {s : Text} (plain : printable s = true) : quotedSize s = s.length := by
  induction s with
  | nil => rfl
  | cons c rest ih =>
    simp only [printable, List.all_cons, Bool.and_eq_true, beq_iff_eq] at plain
    have later := ih plain.2
    rw [quotedSize] at later ⊢
    rw [List.map_cons, List.sum_cons, plain.1, later, List.length_cons, Nat.add_comm]

/-- A class of ASCII signs that need no escape. -/
theorem printable_of {s : Text} (sign : Nat → Bool) (inside : s.all sign = true)
    (small : ∀ c, sign c = true → c < 128)
    (each : ∀ c < 128, sign c = true → Json.escapeSize c = 1) : printable s = true := by
  rw [printable, List.all_eq_true]
  intro c there
  have member := List.all_eq_true.mp inside c there
  rw [each c (small c member) member]
  rfl

theorem lowerHex_small (c : Nat) (inside : lowerHex c = true) : c < 128 := by
  simp only [lowerHex, Bool.or_eq_true, Bool.and_eq_true, decide_eq_true_eq] at inside
  omega

theorem hex_printable {s : Text} (hex : s.all lowerHex = true) : printable s = true :=
  printable_of _ hex lowerHex_small (by decide)

theorem digest_printable {s : Text} (shape : sha256Re s = true) : printable s = true ∧
    s.length = 64 := by
  simp only [sha256Re, Bool.and_eq_true, beq_iff_eq] at shape
  exact ⟨hex_printable shape.2, shape.1⟩

theorem publicId_printable {id : Text} (shape : publicIdRe id = true) : printable id = true ∧
    id.length = 21 := by
  simp only [publicIdRe, Bool.and_eq_true, beq_iff_eq] at shape
  obtain ⟨⟨head, length⟩, hex⟩ := shape
  have split : id = lit "mtg1-" ++ id.drop 5 := by rw [← head, List.take_append_drop]
  have first : printable (lit "mtg1-") = true := by decide
  have later := hex_printable hex
  have size : (lit "mtg1-").length = 5 := by decide
  rw [split]
  constructor
  · rw [printable, List.all_append, Bool.and_eq_true]
    exact ⟨first, later⟩
  · rw [List.length_append, size, length]

theorem token_printable {s : Text} (shape : tokenRe s = true) : printable s = true ∧
    s.length ≤ 100 := by
  unfold tokenRe at shape
  split at shape
  · cases shape
  · rename_i c rest
    simp only [Bool.and_eq_true, decide_eq_true_eq] at shape
    obtain ⟨⟨first, length⟩, later⟩ := shape
    refine ⟨printable_of (fun c => upper c || (48 ≤ c && c ≤ 57) || c == 95) ?_ ?_ (by decide), ?_⟩
    · rw [List.all_cons, first, later]
      rfl
    · intro c inside
      simp only [upper, Bool.or_eq_true, Bool.and_eq_true, decide_eq_true_eq, beq_iff_eq] at inside
      omega
    · rw [List.length_cons]
      omega

theorem writeInt_length (n : Nat) : (Json.writeInt n).length = (Json.decimal n).length := by
  rw [Json.writeInt, if_neg (by omega), Int.natAbs_natCast]

def paramsSize (params : Params) : Nat :=
  (params.map fun param => quotedSize param.1 + paramSize param.2 + 4).sum + 1

theorem params_length (param : Text × Option Text) (rest : Params) :
    (Json.object ((param :: rest).map fun param => (param.1, paramJson param.2))).write.length =
      paramsSize (param :: rest) := by
  have later : ∀ rest : Params,
      (Json.writeMembers (rest.map fun param => (param.1, paramJson param.2))).length =
        paramsSize rest := by
    intro rest
    induction rest with
    | nil => rfl
    | cons param rest ih =>
      simp only [List.map_cons, Json.writeMembers, List.length_cons, List.length_append, ih,
        Json.quote_length,
        paramJson_length]
      simp only [paramsSize, List.map_cons, List.sum_cons, quotedSize]
      omega
  simp only [List.map_cons, Json.write, List.length_cons, List.length_append, later,
    Json.quote_length,
    paramJson_length]
  simp only [paramsSize, List.map_cons, List.sum_cons, quotedSize]
  omega

theorem cursorPayload_length {contentSha256 route : Text} {params : Params} {limit offset : Nat}
    (digest : sha256Re contentSha256 = true) (some_ : params ≠ []) :
    (cursorPayload contentSha256 route params limit offset).write.length =
      131 + (Json.decimal limit).length + (Json.decimal offset).length + paramsSize params +
        quotedSize route := by
  obtain ⟨param, rest, rfl⟩ := List.exists_cons_of_ne_nil some_
  obtain ⟨plain, length⟩ := digest_printable digest
  have names : quotedSize (lit "content_sha256") = 14 ∧ quotedSize (lit "limit") = 5 ∧
      quotedSize (lit "offset") = 6 ∧ quotedSize (lit "params") = 6 ∧ quotedSize (lit "route") = 5 ∧
      quotedSize (lit "v") = 1 := by decide
  obtain ⟨n1, n2, n3, n4, n5, n6⟩ := names
  have hash := quotedSize_printable plain
  have one : Json.writeInt 1 = [49] := by decide
  have inner := params_length param rest
  unfold cursorPayload
  generalize Json.object ((param :: rest).map fun param => (param.1, paramJson param.2)) =
    object at inner ⊢
  unfold quotedSize at *
  simp only [Json.write, Json.writeMembers, List.length_cons, List.length_append, inner,
    Json.quote_length, writeInt_length, n1, n2, n3, n4, n5, n6, hash, length, one, List.length_nil]
  omega

/-! What a request asks for. -/

/-- A query string is decoded, so the text of a search has no surrogates. -/
structure Query where
  text : Text
  decoded : text.all scalar = true

inductive Request where
  | search (query : Query) (kind : Option Text)
  | conflicts (subject severity status : Option Text)
  | neighbors (publicId : Text) (direction predicate : Option Text)

section
variable (u : Unicode) (d : Digests) (p : Projection)

/-- The query as the index compares it. -/
def Query.normalized (query : Query) : Text := u.normalized (strip (u.nfkc query.text))

/-- The nodes that match a query. -/
def found (normalizedQuery : Text) (kind : Option Text) : List Members :=
  p.nodes.filter fun node =>
    searchable normalizedQuery kind node && (rank normalizedQuery (normalizedTerms u node)).isSome

namespace Request

def answer (r : Request) (limit : Nat) (cursor : Option Text) : Option (Page Text Json) :=
  match r with
  | search query kind => (searchRoute u d p query.text kind limit cursor).toOption
  | conflicts subject severity status =>
    (conflictsRoute d p subject severity status limit cursor).toOption
  | neighbors publicId direction predicate =>
    (neighborsRoute d p publicId direction predicate limit cursor).toOption.join

/-- The matching items in the documented order. -/
def Listing (r : Request) (listed : List Json) : Prop :=
  match r with
  | search query kind => ∃ nodes,
    Ordered (searchKey u (query.normalized u)) (found u p (query.normalized u) kind) nodes ∧
      listed = nodes.map fun node => .object (summary node)
  | conflicts subject severity status => ∃ conflicts,
    Ordered conflictKey (p.selectedConflicts subject severity status) conflicts ∧
      listed = conflicts.map .object
  | neighbors publicId direction predicate => ∃ way entries, directionOf direction = some way ∧
    Ordered neighborKey (p.entries publicId way predicate) entries ∧ listed = entries.map .object

/-- Following the cursors collects the matching items. -/
def Complete (r : Request) (limit : Nat) : Prop :=
  ∃ listed, r.Listing u p listed ∧ Walk (r.answer u d p limit) none listed

end Request

/-- The length of a search cursor, from the sizes of what it holds. -/
def searchCursorSize (normalizedQuery : Text) (kind : Option Text) (limit offset : Nat) : Nat :=
  let payload := 153 + quotedSize normalizedQuery + kind.elim 4 (·.length + 2) +
    (Json.decimal limit).length +
    (Json.decimal offset).length
  (4 * payload + 2) / 3 + 44

/-- The cursors of a search stay within the 4096 signs that are read back. The other requests
have short parameters. -/
def Request.Fits (r : Request) (limit : Nat) : Prop :=
  match r with
  | .search query kind => ∀ k, 0 < k → k * limit < (found u p (query.normalized u) kind).length →
    searchCursorSize (query.normalized u) kind limit (k * limit) ≤ 4096
  | _ => True

end

variable {u : Unicode} {d : Digests} {p : Projection}

theorem kind_size {kind : Option Text}
    (known : kind.all ((collectionKinds.map Collection.kind).contains ·) = true) :
    paramSize kind = kind.elim 4 (·.length + 2) := by
  cases kind with
  | none => rfl
  | some k =>
    have each : ∀ k ∈ collectionKinds.map Collection.kind, quotedSize k = k.length := by decide
    have listed : k ∈ collectionKinds.map Collection.kind := by simpa using known
    rw [paramSize, each k listed]
    rfl

theorem searchCursorSize_eq {contentSha256 normalizedQuery : Text} {kind : Option Text}
    {limit offset : Nat}
    (digest : sha256Re contentSha256 = true)
    (known : kind.all ((collectionKinds.map Collection.kind).contains ·) = true) :
    cursorSize contentSha256 (lit "search") [(lit "kind", kind), (lit "q", some normalizedQuery)]
      limit offset =
      searchCursorSize normalizedQuery kind limit offset := by
  have names : quotedSize (lit "search") = 6 ∧ quotedSize (lit "kind") = 4 ∧
      quotedSize (lit "q") = 1 := by
    decide
  obtain ⟨n1, n2, n3⟩ := names
  have payload : (cursorPayload contentSha256 (lit "search")
      [(lit "kind", kind), (lit "q", some normalizedQuery)]
      limit offset).write.length = _ := cursorPayload_length digest (List.cons_ne_nil _ _)
  have size : paramSize (some normalizedQuery) = quotedSize normalizedQuery + 2 := rfl
  simp only [paramsSize, List.map_cons, List.map_nil, List.sum_cons, List.sum_nil, n1, n2, n3,
    kind_size known,
    size] at payload
  rw [cursorSize, searchCursorSize, payload]
  have same : 131 + (Json.decimal limit).length + (Json.decimal offset).length +
        (4 + kind.elim 4 (·.length + 2) + 4 + (1 + (quotedSize normalizedQuery + 2) + 4 + 0) + 1) +
          6 =
      153 + quotedSize normalizedQuery + kind.elim 4 (·.length + 2) + (Json.decimal limit).length +
        (Json.decimal offset).length := by omega
  rw [same]

theorem printable_param {param : Option Text} {bound : Nat} (short : 4 ≤ bound + 2)
    (each : ∀ s, param = some s → printable s = true ∧ s.length ≤ bound) :
    paramSize param ≤ bound + 2 := by
  cases param with
  | none => exact short
  | some s =>
    obtain ⟨plain, length⟩ := each s rfl
    rw [paramSize, quotedSize_printable plain]
    exact Nat.add_le_add_right length 2

/-! A request that gets a first page passes the checks of its route with any cursor. -/

theorem searchRoute_accepted {query : Text} {kind : Option Text} {limit : Nat}
    {served : Page Text Json}
    (accepted : searchRoute u d p query kind limit none = .ok served) :
    kind.all ((collectionKinds.map Collection.kind).contains ·) = true ∧ (1 ≤ limit ∧ limit ≤ 100) ∧
      ∀ cursor, searchRoute u d p query kind limit cursor = p.search u d (strip (u.nfkc query)) kind
        limit cursor := by
  simp only [searchRoute, limitCheck, bind_ok, ensure_ok] at accepted
  obtain ⟨_, size, _, known, _, bounds, _⟩ := accepted
  refine ⟨known, bounds, fun cursor => ?_⟩
  simp only [searchRoute, limitCheck, ensure_bind, if_pos size, if_pos known, if_pos bounds]

theorem conflictsRoute_accepted {subject severity status : Option Text} {limit : Nat}
    {served : Page Text Json}
    (accepted : conflictsRoute d p subject severity status limit none = .ok served) :
    (subject.all publicIdRe = true ∧ severity.all tokenRe = true ∧ status.all tokenRe = true) ∧
      (1 ≤ limit ∧ limit ≤ 100) ∧ ∀ cursor,
        conflictsRoute d p subject severity status limit cursor =
        p.conflictsPage d subject severity status limit cursor := by
  simp only [conflictsRoute, limitCheck, bind_ok, ensure_ok] at accepted
  obtain ⟨_, id, _, severe, _, state, _, bounds, _⟩ := accepted
  refine ⟨⟨id, severe, state⟩, bounds, fun cursor => ?_⟩
  simp only [conflictsRoute, limitCheck, ensure_bind, if_pos id, if_pos severe, if_pos state,
    if_pos bounds]

theorem neighborsRoute_accepted {publicId : Text} {direction predicate : Option Text} {limit : Nat}
    {served : Page Text Json}
    (accepted : neighborsRoute d p publicId direction predicate limit none = .ok (some served)) :
    ∃ way, directionOf direction = some way ∧ predicate.all tokenRe = true ∧
      (1 ≤ limit ∧ limit ≤ 100) ∧
      (p.node? publicId).isSome = true ∧ ∀ cursor,
        (neighborsRoute d p publicId direction predicate limit cursor).toOption.join =
          (p.page d ((sortedBy neighborKey (p.entries publicId way predicate)).map .object)
            (lit "neighbors")
            [(lit "direction", some way.name), (lit "predicate", predicate),
              (lit "public_id", some publicId)]
            limit cursor).toOption := by
  unfold neighborsRoute at accepted
  split at accepted
  · cases accepted
  · rename_i way same
    simp only [limitCheck, bind_ok, ensure_ok] at accepted
    obtain ⟨_, shape, _, bounds, answered⟩ := accepted
    have there : (p.node? publicId).isSome = true := by
      cases looked : p.node? publicId with
      | some node => rfl
      | none =>
        rw [Projection.neighbors, looked] at answered
        cases answered
    refine ⟨way, same, shape, bounds, there, fun cursor => ?_⟩
    have absent : (p.node? publicId).isNone = false := by rw [← Option.not_isSome, there]; rfl
    simp only [neighborsRoute, same, limitCheck, ensure_bind, if_pos shape, if_pos bounds,
      Projection.neighbors,
      absent, Bool.false_eq_true, if_false]
    cases p.page d ((sortedBy neighborKey (p.entries publicId way predicate)).map .object)
      (lit "neighbors")
      [(lit "direction", some way.name), (lit "predicate", predicate),
        (lit "public_id", some publicId)]
      limit cursor <;> rfl

/-! No two items of a listing have the same key. -/

section
variable {snapshot : Json} {digest : Text} {secret : Bytes} (accepted : Accepted u snapshot digest)
include accepted

theorem found_ordered (normalizedQuery : Text) (kind : Option Text) :
    Ordered (searchKey u normalizedQuery)
      (found u (Projection.init d snapshot secret) normalizedQuery kind)
      ((Projection.init d snapshot secret).matching u normalizedQuery kind) := by
  apply ordered_insertionSort
  apply nodup_of_key fun key : List Text => key.getLast?
  have ids : ((Projection.init d snapshot secret).nodes.map
      (textOf · (lit "public_id"))).Nodup := by
    rw [map_nodes_publicId accepted]
    exact accepted.publicIds
  have options := ids.map (Option.some_injective Text)
  rw [List.map_map] at options
  exact (List.filter_sublist.map _).nodup options

theorem conflicts_ordered (subject severity status : Option Text) :
    Ordered conflictKey
      ((Projection.init d snapshot secret).selectedConflicts subject severity status)
      (sortedBy conflictKey
        ((Projection.init d snapshot secret).selectedConflicts subject severity status)) := by
  apply ordered_insertionSort
  apply nodup_of_key fun key : List Text => key.getLast?
  have ids : ((Projection.init d snapshot secret).conflicts.map
      (textOf · (lit "conflict_id"))).Nodup := by
    have same : (Projection.init d snapshot secret).conflicts.map (textOf · (lit "conflict_id")) =
        (conflictsOf snapshot).map (textOf · (lit "conflict_id")) := by
      simp only [Projection.init, List.map_map]
      apply List.map_congr_left
      intro conflict member
      change textOf (copyKeys conflictAllowedKeys conflict) _ = _
      rw [textOf, copyKeys_named (accepted.conflicts conflict member).named, textOf]
    rw [same]
    exact accepted.conflictIds
  have options := ids.map (Option.some_injective Text)
  rw [List.map_map] at options
  exact (List.filter_sublist.map _).nodup options

theorem entries_ordered (publicId : Text) (way : Direction) (predicate : Option Text) :
    Ordered neighborKey ((Projection.init d snapshot secret).entries publicId way predicate)
      (sortedBy neighborKey
        ((Projection.init d snapshot secret).entries publicId way predicate)) := by
  apply ordered_insertionSort
  apply nodup_of_key fun key : List Text => key.tail.head?
  have ids : ((Projection.init d snapshot secret).relationships.map
      (textOf · (lit "relationship_id"))).Nodup := by
    have same : (Projection.init d snapshot secret).relationships.map
        (textOf · (lit "relationship_id")) =
        (relationshipsOf snapshot).map (textOf · (lit "relationship_id")) := by
      simp only [Projection.init, List.map_map]
      apply List.map_congr_left
      intro relationship member
      change textOf (copyKeys relationshipKeys relationship) _ = _
      rw [textOf, copyKeys_named (accepted.relationships relationship member).named, textOf]
    rw [same]
    exact accepted.relationshipIds
  have options := ids.map (Option.some_injective Text)
  rw [List.map_map] at options
  refine (filterMap_sublist ?_ _).nodup options
  intro relationship entry made
  split at made
  · obtain ⟨edge, _, rfl⟩ := Option.map_eq_some_iff.mp made
    rfl
  · cases made

end

/-- A listing that is served page by page is collected when its cursors fit. -/
theorem complete_iff (d : Digests) (key : Bytes) {answer : Option Text → Option (Page Text Json)}
    {listing : List Json → Prop} {items : List Json} {contentSha256 route : Text} {params : Params}
    {limit : Nat}
    (fits : Nat → Prop) (signable : Signable contentSha256 route params) (positive : 0 < limit)
    (listed : listing items)
    (same : answer = fun cursor =>
      (page d key contentSha256 items route params limit cursor).toOption)
    (short : ∀ offset < items.length, Readable d key contentSha256 route params limit offset ↔
      fits offset) :
    (∃ listed, listing listed ∧ Walk answer none listed) ↔
      ∀ k, 0 < k → k * limit < items.length → fits (k * limit) := by
  have pages : Pages _
      (fun next => encodeCursor d key (cursorPayload contentSha256 route params limit next)) items
      limit _ := page_pages signable items
  rw [← same] at pages
  constructor
  · rintro ⟨_, _, walk⟩ k some_ inside
    have can := pages.walked walk 0 rfl (.inl rfl) k some_ (by rwa [Nat.zero_add])
    rw [Nat.zero_add] at can
    exact (short _ inside).mp can
  · intro fit
    exact ⟨items, listed, (pages.complete_iff positive).mpr fun k some_ inside =>
      (short _ inside).mpr (fit k some_ inside)⟩

/-- Cursors with short parameters are read back. -/
theorem short_complete (d : Digests) (key : Bytes) {answer : Option Text → Option (Page Text Json)}
    (listing : List Json → Prop) {items : List Json} {contentSha256 route : Text} {params : Params}
    {limit : Nat}
    (digest : sha256Re contentSha256 = true) (signable : Signable contentSha256 route params)
    (some_ : params ≠ []) (bounds : 1 ≤ limit ∧ limit ≤ 100) (listed : listing items)
    (same : answer = fun cursor =>
      (page d key contentSha256 items route params limit cursor).toOption)
    (few : items.length ≤ 100) (short : paramsSize params + quotedSize route ≤ 2900) :
    ∃ listed, listing listed ∧ Walk answer none listed := by
  refine (complete_iff d key (fun _ => True) signable bounds.1 listed same
    fun offset inside => ?_).mpr
    fun _ _ _ => trivial
  have first : (Json.decimal limit).length ≤ 3 := Json.decimal_length_le (by decide) (by omega)
  have second : (Json.decimal offset).length ≤ 2 := Json.decimal_length_le (by decide) (by omega)
  apply iff_of_true ?_ trivial
  rw [Readable, encodeCursor_length, cursorSize, cursorPayload_length digest some_]
  omega

theorem Signable.of_printable {contentSha256 route : Text} {params : Params} (names : List Text)
    (digest : sha256Re contentSha256 = true) (named : params.map Prod.fst = names)
    (plain : printable route = true ∧ names.Nodup ∧ ∀ name ∈ names, printable name = true)
    (values : ∀ param ∈ params, ∀ s, param.2 = some s → s.all scalar = true) :
    Signable contentSha256 route params where
  digest := printable_scalar (digest_printable digest).1
  route := printable_scalar plain.1
  distinct := named ▸ plain.2.1
  names param inside := printable_scalar (plain.2.2 param.1 (named ▸ List.mem_map_of_mem inside))
  values := values

theorem token_values {token : Option Text} (shape : token.all tokenRe = true) :
    ∀ s, token = some s → printable s = true ∧ s.length ≤ 100 := by
  rintro s rfl
  exact token_printable shape

theorem id_values {id : Option Text} (shape : id.all publicIdRe = true) :
    ∀ s, id = some s → printable s = true ∧ s.length ≤ 21 := by
  rintro s rfl
  exact ⟨(publicId_printable shape).1, (publicId_printable shape).2.le⟩

theorem normalized_scalars (query : Query) : (query.normalized u).all scalar = true := by
  apply normalized_scalar
  rw [List.all_eq_true]
  intro c there
  exact List.all_eq_true.mp (u.nfkc_scalar query.text query.decoded) c (strip_subset there)

section
variable {snapshot : Json} {digest : Text} {secret : Bytes} (accepted : Accepted u snapshot digest)
include accepted

theorem contentSha256_init : (Projection.init d snapshot secret).contentSha256 = digest :=
  textOf_text ((metaMatches_named accepted.metaSame).2 (lit "content_sha256") _
    (by simp [expectedMeta]))

theorem search_complete {query : Query} {kind : Option Text} {limit : Nat} {served : Page Text Json}
    (first : searchRoute u d (Projection.init d snapshot secret) query.text kind limit none =
      .ok served) :
    (Request.search query kind).Complete u d (Projection.init d snapshot secret) limit ↔
      (Request.search query kind).Fits u (Projection.init d snapshot secret) limit := by
  obtain ⟨known, bounds, routed⟩ := searchRoute_accepted first
  have sha : (Projection.init d snapshot secret).contentSha256 = digest :=
    contentSha256_init accepted
  have signable : Signable digest (lit "search")
      [(lit "kind", kind), (lit "q", some (query.normalized u))] := by
    refine .of_printable [lit "kind", lit "q"] accepted.digestShape rfl (by decide) ?_
    simp only [List.forall_mem_cons]
    refine ⟨?_, ?_, List.forall_mem_nil _⟩
    · rintro s rfl
      have each : ∀ k ∈ collectionKinds.map Collection.kind, k.all scalar = true := by decide
      exact each s (by simpa using known)
    · rintro s same
      cases same
      exact normalized_scalars query
  have count : (((Projection.init d snapshot secret).matching u (query.normalized u) kind).map
      fun node => Json.object (summary node)).length =
        (found u (Projection.init d snapshot secret) (query.normalized u) kind).length := by
    rw [List.length_map, Projection.matching, sortedBy, List.length_insertionSort]
    rfl
  change _ ↔ ∀ k, 0 < k →
      k * limit < (found u (Projection.init d snapshot secret) (query.normalized u) kind).length → _
  rw [← count]
  refine complete_iff d (Projection.init d snapshot secret).cursorKey
    (fun offset => searchCursorSize (query.normalized u) kind limit offset ≤ 4096)
    signable bounds.1 ⟨_, found_ordered accepted _ _, rfl⟩ ?_ ?_
  · funext cursor
    rw [Request.answer, routed, Projection.search, Projection.page, sha]
    rfl
  · intro offset _
    rw [Readable, encodeCursor_length, searchCursorSize_eq accepted.digestShape known]

theorem conflicts_complete {subject severity status : Option Text} {limit : Nat}
    {served : Page Text Json}
    (first : conflictsRoute d (Projection.init d snapshot secret) subject severity status
      limit none =
      .ok served) :
    (Request.conflicts subject severity status).Complete u d
      (Projection.init d snapshot secret) limit := by
  obtain ⟨⟨id, severe, state⟩, bounds, routed⟩ := conflictsRoute_accepted first
  have sha : (Projection.init d snapshot secret).contentSha256 = digest :=
    contentSha256_init accepted
  have signable : Signable digest (lit "conflicts")
      [(lit "severity", severity), (lit "status", status), (lit "subject_public_id", subject)] := by
    refine .of_printable [lit "severity", lit "status", lit "subject_public_id"]
      accepted.digestShape
      rfl (by decide) ?_
    simp only [List.forall_mem_cons]
    exact ⟨fun s same => printable_scalar (token_values severe s same).1,
      fun s same => printable_scalar (token_values state s same).1,
      fun s same => printable_scalar (id_values id s same).1, List.forall_mem_nil _⟩
  have count : ((sortedBy conflictKey
      ((Projection.init d snapshot secret).selectedConflicts subject severity status)).map
        Json.object).length ≤
        8 := by
    have copied : ((conflictsOf snapshot).map (copyKeys conflictAllowedKeys)).length = _ :=
      List.length_map _
    rw [List.length_map, sortedBy, List.length_insertionSort, ← accepted.conflictsCount, ← copied]
    exact List.length_filter_le _ _
  refine short_complete d (Projection.init d snapshot secret).cursorKey
    ((Request.conflicts subject severity status).Listing u (Projection.init d snapshot secret))
    accepted.digestShape signable (List.cons_ne_nil _ _) bounds
    ⟨_, conflicts_ordered accepted _ _ _, rfl⟩ ?_ (by omega) ?_
  · funext cursor
    rw [Request.answer, routed, Projection.conflictsPage, Projection.page, sha]
  · have s1 := printable_param (by decide) (token_values severe)
    have s2 := printable_param (by decide) (token_values state)
    have s3 := printable_param (by decide) (id_values id)
    have names : quotedSize (lit "severity") = 8 ∧ quotedSize (lit "status") = 6 ∧
        quotedSize (lit "subject_public_id") = 17 ∧ quotedSize (lit "conflicts") = 9 := by decide
    simp only [paramsSize, List.map_cons, List.map_nil, List.sum_cons, List.sum_nil]
    omega

theorem neighbors_complete {publicId : Text} {direction predicate : Option Text} {limit : Nat}
    {served : Page Text Json}
    (first : neighborsRoute d (Projection.init d snapshot secret) publicId direction predicate
      limit none =
      .ok (some served)) :
    (Request.neighbors publicId direction predicate).Complete u d
      (Projection.init d snapshot secret) limit := by
  obtain ⟨way, same, shape, bounds, there, routed⟩ := neighborsRoute_accepted first
  have sha : (Projection.init d snapshot secret).contentSha256 = digest :=
    contentSha256_init accepted
  have id : printable publicId = true ∧ publicId.length = 21 := by
    obtain ⟨node, looked⟩ := Option.isSome_iff_exists.mp there
    obtain ⟨member, text⟩ := mem_of_node? looked
    obtain ⟨c, record, inside, rfl⟩ := mem_nodes_init.mp member
    have good := (accepted.collections c).records record inside
    rw [nodeOf_publicId good, Json.text.injEq] at text
    exact text ▸ publicId_printable good.shape
  have turn : printable way.name = true ∧ way.name.length ≤ 4 := by cases way <;> decide
  have signable : Signable digest (lit "neighbors")
      [(lit "direction", some way.name), (lit "predicate", predicate),
        (lit "public_id", some publicId)] := by
    refine .of_printable [lit "direction", lit "predicate", lit "public_id"] accepted.digestShape
      rfl (by decide) ?_
    simp only [List.forall_mem_cons, Option.some.injEq, forall_eq']
    exact ⟨printable_scalar turn.1, fun s same => printable_scalar (token_values shape s same).1,
      printable_scalar id.1, List.forall_mem_nil _⟩
  have count : ((sortedBy neighborKey
      ((Projection.init d snapshot secret).entries publicId way predicate)).map
        Json.object).length ≤ 15 := by
    have copied : ((relationshipsOf snapshot).map (copyKeys relationshipKeys)).length = _ :=
      List.length_map _
    rw [List.length_map, sortedBy, List.length_insertionSort,
      ← accepted.relationshipsCount, ← copied]
    exact List.length_filterMap_le _ _
  refine short_complete d (Projection.init d snapshot secret).cursorKey
    ((Request.neighbors publicId direction predicate).Listing u (Projection.init d snapshot secret))
    accepted.digestShape signable (List.cons_ne_nil _ _) bounds
    ⟨way, _, same, entries_ordered accepted _ _ _, rfl⟩ ?_ (by omega) ?_
  · funext cursor
    rw [Request.answer, routed, Projection.page, sha]
  · have s1 := printable_param (by decide) (token_values shape)
    have s2 : paramSize (some way.name) ≤ 6 := by
      rw [paramSize, quotedSize_printable turn.1]
      omega
    have s3 : paramSize (some publicId) = 23 := by
      rw [paramSize, quotedSize_printable id.1, id.2]
    have names : quotedSize (lit "direction") = 9 ∧ quotedSize (lit "predicate") = 9 ∧
        quotedSize (lit "public_id") = 9 ∧ quotedSize (lit "neighbors") = 9 := by decide
    simp only [paramsSize, List.map_cons, List.map_nil, List.sum_cons, List.sum_nil]
    omega

end

/-- Pagination is complete exactly when the cursors of the request fit. -/
theorem pagination_complete_iff {snapshot : Json} {secret : Bytes} {expected : Option Text}
    (loaded : fromMapping u d snapshot secret expected = .ok p) {r : Request} {limit : Nat}
    (routed : (r.answer u d p limit none).isSome = true) : r.Complete u d p limit ↔
      r.Fits u p limit := by
  obtain ⟨rfl, digest, accepted⟩ := fromMapping_ok loaded
  cases r with
  | search query kind =>
    cases first : searchRoute u d (Projection.init d snapshot secret) query.text kind
      limit none with
    | error message =>
      rw [Request.answer, first] at routed
      cases routed
    | ok served => exact search_complete accepted first
  | conflicts subject severity status =>
    cases first : conflictsRoute d (Projection.init d snapshot secret) subject severity status
      limit none with
    | error message =>
      rw [Request.answer, first] at routed
      cases routed
    | ok served => exact iff_of_true (conflicts_complete accepted first) trivial
  | neighbors publicId direction predicate =>
    cases first : neighborsRoute d (Projection.init d snapshot secret) publicId direction predicate
      limit none with
    | error message =>
      rw [Request.answer, first] at routed
      cases routed
    | ok answered =>
      cases answered with
      | none =>
        rw [Request.answer, first] at routed
        cases routed
      | some served => exact iff_of_true (neighbors_complete accepted first) trivial

/-! A short query that every axiom matches, and a long one. -/

def sampleSecret : Bytes := List.replicate 32 7

def shortQuery : Query := ⟨lit "axis", by decide⟩

def longQuery : Query := ⟨List.replicate 500 0xAC00, by decide +kernel⟩

theorem fromMapping_valid {snapshot : Json} {digest : Text} {secret : Bytes}
    (valid : validateSnapshot u snapshot digest = .ok ())
    (long : 32 ≤ secret.length) (short : snapshot.writable = true) :
    fromMapping u d snapshot secret (some digest) = .ok (Projection.init d snapshot secret) := by
  rw [fromMapping, Option.some_or]
  exact bind_ok.mpr ⟨(), valid, construct_ok.mpr ⟨long, short, rfl⟩⟩

theorem plainSnapshot_writable : plainSnapshot.writable = true := by decide

theorem looseSnapshot_writable : looseSnapshot.writable = true := by decide

/-- The digests have no part in what is found. -/
theorem found_init (snapshot : Json) (normalizedQuery : Text) (kind : Option Text) :
    found u (Projection.init d snapshot sampleSecret) normalizedQuery kind =
      (collectionKinds.flatMap fun c =>
        ((recordsByCollection (collectionsOf snapshot) c).map (publicRecord c)).map
          (nodeOf c)).filter fun node =>
          searchable normalizedQuery kind node &&
            (rank normalizedQuery (normalizedTerms u node)).isSome := rfl

theorem shortQuery_fits (d : Digests) :
    (Request.search shortQuery none).Fits sampleUnicode
    (Projection.init d plainSnapshot sampleSecret) 5 := by
  intro k _ inside
  rw [found_init] at inside
  have count : ((collectionKinds.flatMap fun c =>
      ((recordsByCollection (collectionsOf plainSnapshot) c).map (publicRecord c)).map
        (nodeOf c)).filter
        fun node => searchable (shortQuery.normalized sampleUnicode) none node &&
          (rank (shortQuery.normalized sampleUnicode)
            (normalizedTerms sampleUnicode node)).isSome).length = 12 := by
    decide
  rw [count] at inside
  have each : ∀ k < 3, searchCursorSize (shortQuery.normalized sampleUnicode) none 5
      (k * 5) ≤ 4096 := by
    decide
  exact each k (by omega)

theorem pagination_complete_sample :
    validateSnapshot sampleUnicode plainSnapshot sampleDigest = .ok () ∧
    ∀ d, ∃ p, fromMapping sampleUnicode d plainSnapshot sampleSecret (some sampleDigest) = .ok p ∧
      (Request.search shortQuery none).Complete sampleUnicode d p 5 := by
  refine ⟨plainSnapshot_valid, fun d =>
    ⟨_, fromMapping_valid plainSnapshot_valid (by decide) plainSnapshot_writable, ?_⟩⟩
  exact (pagination_complete_iff
    (fromMapping_valid plainSnapshot_valid (by decide) plainSnapshot_writable) (by rfl)).mpr
    (shortQuery_fits d)

/-- An accepted search whose cursors are refused. -/
theorem long_query_stuck : validateSnapshot sampleUnicode looseSnapshot sampleDigest = .ok () ∧
    ∀ d, ∃ p, fromMapping sampleUnicode d looseSnapshot sampleSecret (some sampleDigest) = .ok p ∧
      ((Request.search longQuery none).answer sampleUnicode d p 1 none).isSome = true ∧
      ¬ (Request.search longQuery none).Complete sampleUnicode d p 1 := by
  refine ⟨looseSnapshot_valid, fun d =>
    ⟨_, fromMapping_valid looseSnapshot_valid (by decide) looseSnapshot_writable, ?_⟩⟩
  have accepted := validateSnapshot_ok looseSnapshot_valid
  have size : 2 ≤ (strip (sampleUnicode.nfkc longQuery.text)).length ∧
      (strip (sampleUnicode.nfkc longQuery.text)).length ≤ 500 := by decide +kernel
  obtain ⟨served, first⟩ :
      ∃ served, searchRoute sampleUnicode d (Projection.init d looseSnapshot sampleSecret)
      longQuery.text none 1 none = .ok served := by
    simp only [searchRoute, limitCheck, ensure_bind, if_pos size]
    exact ⟨_, rfl⟩
  refine ⟨by rw [Request.answer, first]; rfl, fun complete => ?_⟩
  have fits := (search_complete accepted first).mp complete
  have count : 1 < ((collectionKinds.flatMap fun c =>
      ((recordsByCollection (collectionsOf looseSnapshot) c).map (publicRecord c)).map
        (nodeOf c)).filter
        fun node => searchable (longQuery.normalized sampleUnicode) none node &&
          (rank (longQuery.normalized sampleUnicode)
            (normalizedTerms sampleUnicode node)).isSome).length := by
    decide +kernel
  have long : ¬ searchCursorSize (longQuery.normalized sampleUnicode) none 1 1 ≤ 4096 := by
    decide +kernel
  exact long (fits 1 (by decide) (by rwa [found_init]))

end Metahumotonic.Ontology
