import Metahumotonic.Ontology.Configure
import Metahumotonic.Ontology.Routes

/-! The handlers of `app/routers/ontology.py` and `app/ontology_web.py` from the headers and
the query of a request to the response that is rendered. -/
namespace Metahumotonic.Ontology

open Library

/-- What no handler catches. -/
inductive Crash where
  | typeError
  | keyError
  | valueError
  deriving DecidableEq, Repr

inductive Endpoint where
  | apostles
  | search
  | conflicts
  | node (publicId : Text)
  | neighbors (publicId : Text)
  | schema
  | release (projectionId : Text)

/-- Headers are decoded as Latin-1; the middleware makes the request id. -/
structure HttpRequest where
  endpoint : Endpoint
  query : List (Text × Text)
  ontologyKey : Option Text
  ifNoneMatch : Option Text
  requestId : Text
  requestId_hex : requestId.all lowerHex = true

abbrev Headers := List (Text × Text)

structure Response where
  status : Nat
  headers : Headers
  body : Option Json

def privateCache : Text := lit "private, max-age=60, must-revalidate"
def immutablePrivateCache : Text := lit "private, max-age=31536000, immutable"

def latin1 (s : Text) : Bool := s.all (· < 256)

/-- A response encodes its headers and renders its body when it is made. -/
def makeResponse (status : Nat) (headers : Headers) (body : Option Json) : Except Crash Response :=
  if headers.all (fun header => latin1 header.2) && body.all Json.renderable
    then .ok ⟨status, headers, body⟩
  else .error .valueError

def headersOf (p : Option Projection) (etag : Option Text) (cacheControl : Text) : Headers :=
  [(lit "Cache-Control", cacheControl), (lit "Vary", lit "X-Ontology-Key")] ++
    (p.map fun p => (lit "X-Content-SHA256", p.contentSha256)).toList ++
    (etag.map fun etag => (lit "ETag", etag)).toList

def metaPayload : Option Projection → Members
  | some p => p.metadata
  | none => [(lit "schema_version", .text schemaVersion), (lit "projection_id", .text projectionId)]

def errorContent (p : Option Projection) (requestId : Text) (code message : String)
    (details : Option Json) : Json :=
  .object [
    (lit "error", .object ([(lit "code", .text (lit code)), (lit "message", .text (lit message)),
      (lit "request_id", .text requestId)] ++ (details.map fun details =>
      (lit "details", details)).toList)),
    (lit "meta", .object (metaPayload p))]

def errorResponse (p : Option Projection) (requestId : Text) (status : Nat) (code message : String)
    (details : Option Json) : Except Crash Response :=
  makeResponse status (headersOf p none (lit "private, no-store"))
    (some (errorContent p requestId code message details))

/-- `secrets.compare_digest` of two strings. -/
def compareDigest (a b : Text) : Except Crash Bool :=
  if a.all (· < 128) && b.all (· < 128) then .ok (a == b) else .error .typeError

def Runtime.authorized (runtime : Runtime) : Option Text → Except Crash Bool
  | none => .ok false
  | some suppliedKey =>
    if suppliedKey = [] ∨ runtime.internalKey = [] then .ok false
    else compareDigest suppliedKey runtime.internalKey

def valuesOf (query : List (Text × Text)) (name : String) : List Text :=
  (query.filter fun item => item.1 == lit name).map Prod.snd

def singleQueryValue (query : List (Text × Text)) (name : String) : Except String (Option Text) :=
  match valuesOf query name with
  | [] => .ok none
  | [value] => if value = [] then .error (name ++ " must not be empty") else .ok (some value)
  | _ => .error (name ++ " must be supplied once")

def requiredQueryValue (query : List (Text × Text)) (name : String) : Except String Text := do
  match ← singleQueryValue query name with
  | some value => return value
  | none => .error (name ++ " is required")

def tooLong (digits : Nat) : String :=
  "Exceeds the limit (4300 digits) for integer string conversion: value has " ++ toString digits ++
    " digits; use sys.set_int_max_str_digits() to increase the limit"

def limitOf (query : List (Text × Text)) (default : Nat) : Except String Nat := do
  match ← singleQueryValue query "limit" with
  | none => return default
  | some raw =>
    ensure (raw.all Json.isDigit) "limit must be an integer"
    ensure (raw.length ≤ 4300) (tooLong raw.length)
    limitCheck (Json.number raw)
    return Json.number raw

def etagMatches (header : Option Text) (etag : Text) : Bool :=
  header.any fun raw => (raw.splitOn 44).any fun candidate =>
    let candidate := strip candidate
    candidate == [42] ||
      (if (lit "W/").isPrefixOf candidate then strip (candidate.drop 2) else candidate) == etag

mutual
/-- `sort_keys=True`. -/
def sortKeys : Json → Json
  | .array vs => .array (sortItems vs)
  | .object members => .object ((sortMembers members).insertionSort fun a b => a.1 ≤ b.1)
  | v => v
def sortItems : List Json → List Json
  | [] => []
  | v :: rest => sortKeys v :: sortItems rest
def sortMembers : Members → Members
  | [] => []
  | (k, v) :: rest => (k, sortKeys v) :: sortMembers rest
end

def hexText (bytes : Bytes) : Text :=
  bytes.flatMap fun b => [Json.hexDigit (b / 16 % 16), Json.hexDigit (b % 16)]

section
variable (u : Unicode) (d : Digests) (p : Projection)

def Projection.etagFor (resource : String) (params : Json) : Text :=
  let context := sortKeys (.object [(lit "resource", .text (lit resource)), (lit "params", params)])
  34 :: hexText (d.sha256 (p.contentSha256 ++ 0 :: context.write)) ++ [34]

/-- Sorted, each once. -/
def Projection.predicates : List Text :=
  sortedTexts (p.relationships.map (textOf · (lit "predicate"))).dedup

def Projection.schemaDocument : Json :=
  .object [
    (lit "schema_version", .text schemaVersion), (lit "projection_id", .text projectionId),
    (lit "public_id_pattern",
      .text (lit "^mtg1-[a-f0-9]" ++ [123] ++ lit "16" ++ [125] ++ lit "$")),
    (lit "digest_semantics", .object [
      (lit "content_sha256", .text (lit "OPERATOR_PINNED_SOURCE_MANIFEST_CANONICAL_DIGEST")),
      (lit "snapshot_bytes", .text (lit "PINNED_SEPARATELY_AT_STARTUP"))]),
    (lit "collection_kinds", .object (collectionKinds.map fun c => (c.name, .text c.kind))),
    (lit "predicates", .array (p.predicates.map .text)),
    (lit "conflict_policy", .object [(lit "apostle_slot_9", .text (lit "CONFLICT_PENDING")),
      (lit "default_servable", .bool false), (lit "node_status", .int 409)]),
    (lit "identity_rules", .object [(lit "omc_abbreviation", .text (lit "OMC")),
      (lit "om_is_current_alias", .bool false),
      (lit "harness_hades", .text (lit "ONE_ENTITY_ONE_SLOT")),
      (lit "hswm_scope", .text (lit "IDENTITY_ONLY_NOT_IMPLEMENTATION_COMPLETENESS"))])]

def webOrigin : Text := lit "https://metahumotonic.com"

def apostleWebRoutes : List (ℤ × Option Text × Text) :=
  [(1, some (lit "디멘션워커"), lit "dimension-walker"),
    (2, some (lit "ICE ORCA DRAGON"), lit "ice-orca-dragon"),
    (3, some (lit "초공동의 용사"), lit "superhollow-knight"), (4, some (lit "비행기맨"), lit "bhgman"),
    (5, some (lit "스페이스걸"), lit "spacegirl"), (6, some (lit "인류역사흐름의강물"), lit "great-river"),
    (7, some (lit "리퀘스트의 나무"), lit "liquest-tree"), (8, some (lit "입체운행구름"), lit "orbital-cloud"),
    (9, none, lit "jesus"), (10, some (lit "깊바존"), lit "gipbajon"),
    (11, some (lit "HOH"), lit "hoh"),
    (12, some (lit "몬순"), lit "monsoon")]

def positionOf (record : Members) : ℤ := (int? (field record (lit "position"))).getD 0

def webReference (position : ℤ) (slug : Text) : Json :=
  .object [
    (lit "concept_iri",
      .text (webOrigin ++ lit "/learn/#entity-apostle-" ++ Json.writeInt position)),
    (lit "page_url", .text (webOrigin ++ lit "/apostles/" ++ slug ++ lit "/")),
    (lit "wiki_url", .text (webOrigin ++ lit "/wiki/apostles/" ++ slug ++ lit "/")),
    (lit "graph_url", .text (webOrigin ++ lit "/apostles/graph.jsonld")),
    (lit "authority", .text (lit "EDITORIAL_SUMMARY")),
    (lit "mapping_status",
      .text (if position = 9 then lit "CONFLICT_REFERENCE_ONLY" else lit "EDITORIAL_REFERENCE")),
    (lit "identity_equivalence", .bool false)]

inductive Mapping where
  | item (slot : Json)
  | mismatch
  | unknownPosition

def webItem (slot : Members) : Mapping :=
  match apostleWebRoutes.lookup (positionOf slot) with
  | none => .unknownPosition
  | some (expectedName, slug) =>
    let entity := mapping? (field slot (lit "entity"))
    let agrees :=
      if positionOf slot = 9 then entity.isNone && isText (field slot (lit "selection_state"))
        (lit "CONFLICT_PENDING")
      else entity.any fun entity =>
        expectedName.any (isText (field entity (lit "canonical_name")) ·)
    if agrees then
      .item (.object (setEntry (lit "web_reference") (webReference (positionOf slot) slug) slot))
    else .mismatch

/-- The slots in order until one has no reviewed reference. -/
def webItems : List Members → Except Crash (Option (List Json))
  | [] => .ok (some [])
  | slot :: rest =>
    match webItem slot with
    | .unknownPosition => .error .keyError
    | .mismatch => .ok none
    | .item shown => do
      let later ← webItems rest
      return later.map (shown :: ·)

/-- Nothing when the roster does not match the web mapping. -/
def Projection.apostleWebDirectory : Except Crash (Option Json) := do
  let items ← webItems ((p.collections .apostles).insertionSort fun a b =>
      positionOf a ≤ positionOf b)
  return items.map fun items =>
    .object [(lit "items", .array items),
      (lit "mapping_version", .text (lit "apostle-web-references/v1"))]

/-- The parameters that the ETag is made from, and the page. -/
def searchPage (query : List (Text × Text)) : Except String (Json × Page Text Json) := do
  let raw ← requiredQueryValue query "q"
  let normalizedQuery := strip (u.nfkc raw)
  ensure (2 ≤ normalizedQuery.length ∧ normalizedQuery.length ≤ 500)
    "q must be between 2 and 500 characters"
  let kind ← singleQueryValue query "kind"
  ensure (kind.all ((collectionKinds.map Collection.kind).contains ·))
    "kind is not a supported ontology kind"
  let limit ← limitOf query 20
  let cursor ← singleQueryValue query "cursor"
  let page ← p.search u d normalizedQuery kind limit cursor
  return (.object [(lit "q", .text (u.casefold normalizedQuery)), (lit "kind", paramJson kind),
    (lit "limit", .int limit), (lit "cursor", paramJson cursor)], page)

def conflictsFound (query : List (Text × Text)) : Except String (Json × Page Text Json) := do
  let subject ← singleQueryValue query "subject_public_id"
  ensure (subject.all publicIdRe) "subject_public_id must be an opaque ontology public ID"
  let severity ← singleQueryValue query "severity"
  ensure (severity.all tokenRe) "severity must be an uppercase ontology token"
  let status ← singleQueryValue query "status"
  ensure (status.all tokenRe) "status must be an uppercase ontology token"
  let limit ← limitOf query 20
  let cursor ← singleQueryValue query "cursor"
  let page ← p.conflictsPage d subject severity status limit cursor
  return (.object [(lit "subject_public_id", paramJson subject),
    (lit "severity", paramJson severity),
    (lit "status", paramJson status), (lit "limit", .int limit), (lit "cursor", paramJson cursor)],
      page)

/-- Nothing when there is no such node. -/
def neighborsFound (publicId : Text) (query : List (Text × Text)) :
    Except String (Option (Json × Page Text Json)) := do
  let named ← singleQueryValue query "direction"
  match directionOf named with
  | none => .error "direction must be in, out, or both"
  | some direction => do
    let predicate ← singleQueryValue query "predicate"
    ensure (predicate.all tokenRe) "predicate must be an uppercase ontology predicate"
    let limit ← limitOf query 50
    let cursor ← singleQueryValue query "cursor"
    match p.neighbors d publicId direction predicate limit cursor with
    | none => return none
    | some answer => do
      let page ← answer
      return some (.object
        [(lit "public_id", .text publicId), (lit "direction", .text direction.name),
        (lit "predicate", paramJson predicate), (lit "limit", .int limit),
        (lit "cursor", paramJson cursor)], page)

end

/-- What a handler has found before it makes a response. -/
inductive Reply where
  | failed (status : Nat) (code message : String) (details : Option Json)
  | served (etag : Text) (cacheControl : Text) (data : Json) (next : Option (Option Text))

def badRequest (message : String) : Reply := .failed 400 "ONTOLOGY_BAD_REQUEST" message none

def nodeMissing : Reply := .failed 404 "ONTOLOGY_NODE_NOT_FOUND" "Ontology node not found." none

section
variable (u : Unicode) (d : Digests) (p : Projection)

def pageReply (resource : String) (params : Json) (data : Members)
    (page : Page Text Json) : Reply :=
  .served (p.etagFor d resource params) privateCache
    (.object (data ++ [(lit "items", .array page.items)]))
    (some page.next)

def replyTo (query : List (Text × Text)) : Endpoint → Except Crash Reply
  | .apostles =>
    match p.apostleWebDirectory with
    | .error crash => .error crash
    | .ok none => .ok (.failed 503 "ONTOLOGY_WEB_MAPPING_MISMATCH"
        "The ontology roster requires a reviewed web mapping." none)
    | .ok (some data) => .ok (.served (p.etagFor d "apostles" data) privateCache data none)
  | .search =>
    match searchPage u d p query with
    | .error message => .ok (badRequest message)
    | .ok found => .ok (pageReply d p "search" found.1 [] found.2)
  | .conflicts =>
    match conflictsFound d p query with
    | .error message => .ok (badRequest message)
    | .ok found => .ok (pageReply d p "conflicts" found.1 [] found.2)
  | .node publicId =>
    match p.getNode publicId with
    | .pending record =>
      .ok (.failed 409 "CONFLICT_PENDING" "This ontology slot has no ratified default entity."
        (some (.object (conflictPayload record))))
    | .missing => .ok nodeMissing
    | .node item => .ok
      (.served (p.etagFor d "node" (.object [(lit "public_id", .text publicId)])) privateCache
        (.object item) none)
  | .neighbors publicId =>
    match neighborsFound d p publicId query with
    | .error message => .ok (badRequest message)
    | .ok none => .ok nodeMissing
    | .ok (some found) =>
      .ok (pageReply d p "neighbors" found.1 [(lit "node_public_id", .text publicId)] found.2)
  | .schema => .ok (.served (p.etagFor d "schema" (.object [])) privateCache p.schemaDocument none)
  | .release projectionId =>
    if isText (field p.metadata (lit "projection_id")) projectionId then
      .ok (.served (p.etagFor d "release" (.object [(lit "projection_id", .text projectionId)]))
        immutablePrivateCache (.object p.releaseDocument) none)
    else .ok (.failed 404 "ONTOLOGY_RELEASE_NOT_FOUND" "Ontology release not found." none)

def successContent (data : Json) (next : Option (Option Text)) : Json :=
  .object ([(lit "data", data), (lit "meta", .object p.metadata)] ++
    (next.map fun cursor =>
      (lit "page", Json.object [(lit "next_cursor", paramJson cursor)])).toList)

def sendReply (request : HttpRequest) : Reply → Except Crash Response
  | .failed status code message details => errorResponse (some p) request.requestId status code
    message details
  | .served etag cacheControl data next =>
    if etagMatches request.ifNoneMatch etag then
      makeResponse 304 (headersOf (some p) (some etag) cacheControl) none
    else makeResponse 200 (headersOf (some p) (some etag) cacheControl)
      (some (successContent p data next))

end

def respond (u : Unicode) (d : Digests) (runtime : Runtime) (request : HttpRequest) :
    Except Crash Response :=
  match runtime.enabled && runtime.ready, runtime.projection with
  | true, some p => do
    if ← runtime.authorized request.ontologyKey then
      let reply ← replyTo u d p request.query request.endpoint
      sendReply p request reply
    else
      errorResponse (some p) request.requestId 401 "ONTOLOGY_UNAUTHORIZED"
        "A valid internal ontology key is required."
        none
  | _, _ =>
    errorResponse none request.requestId 503 "ONTOLOGY_UNAVAILABLE"
      "The internal ontology projection is unavailable."
      none

def documentedStatuses : List Nat := [200, 304, 400, 401, 404, 409, 422, 503]

end Metahumotonic.Ontology
