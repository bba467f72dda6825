import Metahumotonic.Ontology.Projection

/-! The handlers of `app/routers/ontology.py` from the values of a request's parameters
on: their checks, and the bodies they answer with. The request id of an error body, which
the middleware makes, is left out. -/
namespace Metahumotonic.Ontology

open Library

variable (u : Unicode) (d : Digests) (p : Projection)

def upper (c : Nat) : Bool := 65 ≤ c && c ≤ 90

/-- `_ONTOLOGY_TOKEN_RE.fullmatch`. -/
def tokenRe (s : Text) : Bool :=
  match s with
  | [] => false
  | c :: rest => upper c && rest.length ≤ 99 && rest.all fun c =>
    upper c || (48 ≤ c && c ≤ 57) || c == 95

def limitCheck (limit : Nat) : Except String Unit :=
  ensure (1 ≤ limit ∧ limit ≤ 100) "limit must be between 1 and 100"

def searchRoute (query : Text) (kind : Option Text) (limit : Nat) (cursor : Option Text) :
    Except String (Page Text Json) := do
  let normalizedQuery := strip (u.nfkc query)
  ensure (2 ≤ normalizedQuery.length ∧ normalizedQuery.length ≤ 500)
    "q must be between 2 and 500 characters"
  ensure (kind.all ((collectionKinds.map Collection.kind).contains ·))
    "kind is not a supported ontology kind"
  limitCheck limit
  p.search u d normalizedQuery kind limit cursor

def conflictsRoute (subject severity status : Option Text) (limit : Nat) (cursor : Option Text) :
    Except String (Page Text Json) := do
  ensure (subject.all publicIdRe) "subject_public_id must be an opaque ontology public ID"
  ensure (severity.all tokenRe) "severity must be an uppercase ontology token"
  ensure (status.all tokenRe) "status must be an uppercase ontology token"
  limitCheck limit
  p.conflictsPage d subject severity status limit cursor

def directionOf (name : Option Text) : Option Direction :=
  match name with
  | none => some .both
  | some name => [Direction.inbound, Direction.outbound, Direction.both].find? (·.name == name)

/-- Nothing when there is no such node. -/
def neighborsRoute (publicId : Text) (direction predicate : Option Text) (limit : Nat)
    (cursor : Option Text) :
    Except String (Option (Page Text Json)) := do
  match directionOf direction with
  | none => .error "direction must be in, out, or both"
  | some direction =>
    ensure (predicate.all tokenRe) "predicate must be an uppercase ontology predicate"
    limitCheck limit
    match p.neighbors d publicId direction predicate limit cursor with
    | none => return none
    | some answer =>
      let served ← answer
      return some served

def cursorJson : Option Text → Json
  | some cursor => .text cursor
  | none => .null

def successBody (data : Json) : Json :=
  .object [(lit "data", data), (lit "meta", .object p.metadata)]

def pageBody (data : Members) (served : Page Text Json) : Json :=
  .object [(lit "data", .object (data ++ [(lit "items", .array served.items)])),
    (lit "meta", .object p.metadata),
    (lit "page", .object [(lit "next_cursor", cursorJson served.next)])]

def errorBody (code message : String) (details : Members) : Json :=
  .object [(lit "error",
    .object ([(lit "code", .text (lit code)), (lit "message", .text (lit message))] ++ details)),
    (lit "meta", .object p.metadata)]

/-- The bodies that requests get from an installed projection. -/
inductive Served : Json → Prop where
  | search (query : Text) (kind : Option Text) (limit : Nat) (cursor : Option Text)
    (served : Page Text Json)
      (ok : searchRoute u d p query kind limit cursor = .ok served) : Served (pageBody p [] served)
  | searchRefused (query : Text) (kind : Option Text) (limit : Nat) (cursor : Option Text)
    (message : String)
      (bad : searchRoute u d p query kind limit cursor = .error message) :
      Served (errorBody p "ONTOLOGY_BAD_REQUEST" message [])
  | conflicts (subject severity status : Option Text) (limit : Nat) (cursor : Option Text)
      (served : Page Text Json)
      (ok : conflictsRoute d p subject severity status limit cursor = .ok served) :
      Served (pageBody p [] served)
  | conflictsRefused (subject severity status : Option Text) (limit : Nat) (cursor : Option Text)
      (message : String)
      (bad : conflictsRoute d p subject severity status limit cursor = .error message) :
      Served (errorBody p "ONTOLOGY_BAD_REQUEST" message [])
  | node (publicId : Text) (node : Members) (found : p.getNode publicId = .node node) :
      Served (successBody p (.object node))
  | nodePending (publicId : Text) (record : Members)
    (found : p.getNode publicId = .pending record) :
      Served (errorBody p "CONFLICT_PENDING" "This ontology slot has no ratified default entity."
        [(lit "details", .object (conflictPayload record))])
  | nodeMissing (publicId : Text) (found : p.getNode publicId = .missing) :
      Served (errorBody p "ONTOLOGY_NODE_NOT_FOUND" "Ontology node not found." [])
  | neighbors (publicId : Text) (direction predicate : Option Text) (limit : Nat)
    (cursor : Option Text)
      (served : Page Text Json)
      (ok : neighborsRoute d p publicId direction predicate limit cursor = .ok (some served)) :
      Served (pageBody p [(lit "node_public_id", .text publicId)] served)
  | neighborsMissing (publicId : Text) (direction predicate : Option Text) (limit : Nat)
    (cursor : Option Text)
      (ok : neighborsRoute d p publicId direction predicate limit cursor = .ok none) :
      Served (errorBody p "ONTOLOGY_NODE_NOT_FOUND" "Ontology node not found." [])
  | neighborsRefused (publicId : Text) (direction predicate : Option Text) (limit : Nat)
      (cursor : Option Text) (message : String)
      (bad : neighborsRoute d p publicId direction predicate limit cursor = .error message) :
      Served (errorBody p "ONTOLOGY_BAD_REQUEST" message [])
  | release : Served (successBody p (.object p.releaseDocument))
  | releaseMissing :
    Served (errorBody p "ONTOLOGY_RELEASE_NOT_FOUND" "Ontology release not found." [])
  | unauthorized : Served
    (errorBody p "ONTOLOGY_UNAUTHORIZED" "A valid internal ontology key is required." [])

variable {u d p}

/-- The messages of a refused request. -/
def badRequests : List String :=
  ["q must be between 2 and 500 characters", "kind is not a supported ontology kind",
    "limit must be between 1 and 100", "subject_public_id must be an opaque ontology public ID",
    "severity must be an uppercase ontology token", "status must be an uppercase ontology token",
    "direction must be in, out, or both", "predicate must be an uppercase ontology predicate",
    "invalid cursor", "invalid cursor encoding", "invalid cursor signature",
      "invalid cursor payload",
    "cursor does not match this request", "cursor offset is invalid",
      "cursor is outside the result set"]

theorem decodeCursor_error {key : Bytes} {cursor : Text} {message : String}
    (bad : decodeCursor d key cursor = .error message) : message ∈ badRequests := by
  unfold decodeCursor at bad
  split at bad
  · cases bad
    decide
  · split at bad
    · split at bad
      · cases bad
        decide
      · split at bad
        · cases bad
        · cases bad
          decide
    · cases bad
      decide

theorem page_error {items : List Json} {route : Text} {params : Params} {limit : Nat}
    {cursor : Option Text}
    {message : String} (bad : p.page d items route params limit cursor = .error message) :
    message ∈ badRequests := by
  unfold Projection.page page at bad
  split at bad
  · rename_i refused
    cases bad
    unfold cursorOffset at refused
    split at refused
    · cases refused
    · cases refused
    · split at refused
      · rename_i unread
        cases refused
        exact decodeCursor_error unread
      · split at refused
        · cases refused
          decide
        · split at refused
          · split at refused
            · cases refused
              decide
            · split at refused
              · cases refused
                decide
              · cases refused
          · cases refused
            decide
  · cases bad

theorem ensure_bind {holds : Prop} [Decidable holds] {ε : Type} {α : Type} {e : ε}
    {next : Except ε α} :
    (ensure holds e >>= fun _ => next) = if holds then next else .error e := by
  unfold ensure
  split <;> rfl

theorem searchRoute_ok {query : Text} {kind : Option Text} {limit : Nat} {cursor : Option Text}
    {served : Page Text Json} (ok : searchRoute u d p query kind limit cursor = .ok served) :
    p.search u d (strip (u.nfkc query)) kind limit cursor = .ok served := by
  simp only [searchRoute, limitCheck, bind_ok, ensure_ok] at ok
  obtain ⟨_, _, _, _, _, _, found⟩ := ok
  exact found

theorem conflictsRoute_ok {subject severity status : Option Text} {limit : Nat}
    {cursor : Option Text}
    {served : Page Text Json}
    (ok : conflictsRoute d p subject severity status limit cursor = .ok served) :
    p.conflictsPage d subject severity status limit cursor = .ok served := by
  simp only [conflictsRoute, limitCheck, bind_ok, ensure_ok] at ok
  obtain ⟨_, _, _, _, _, _, _, _, found⟩ := ok
  exact found

theorem neighborsRoute_ok {publicId : Text} {direction predicate : Option Text} {limit : Nat}
    {cursor : Option Text} {served : Page Text Json}
    (ok : neighborsRoute d p publicId direction predicate limit cursor = .ok (some served)) :
    ∃ way, p.neighbors d publicId way predicate limit cursor = some (.ok served) := by
  unfold neighborsRoute at ok
  split at ok
  · cases ok
  · rename_i way _
    refine ⟨way, ?_⟩
    simp only [limitCheck, bind_ok, ensure_ok] at ok
    obtain ⟨_, _, _, _, found⟩ := ok
    split at found
    · cases found
    · rename_i answer there
      obtain ⟨page, same, back⟩ := bind_ok.mp found
      cases back
      rw [there, same]

theorem searchRoute_error {query : Text} {kind : Option Text} {limit : Nat} {cursor : Option Text}
    {message : String} (bad : searchRoute u d p query kind limit cursor = .error message) :
    message ∈ badRequests := by
  simp only [searchRoute, limitCheck, ensure_bind] at bad
  split at bad
  · split at bad
    · split at bad
      · exact page_error bad
      · cases bad
        decide
    · cases bad
      decide
  · cases bad
    decide

theorem conflictsRoute_error {subject severity status : Option Text} {limit : Nat}
    {cursor : Option Text}
    {message : String}
    (bad : conflictsRoute d p subject severity status limit cursor = .error message) :
    message ∈ badRequests := by
  simp only [conflictsRoute, limitCheck, ensure_bind] at bad
  split at bad
  · split at bad
    · split at bad
      · split at bad
        · exact page_error bad
        · cases bad
          decide
      · cases bad
        decide
    · cases bad
      decide
  · cases bad
    decide

theorem neighborsRoute_error {publicId : Text} {direction predicate : Option Text} {limit : Nat}
    {cursor : Option Text} {message : String}
    (bad : neighborsRoute d p publicId direction predicate limit cursor = .error message) :
    message ∈ badRequests := by
  unfold neighborsRoute at bad
  split at bad
  · cases bad
    decide
  · simp only [limitCheck, ensure_bind] at bad
    split at bad
    · split at bad
      · split at bad
        · cases bad
        · rename_i answer there
          unfold Projection.neighbors at there
          split at there
          · cases there
          · cases there
            cases found : p.page d _ _ _ limit cursor with
            | error m =>
              rw [found] at bad
              cases bad
              exact page_error found
            | ok page =>
              rw [found] at bad
              cases bad
      · cases bad
        decide
    · cases bad
      decide

end Metahumotonic.Ontology
