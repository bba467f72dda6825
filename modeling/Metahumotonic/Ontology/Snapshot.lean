import Metahumotonic.Library.Checks
import Metahumotonic.Ontology.Text
import Mathlib.Data.List.Lex
import Mathlib.Data.List.Sort

/-! The contract that a snapshot has to meet before anything is served from it
(`validate_snapshot` in `app/ontology.py`), check by check in the order of the source.
Python's `str` order is the lexicographic order of code points. -/
namespace Metahumotonic.Ontology

open Library

/-- The fixed part of the message, the path it names and the names it lists. -/
inductive Raised where
  | projection (message : String) (path : Text) (names : List Text)
  | typeError
  | stopIteration
  | valueError
  | attributeError
  | keyError
  deriving DecidableEq, Repr

def refusal (message : String) : Raised := .projection message [] []

def schemaVersion : Text := lit "metahumotonic-public-graph/v1"
def projectionId : Text := lit "metahumotonic-public-graph-v1-2026-08-30"
def releaseState : Text := lit "ACTIVE_INTERNAL_CONFLICT_AWARE"
def publicationStatus : Text := lit "INTERNAL_ONLY"

inductive Collection where
  | axioms
  | apostles
  | legionCommanders
  | omcCommanders
  | phases
  | structuralPatterns
  deriving DecidableEq, Repr

def collectionKinds : List Collection :=
  [.axioms, .apostles, .legionCommanders, .omcCommanders, .phases, .structuralPatterns]

namespace Collection

def name : Collection → Text
  | axioms => lit "axioms"
  | apostles => lit "apostles"
  | legionCommanders => lit "legion_commanders"
  | omcCommanders => lit "omc_commanders"
  | phases => lit "phases"
  | structuralPatterns => lit "structural_patterns"

def kind : Collection → Text
  | axioms => lit "axiom"
  | apostles => lit "apostle"
  | legionCommanders => lit "legion_commander"
  | omcCommanders => lit "omc_commander"
  | phases => lit "phase"
  | structuralPatterns => lit "structural_pattern"

def expectedCardinality : Collection → Nat
  | axioms => 12
  | apostles => 12
  | legionCommanders => 7
  | omcCommanders => 6
  | phases => 2
  | structuralPatterns => 4

def allowedKeys : Collection → List Text
  | axioms => [lit "binding_state", lit "body_policy", lit "canonical_name",
    lit "content_authority",
      lit "definition", lit "identity_authority", lit "position", lit "public_id", lit "status"]
  | apostles => [lit "body_policy", lit "candidates", lit "entity", lit "position", lit "public_id",
      lit "selection_state", lit "structural_group"]
  | legionCommanders =>
    [lit "aliases", lit "binding_state", lit "canonical_name", lit "identity_rule",
      lit "position", lit "public_id", lit "status", lit "verb"]
  | omcCommanders => [lit "binding_state", lit "canonical_name", lit "public_id", lit "scope_note",
    lit "status"]
  | phases => [lit "binding_state", lit "body_policy", lit "canonical_name",
    lit "content_authority",
      lit "public_id", lit "status"]
  | structuralPatterns =>
    [lit "binding_state", lit "body_policy", lit "canonical_name", lit "public_id",
      lit "status"]

def requiredKeys : Collection → List Text
  | apostles => [lit "entity", lit "position", lit "public_id", lit "selection_state",
    lit "structural_group"]
  | legionCommanders => [lit "binding_state", lit "canonical_name", lit "position", lit "public_id",
      lit "status", lit "verb"]
  | omcCommanders => [lit "binding_state", lit "canonical_name", lit "public_id", lit "status"]
  | c => c.allowedKeys

end Collection

def entityAllowedKeys : List Text :=
  [lit "aliases", lit "binding_state", lit "body_policy", lit "canonical_abbreviation",
    lit "canonical_name",
    lit "content_authority", lit "identity_authority"]

def entityRequiredKeys : List Text := entityAllowedKeys.filter (· != lit "canonical_abbreviation")

def candidateKeys : List Text :=
  [lit "authority", lit "binding_state", lit "candidate_id", lit "canonical_name",
    lit "default_servable"]

def relationshipKeys : List Text :=
  [lit "authority", lit "from_public_id", lit "predicate", lit "relationship_id", lit "status",
    lit "to_public_id"]

def conflictAllowedKeys : List Text :=
  [lit "conflict_id", lit "detail", lit "expected", lit "observed", lit "selected_candidate",
    lit "severity",
    lit "status", lit "subject_public_id", lit "subject_scope"]

def conflictRequiredKeys : List Text :=
  [lit "conflict_id", lit "detail", lit "severity", lit "status"]

def omcRoster : List Text :=
  [lit "333", lit "CHU", lit "CRL", lit "engineboy", lit "orrr", lit "HSWM"]

def lowerHex (c : Nat) : Bool := (48 ≤ c && c ≤ 57) || (97 ≤ c && c ≤ 102)

/-- `PUBLIC_ID_RE.fullmatch`. -/
def publicIdRe (s : Text) : Bool :=
  s.take 5 == lit "mtg1-" && (s.drop 5).length == 16 && (s.drop 5).all lowerHex

/-- `SHA256_RE.fullmatch`. -/
def sha256Re (s : Text) : Bool := s.length == 64 && s.all lowerHex

def isText (v : Json) (s : Text) : Bool :=
  match v with
  | .text t => t == s
  | _ => false

def text? : Json → Option Text
  | .text s => some s
  | _ => none

/-- `isinstance(item, int) and not isinstance(item, bool)`. -/
def int? : Json → Option ℤ
  | .int n => some n
  | _ => none

def mapping? : Json → Option Members
  | .object members => some members
  | _ => none

def items : Json → List Json
  | .array vs => vs
  | _ => []

def sameNames (members : Members) (names : List Text) : Bool :=
  members.all (fun member => names.contains member.1) && names.all (hasName members)

def requireMapping : Json → Text → Except Raised Members
  | .object members, _ => .ok members
  | _, path => .error (.projection "expected object" path [])

def requireList : Json → Text → Except Raised (List Json)
  | .array vs, _ => .ok vs
  | _, path => .error (.projection "expected array" path [])

def requireText : Json → Text → Except Raised Text
  | .text s, path => if strip s = []
    then .error (.projection "expected non-empty text" path []) else .ok s
  | _, path => .error (.projection "expected non-empty text" path [])

def indexed (path : Text) (i : Nat) : Text := path ++ lit "[" ++ lit (toString i) ++ lit "]"

variable (u : Unicode)

mutual
def validateNoPrivateMaterial : Json → Text → Except Raised Unit
  | .object members, path => scanMembers members path
  | .array vs, path => scanItems vs path 0
  | .text s, path =>
    ensure (u.unmarked s) (.projection "snapshot contains forbidden private string marker" path [])
  | _, _ => .ok ()
def scanItems : List Json → Text → Nat → Except Raised Unit
  | [], _, _ => .ok ()
  | v :: rest, path, i => do
    validateNoPrivateMaterial v (indexed path i)
    scanItems rest path (i + 1)
def scanMembers : Members → Text → Except Raised Unit
  | [], _ => .ok ()
  | (key, v) :: rest, path => do
    let lowered := u.casefold key
    ensure (lowered ∉ forbiddenKeys)
      (.projection "snapshot contains forbidden private field" path [key])
    ensure ((lit "sha256").isSuffixOf lowered → lowered = lit "content_sha256")
      (.projection "snapshot contains forbidden digest field" path [key])
    validateNoPrivateMaterial v (path ++ lit "." ++ key)
    scanMembers rest path
end

def sortedTexts (texts : List Text) : List Text := texts.insertionSort (· ≤ ·)

def validateKeys (members : Members) (allowed required : List Text) (path : Text) :
    Except Raised Unit := do
  let unexpected := (members.map Prod.fst).filter (!allowed.contains ·)
  let missing := required.filter (!hasName members ·)
  ensure (unexpected = [])
    (.projection "unexpected public DTO field(s)" path (sortedTexts unexpected))
  ensure (missing = []) (.projection "missing public DTO field(s)" path (sortedTexts missing))

def validateAliases (value : Json) (path : Text) : Except Raised Unit := do
  let aliases ← requireList value path
  ensure (∀ item ∈ aliases, (text? item).isSome ∧ (text? item).all (strip · ≠ []))
    (.projection "aliases must contain only non-empty text" path [])
  ensure (aliases.filterMap text?).Nodup (.projection "aliases must be unique" path [])

def validateEntity (entity : Json) (path : Text) : Except Raised Unit :=
  match entity with
  | .null => .ok ()
  | _ => do
    let members ← requireMapping entity path
    validateKeys members entityAllowedKeys entityRequiredKeys path
    let _ ← requireText (field members (lit "canonical_name")) (path ++ lit ".canonical_name")
    validateAliases (field members (lit "aliases")) (path ++ lit ".aliases")

def validateCandidate (path : Text) (raw : Json) (i : Nat) : Except Raised Unit := do
  let candidate ← requireMapping raw (indexed path i)
  validateKeys candidate candidateKeys candidateKeys (indexed path i)
  checkEach (fun name _ => do
    let _ ← requireText (field candidate name) (indexed path i ++ lit "." ++ name))
    (candidateKeys.filter (· != lit "default_servable")) 0

/-- One record of a collection; the public ids that are known after it. -/
def validateRecord (c : Collection) (known : List Text) (raw : Json) (i : Nat) :
    Except Raised (List Text) := do
  let path := indexed (lit "$.data.collections." ++ c.name) i
  let record ← requireMapping raw path
  validateKeys record c.allowedKeys c.requiredKeys path
  let publicId ← requireText (field record (lit "public_id")) (path ++ lit ".public_id")
  ensure (publicIdRe publicId) (.projection "invalid opaque public ID in collection" [] [c.name])
  ensure (publicId ∉ known) (refusal "duplicate ontology public ID")
  checkWhen (c ≠ .apostles) do
    let _ ← requireText (field record (lit "canonical_name")) (path ++ lit ".canonical_name")
  checkWhen (hasName record (lit "aliases")) do
    validateAliases (field record (lit "aliases")) (path ++ lit ".aliases")
  checkWhen (c = .apostles) do
    validateEntity (field record (lit "entity")) (path ++ lit ".entity")
    checkWhen (hasName record (lit "candidates")) do
      let candidates ← requireList (field record (lit "candidates")) (path ++ lit ".candidates")
      checkEach (validateCandidate (path ++ lit ".candidates")) candidates 0
  return known ++ [publicId]

def validateCollection (collections : Members) (known : List Text) (c : Collection) (_ : Nat) :
    Except Raised (List Text) := do
  let records ← requireList (field collections c.name) (lit "$.data.collections." ++ c.name)
  ensure (records.length = c.expectedCardinality)
    (.projection "ontology cardinality mismatch" [] [c.name, lit (toString c.expectedCardinality)])
  foldChecks (validateRecord c) records 0 known

/-- `records_by_collection`: what a validated document holds under a collection's name. -/
def recordsByCollection (collections : Members) (c : Collection) : List Members :=
  (items (field collections c.name)).filterMap mapping?

/-- The object under a name of an object. -/
def within (members : Members) (name : Text) : Members := (mapping? (field members name)).getD []

def rootOf (snapshot : Json) : Members := (mapping? snapshot).getD []

def metaOf (snapshot : Json) : Members := within (rootOf snapshot) (lit "meta")

def dataOf (snapshot : Json) : Members := within (rootOf snapshot) (lit "data")

def collectionsOf (snapshot : Json) : Members := within (dataOf snapshot) (lit "collections")

def relationshipsOf (snapshot : Json) : List Members :=
  (items (field (dataOf snapshot) (lit "relationships"))).filterMap mapping?

def conflictsOf (snapshot : Json) : List Members :=
  (items (field (dataOf snapshot) (lit "conflicts"))).filterMap mapping?

def positions (records : List Members) : Option (List ℤ) :=
  records.mapM fun record => int? (field record (lit "position"))

/-- `sorted(positions) == list(range(1, n + 1))`. -/
def exactly (n : Nat) (ps : List ℤ) : Bool :=
  ps.insertionSort (· ≤ ·) == (List.range n).map fun i => (i : ℤ) + 1

def atPosition (p : ℤ) (record : Members) : Bool := int? (field record (lit "position")) == some p

/-- `next(...)`. -/
def next (found : Option Members) : Except Raised Members :=
  match found with
  | some record => .ok record
  | none => .error .stopIteration

def validateSelected (record : Members) (_ : Nat) : Except Raised Unit :=
  if atPosition 9 record then .ok () else do
    ensure (isText (field record (lit "selection_state")) (lit "SELECTED"))
      (refusal "only apostle slot 9 may be conflict-pending; every other slot must be SELECTED")
    ensure (mapping? (field record (lit "entity"))).isSome
      (refusal "selected apostle slots must contain an entity")
    ensure (¬ hasName record (lit "candidates"))
      (refusal "selected apostle slots must not include candidates")

def validateSlot8 (apostles : List Members) : Except Raised Unit := do
  let slot8 ← next (apostles.find? (atPosition 8))
  let entity ← requireMapping (field slot8 (lit "entity")) (lit "apostle slot 8 entity")
  ensure (isText (field entity (lit "canonical_name")) (lit "입체운행구름"))
    (refusal "apostle slot 8 must be 입체운행구름")
  ensure (isText (field entity (lit "canonical_abbreviation")) (lit "OMC"))
    (refusal "OMC must be the canonical abbreviation")
  let aliases := items (field entity (lit "aliases"))
  ensure (aliases.any (isText · (lit "OMC")) ∧ ¬ aliases.any (isText · (lit "OM")))
    (refusal "OMC aliases violate the OM exclusion rule")

def sameTexts (xs ys : List Text) : Bool := xs.all (ys.contains ·) && ys.all (xs.contains ·)

/-- `record[name]` of a name that was checked to hold a text. It is an error here not to find one,
whatever the code does with what it finds instead: no document comes to that. -/
def textAt (record : Members) (name : Text) : Except Raised Text :=
  match field record name with
  | .text s => .ok s
  | _ => .error .keyError

def texts (records : List Members) (name : Text) : Except Raised (List Text) :=
  records.mapM (textAt · name)

/-- `candidate.get(name)`. -/
def candidateText (name : Text) : Json → Except Raised Text
  | .object candidate => textAt candidate name
  | _ => .error .attributeError

def notServable (candidate : Json) : Bool :=
  match (mapping? candidate).map (field · (lit "default_servable")) with
  | some (.bool false) => true
  | _ => false

def isNull : Json → Bool
  | .null => true
  | _ => false

def validateSlot9 (apostles : List Members) : Except Raised Unit := do
  let slot9 ← next (apostles.find? (atPosition 9))
  ensure (isText (field slot9 (lit "selection_state")) (lit "CONFLICT_PENDING"))
    (refusal "apostle slot 9 must remain conflict-pending")
  ensure (isNull (field slot9 (lit "entity")) ∧ isText (field slot9 (lit "body_policy"))
    (lit "NO_DEFAULT"))
    (refusal "apostle slot 9 must not select a default entity")
  let candidates ← requireList (field slot9 (lit "candidates")) (lit "apostle slot 9 candidates")
  ensure (candidates.length = 2) (refusal "apostle slot 9 must have exactly two candidates")
  let ids ← candidates.mapM (candidateText (lit "candidate_id"))
  ensure ids.Nodup (refusal "apostle slot 9 candidate IDs must be unique")
  let names ← candidates.mapM (candidateText (lit "canonical_name"))
  ensure names.Nodup (refusal "apostle slot 9 candidate names must be unique")
  ensure (sameTexts names [lit "예수", lit "검은 태양신 아텐"])
    (refusal "apostle slot 9 candidate set mismatch")
  ensure (candidates.all notServable)
    (refusal "apostle slot 9 candidates must not be default-served")

def named (name : Text) (record : Members) : Bool :=
  isText (field record (lit "canonical_name")) name

def validateHarness (commanders : List Members) : Except Raised Unit := do
  let harness := commanders.filter (named (lit "Harness"))
  ensure (harness.length = 1 ∧
      harness.all fun record => isText (field record (lit "identity_rule"))
        (lit "ONE_ENTITY_ONE_SLOT"))
    (refusal "Harness/Hades must occupy one commander slot")
  ensure (¬ commanders.any (named (lit "Hades")))
    (refusal "Hades must not be a second commander entity")
  ensure (harness.all fun record => (items (field record (lit "aliases"))).any
    (isText · (lit "Hades")))
    (refusal "Harness must preserve Hades as an alias")

def validateOmc (commanders : List Members) : Except Raised Unit := do
  let names ← texts commanders (lit "canonical_name")
  ensure (sameTexts names omcRoster) (refusal "OMC commander roster mismatch")
  let hswm ← next (commanders.find? (named (lit "HSWM")))
  ensure ((text? (field hswm (lit "scope_note"))).any fun note =>
      contains (lit "implementation") (u.casefold note) && contains (lit "not a claim")
        (u.casefold note))
    (refusal "HSWM must be scoped as identity, not implementation completeness")

def validateDomainInvariants (records : Collection → List Members) : Except Raised Unit := do
  let apostles := records .apostles
  ensure (positions apostles).isSome (refusal "apostle positions must be integers")
  ensure ((positions apostles).any (exactly 12))
    (refusal "apostle positions must be exactly 1 through 12")
  checkEach validateSelected apostles 0
  ensure ((positions (records .axioms)).any (exactly 12))
    (refusal "axiom positions must be exactly 1 through 12")
  ensure ((positions (records .legionCommanders)).any (exactly 7))
    (refusal "legion commander positions must be exactly 1 through 7")
  validateSlot8 apostles
  validateSlot9 apostles
  validateHarness (records .legionCommanders)
  validateOmc u (records .omcCommanders)

/-- `value not in public_ids` hashes the value first. -/
def knownId (ids : List Text) (value : Json) (message : String) : Except Raised Unit :=
  match value with
  | .text s => ensure (s ∈ ids) (refusal message)
  | .array _ => .error .typeError
  | .object _ => .error .typeError
  | _ => .error (refusal message)

def validateRelationship (ids : List Text) (known : List Text) (raw : Json) (i : Nat) :
    Except Raised (List Text) := do
  let path := indexed (lit "$.data.relationships") i
  let relationship ← requireMapping raw path
  validateKeys relationship relationshipKeys relationshipKeys path
  let relationshipId ← requireText (field relationship (lit "relationship_id"))
      (path ++ lit ".relationship_id")
  ensure (relationshipId ∉ known) (refusal "duplicate ontology relationship ID")
  checkEach (fun name _ => do
    let _ ← requireText (field relationship name) (path ++ lit "." ++ name))
    [lit "predicate", lit "authority", lit "status"] 0
  knownId ids (field relationship (lit "from_public_id"))
    "ontology relationship has unknown from_public_id"
  knownId ids (field relationship (lit "to_public_id"))
    "ontology relationship has unknown to_public_id"
  return known ++ [relationshipId]

def textOf (record : Members) (name : Text) : Text := (text? (field record name)).getD []

/-- `apostles_by_position[p]["public_id"]`. -/
def apostleIdAt (apostles : List Members) (p : ℤ) : Except Raised Text :=
  match apostles.find? (atPosition p) with
  | some apostle => textAt apostle (lit "public_id")
  | none => .error .keyError

/-- The edges of a predicate lead from one apostle to all records of a collection. -/
def validateStar (edges : List Members) (count : Nat) (source : Text) (targets : List Text)
    (authority status : Text) (message : String) : Except Raised Unit := do
  let sources ← texts edges (lit "from_public_id")
  let ends ← texts edges (lit "to_public_id")
  ensure (edges.length = count ∧ sameTexts sources [source] ∧ sameTexts ends targets ∧
      edges.all fun edge => isText (field edge (lit "authority")) authority &&
        isText (field edge (lit "status")) status)
    (refusal message)

def expectedPhasePolicy : List (Text × Text × Text) :=
  [(lit "공허진동자", lit "USER_PRIMARY", lit "PROJECTED_FROM_USER_SOURCE"),
    (lit "검은 태양신 아텐", lit "PROJECT_CANON", lit "PROJECTED_FROM_PROJECT_CANON")]

def validatePhase (edges : List Members) (target : Text) (phase : Members) (_ : Nat) :
    Except Raised Unit := do
  let publicId ← textAt phase (lit "public_id")
  let name ← textAt phase (lit "canonical_name")
  ensure ((edges.find? fun edge => isText (field edge (lit "from_public_id")) publicId).any
    fun edge =>
      (member? expectedPhasePolicy name).any fun policy =>
        isText (field edge (lit "to_public_id")) target && isText
          (field edge (lit "authority")) policy.1 &&
          isText (field edge (lit "status")) policy.2)
    (refusal "phase to apostle 10 topology mismatch")

def validateRelationshipInvariants (records : Collection → List Members)
    (relationships : List Members) :
    Except Raised Unit := do
  let predicates ← texts relationships (lit "predicate")
  ensure (sameTexts predicates [lit "COMMANDS_LEGION", lit "HAS_DIRECT_COMMANDER", lit "PHASE_OF"])
    (refusal "ontology relationship predicate set mismatch")
  let byPredicate name := relationships.filter fun edge =>
    isText (field edge (lit "predicate")) name
  let legionSource ← apostleIdAt (records .apostles) 4
  let legionTargets ← texts (records .legionCommanders) (lit "public_id")
  validateStar (byPredicate (lit "COMMANDS_LEGION")) 7 legionSource legionTargets
    (lit "PROJECT_CANON_WITH_USER_VERDICT")
    (lit "ACTIVE") "apostle 4 to legion commander topology mismatch"
  let omcSource ← apostleIdAt (records .apostles) 8
  let omcTargets ← texts (records .omcCommanders) (lit "public_id")
  validateStar (byPredicate (lit "HAS_DIRECT_COMMANDER")) 6 omcSource omcTargets
    (lit "USER_PRIMARY") (lit "ACTIVE") "OMC to direct commander topology mismatch"
  let target ← apostleIdAt (records .apostles) 10
  let phaseEdges := byPredicate (lit "PHASE_OF")
  ensure (phaseEdges.length = 2) (refusal "phase topology cardinality mismatch")
  let sources ← texts phaseEdges (lit "from_public_id")
  ensure sources.Nodup (refusal "phase topology has duplicate source")
  checkEach (validatePhase phaseEdges target) (records .phases) 0

def validateConflict (ids : List Text) (known : List Text) (raw : Json) (i : Nat) :
    Except Raised (List Text) := do
  let path := indexed (lit "$.data.conflicts") i
  let conflict ← requireMapping raw path
  validateKeys conflict conflictAllowedKeys conflictRequiredKeys path
  let conflictId ← requireText (field conflict (lit "conflict_id")) (path ++ lit ".conflict_id")
  ensure (conflictId ∉ known) (refusal "duplicate ontology conflict ID")
  checkEach (fun name _ => do
    let _ ← requireText (field conflict name) (path ++ lit "." ++ name))
    [lit "detail", lit "severity", lit "status"] 0
  ensure (hasName conflict (lit "subject_public_id") ≠ hasName conflict (lit "subject_scope"))
    (refusal "ontology conflict must have exactly one subject reference")
  checkWhen (¬ isNull (field conflict (lit "subject_public_id"))) do
    knownId ids (field conflict (lit "subject_public_id")) "ontology conflict has unknown subject"
  return known ++ [conflictId]

def expectedMeta (contentSha256 : Text) : Members :=
  [(lit "schema_version", .text schemaVersion), (lit "projection_id", .text projectionId),
    (lit "release_state", .text releaseState), (lit "publication_status", .text publicationStatus),
    (lit "content_sha256", .text contentSha256)]

def metaMatches (members : Members) (contentSha256 : Text) : Bool :=
  sameNames members ((expectedMeta contentSha256).map Prod.fst) &&
    (expectedMeta contentSha256).all fun expected =>
      (text? expected.2).any (isText (field members expected.1))

def validateSnapshot (snapshot : Json) (expectedContentSha256 : Text) : Except Raised Unit := do
  let root ← requireMapping snapshot (lit "$")
  validateNoPrivateMaterial u snapshot (lit "$")
  ensure (sameNames root [lit "meta", lit "data"])
    (refusal "snapshot root must contain only meta and data")
  let members ← requireMapping (field root (lit "meta")) (lit "$.meta")
  ensure (metaMatches members expectedContentSha256)
    (refusal "ontology projection metadata mismatch")
  ensure (sha256Re expectedContentSha256) (refusal "ontology content SHA-256 is invalid")
  let data ← requireMapping (field root (lit "data")) (lit "$.data")
  ensure (sameNames data [lit "collections", lit "relationships", lit "conflicts"])
    (refusal "snapshot data shape mismatch")
  let collections ← requireMapping (field data (lit "collections")) (lit "$.data.collections")
  ensure (sameNames collections (collectionKinds.map Collection.name))
    (refusal "ontology collection set mismatch")
  let ids ← foldChecks (validateCollection collections) collectionKinds 0 []
  validateDomainInvariants u (recordsByCollection collections)
  let relationships ← requireList (field data (lit "relationships")) (lit "$.data.relationships")
  ensure (relationships.length = 15) (refusal "ontology relationship cardinality mismatch")
  let _ ← foldChecks (validateRelationship ids) relationships 0 []
  validateRelationshipInvariants (recordsByCollection collections)
    (relationships.filterMap mapping?)
  let conflicts ← requireList (field data (lit "conflicts")) (lit "$.data.conflicts")
  ensure (conflicts.length = 8) (refusal "ontology conflict cardinality mismatch")
  let _ ← foldChecks (validateConflict ids) conflicts 0 []

end Metahumotonic.Ontology
