import Metahumotonic.Library.JsJson
import Metahumotonic.Platform.Accepted

/-! The fixed probe collector and the acceptance of its saved batches
(`ts/src/platform/FixedProbeCollector.ts`). -/
namespace Metahumotonic.Platform
open Metahumotonic.Library Json

structure Target where
  id : Text
  subjectId : Text
  check : Text
  successStatus : ℕ
  deriving DecidableEq, Repr

def fixedProbeTargets : List Target :=
  [⟨lit "public-website-home", lit "service:website", lit "http", 200⟩,
    ⟨lit "public-soopoolim-home", lit "service:soopoolim", lit "http", 200⟩]

/-- `RunId`: a small letter or digit, then 2 to 55 of these and hyphens. -/
def isRunId (s : Text) : Bool :=
  let letter := fun c : ℕ => (decide (97 ≤ c) && decide (c ≤ 122)) || isDigit c
  match s with
  | [] => false
  | first :: rest =>
    letter first && decide (2 ≤ rest.length) && decide (rest.length ≤ 55) && rest.all fun c =>
      letter c || c == 45

/-- `IsoTime`: a time as `toISOString` writes it. -/
def isIsoTime (s : Text) : Bool := (IsoDate.dateParse s).any fun t => IsoDate.toISOString t == s

structure FixedProbeRequest where
  runId : Text
  observedAt : Text
  ttlSeconds : ℕ
  run : isRunId runId = true
  time : isIsoTime observedAt = true
  ttl : 60 ≤ ttlSeconds ∧ ttlSeconds ≤ 3600

/-- What a fetch comes to. -/
inductive Fetched where
  | status (code : ℕ)
  | timeout
  | network
  deriving DecidableEq, Repr

/-- The outcome, status and reason of a `FixedProbeResult`. -/
structure ProbeResult where
  outcome : Text
  status : Option ℕ
  reason : Option Text
  deriving DecidableEq, Repr

def probeResult (target : Target) : Fetched → ProbeResult
  | .status code =>
    if code = target.successStatus then ⟨lit "reachable", some code, none⟩
    else ⟨lit "failed", some code, some (lit "unexpected-status")⟩
  | .timeout => ⟨lit "failed", none, some (lit "timeout")⟩
  | .network => ⟨lit "failed", none, some (lit "network")⟩

def observationId (runId target : Text) : Text :=
  lit "observation:fixed-probe:" ++ runId ++ 58 :: target

def receiptPrefix : Text := lit "collector:fixed-probe:"

/-- `new Date(Date.parse(observedAt) + ttlSeconds * 1000).toISOString()`, which throws out of range.
-/
def expiry (observedAt : Text) (ttlSeconds : ℕ) : Option Text :=
  let t := timeOf observedAt + ttlSeconds * 1000
  if -8640000000000000 ≤ t ∧ t ≤ 8640000000000000 then some (IsoDate.toISOString t) else none

def noteStart (target : Text) : Text :=
  lit "Fixed GET allowlist target=" ++ target ++ lit "; status="

def noteEnd : Text := lit "; response body was not collected."

def reasonText : Option Text → Text
  | none => []
  | some reason => lit " result=" ++ reason

def noteText (target status : Text) (reason : Option Text) : Text :=
  noteStart target ++ (status ++ (reasonText reason ++ noteEnd))

def statusText : Option ℕ → Text
  | none => lit "none"
  | some code => decimal code

def evidenceOf (observedAt note : Text) : Json :=
  .object [(lit "source", .text (lit "collector:fixed-probe/v1")),
    (lit "authority", .text (lit "SYSTEM_DERIVED")),
    (lit "observedAt", .text observedAt), (lit "note", .text note)]

/-- The observation of a probe. -/
def observationOf (request : FixedProbeRequest) (expiresAt : Text) (target : Target)
    (result : ProbeResult) : Json :=
  .object [(lit "id", .text (observationId request.runId target.id)),
    (lit "subjectId", .text target.subjectId),
    (lit "check", .text target.check), (lit "outcome", .text result.outcome),
    (lit "observedAt", .text request.observedAt), (lit "expiresAt", .text expiresAt),
    (lit "evidence", .array [evidenceOf request.observedAt
      (noteText target.id (statusText result.status) result.reason)])]

def probe (request : FixedProbeRequest) (target : Target) (fetched : Fetched) : Option Json :=
  (expiry request.observedAt request.ttlSeconds).map fun expiresAt =>
    observationOf request expiresAt target (probeResult target fetched)

def batchOf (receiptId : Text) (observations : List Json) : Json :=
  .object [(lit "receiptId", .text receiptId), (lit "observations", .array observations)]

/-- The batch, sorted by the identities of its observations as `localeCompare` orders them; the
order in which the probes come back does not matter. -/
def collectFixedProbeBatch (collates : Text → Text → Bool) (request : FixedProbeRequest)
    (fetched : Target → Fetched) :
    Option Json := do
  let collected ← fixedProbeTargets.mapM fun target => probe request target (fetched target)
  return batchOf (receiptPrefix ++ request.runId)
    (collected.insertionSort fun a b => collates (idOf a) (idOf b) = true)

/-! The acceptance of a file. -/

def reasons : List (Option Text) :=
  [none, some (lit "timeout"), some (lit "network"), some (lit "unexpected-status")]

/-- The start of a text that `none|[0-9]{3}` may match. -/
def statusAt (s : Text) : Text := if (lit "none").isPrefixOf s then lit "none" else s.take 3

/-- What the expression for the note of a target matches: a status and a reason. -/
def matchNote (target note : Text) : Option (Text × Option Text) :=
  if (noteStart target).isPrefixOf note then
    let rest := note.drop (noteStart target).length
    let status := statusAt rest
    if status = lit "none" ∨ (status.length = 3 ∧ status.all isDigit) then
      (reasons.find? fun reason => rest.drop status.length = reasonText reason ++ noteEnd).map
        fun reason =>
        (status, reason)
    else none
  else none

/-- `^collector:fixed-probe:([a-z0-9][a-z0-9-]{2,55})$`. -/
def runIdOf (receiptId : Text) : Option Text :=
  if receiptPrefix.isPrefixOf receiptId && isRunId (receiptId.drop receiptPrefix.length) then
    some (receiptId.drop receiptPrefix.length)
  else none

def evidenceProblem (target : Target) (observedAt : Text) (evidence : Json) : Option Text :=
  if evidence.textAt (lit "source") ≠ lit "collector:fixed-probe/v1" ∨
      evidence.textAt (lit "authority") ≠ lit "SYSTEM_DERIVED" ∨
        observedAtOf evidence ≠ observedAt ∨
      (matchNote target.id (evidence.textAt (lit "note"))).isNone then
    some (lit "fixed probe evidence mismatch: " ++ target.id)
  else none

def targetProblem (batch : Json) (runId observedAt : Text) (ttl : ℤ) (target : Target) :
    Option Text :=
  match (observationsOf batch).find? fun item => idOf item = observationId runId target.id with
  | none => some (lit "fixed probe target mismatch: " ++ target.id)
  | some observation =>
    if subjectIdOf observation ≠ target.subjectId ∨ checkOf observation ≠ target.check then
      some (lit "fixed probe target mismatch: " ++ target.id)
    else if observedAtOf observation ≠ observedAt ∨
        timeOf (expiresAtOf observation) - timeOf (observedAtOf observation) ≠ ttl then
      some (lit "fixed probe time mismatch: " ++ target.id)
    else
      match observation.itemsAt (lit "evidence") with
      | [evidence] => evidenceProblem target observedAt evidence
      | _ => some (lit "fixed probe evidence count mismatch: " ++ target.id)

def fixedBatchProblem (batch : Json) : Option Text :=
  match runIdOf (receiptIdOf batch), observationsOf batch with
  | none, _ => some (lit "fixed probe receipt identity required")
  | some runId, first :: rest =>
    let observedAt := observedAtOf first
    let ttl := timeOf (expiresAtOf first) - timeOf observedAt
    if (first :: rest).length ≠ fixedProbeTargets.length
      then some (lit "fixed probe target count required")
    else if observedAt = [] then some (lit "fixed probe observation time required")
    else if ttl < 60000 ∨ 3600000 < ttl ∨ ttl % 1000 ≠ 0
      then some (lit "fixed probe TTL range required")
    else fixedProbeTargets.findSome? (targetProblem batch runId observedAt ttl)
  | some _, [] => some (lit "fixed probe target count required")

/-- The document of a file. -/
def documentOf (bytes : List ℕ) : Option Json := (JsJson.decodeBytes bytes).bind JsJson.parse

def parseFixedProbeBatchBytes (bytes : List ℕ) : Except Text Json :=
  if bytes.length = 0 ∨ 524288 < bytes.length
    then .error (lit "invalid fixed probe batch file size")
  else
    match documentOf bytes with
    | none => .error (lit "invalid fixed probe batch JSON")
    | some batch =>
      if isObservationBatch batch then
        match fixedBatchProblem batch with
        | some problem => .error problem
        | none => .ok batch
      else .error (lit "invalid fixed probe batch contract")

/-- Some request and some fetches collect a batch, up to the order of its observations. -/
def Collectable (collates : Text → Text → Bool) (batch : Json) : Prop :=
  ∃ (request : FixedProbeRequest) (fetched : Target → Fetched) (collected : Json)
    (observations : List Json),
    collectFixedProbeBatch collates request fetched = some collected ∧
      observations.Perm (observationsOf collected) ∧
        Same batch (batchOf (receiptIdOf collected) observations)

/-! Which files say what a collector says. -/

def noteOf (observation : Json) : Text :=
  ((observation.itemsAt (lit "evidence")).headD .null).textAt (lit "note")

/-- An outcome, a status and a reason that a probe gives together. -/
def Agrees (outcome status : Text) (reason : Option Text) : Prop :=
  (outcome = lit "reachable" ∧ status = lit "200" ∧ reason = none) ∨
  (outcome = lit "failed" ∧ status = lit "none" ∧
    (reason = some (lit "timeout") ∨ reason = some (lit "network"))) ∨
  (outcome = lit "failed" ∧ status ≠ lit "none" ∧ status ≠ lit "200" ∧ status.head? ≠ some 48 ∧
    reason = some (lit "unexpected-status"))

/-- Times are written as `toISOString` writes them, and outcomes agree with the notes. -/
structure Consistent (batch : Json) : Prop where
  times : ∀ o ∈ observationsOf batch, isIsoTime (observedAtOf o) = true ∧
    isIsoTime (expiresAtOf o) = true
  outcomes : ∀ o ∈ observationsOf batch, ∀ target ∈ fixedProbeTargets, ∀ status reason,
    matchNote target.id (noteOf o) = some (status, reason) → Agrees (outcomeOf o) status reason

end Metahumotonic.Platform
