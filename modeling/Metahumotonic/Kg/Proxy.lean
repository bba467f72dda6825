import Metahumotonic.Library.Failover
import Metahumotonic.Library.PyString

/-! The proxy for raw Cypher (`KGClient.run_cypher` of `app/kg.py`, and the write route of
`app/routers/kg_proxy.py`). A call tries the configured endpoints in order, and any error
but one of the database itself sends it on to the next. -/
namespace Metahumotonic.Kg.Proxy

open Library

structure Settings where
  neo4jUri : String
  neo4jFallbackUris : String
  kgProxyMaxRows : Int
  kgWriteKey : String

def strip (text : List Char) : String := String.ofList (pyStrip text)

/-- `KGClient._configured_uris`. -/
def configuredUris (s : Settings) : List String :=
  let fallbacks := ((s.neo4jFallbackUris.toList.splitOn ',').map strip).filter (· ≠ "")
  (s.neo4jUri :: fallbacks).foldl
    (fun deduped uri => if uri ≠ "" ∧ uri ∉ deduped then deduped ++ [uri] else deduped) []

/-- The drivers by their URI, in the order in which they were made, and the one made last. -/
structure Client where
  drivers : List String
  driver : Option String
  deriving DecidableEq, Repr

/-- How an attempt at one endpoint ends. -/
inductive Attempt (Row : Type*) where
  /-- Committed, and answered in time. -/
  | answered (rows : List Row)
  /-- Committed, and answered by a connection error or a timeout. -/
  | lost (error : String)
  /-- Not committed, with a connection error or a timeout. -/
  | unreached (error : String)
  /-- A `Neo4jError`, with nothing committed. -/
  | refused (message : String)

inductive Failure where
  | neo4jError (message : String)
  | kgUnavailable (reason : String)
  deriving DecidableEq, Repr

section Program

variable {Row : Type*} (opens : String → Bool) (attempt : String → Attempt Row)

def getDriver (uri : String) (client : Client) : Bool × Client :=
  if uri ∈ client.drivers then (true, client)
  else if opens uri then (true, ⟨client.drivers ++ [uri], some uri⟩)
  else (false, client)

def dropDriver (uri : String) (client : Client) : Client :=
  if uri ∈ client.drivers then
    let kept := client.drivers.erase uri
    ⟨kept, if client.driver = some uri then kept.head? else client.driver⟩
  else client

/-- `rows[:count]`. -/
def firstRows (count : Int) (rows : List Row) : List Row :=
  if 0 ≤ count then rows.take count.toNat else rows.take (rows.length + count).toNat

/-- The loop of a call: its result, the endpoints at which the statement was committed, and the
client that is left. -/
def tryUris (maxRows : Int) (write : Bool) :
    List String → Option String → Client → Except Failure (List Row) × List String × Client
  | [], lastError, client =>
    (.error (.kgUnavailable (lastError.getD "no KG URI reachable")), [], client)
  | uri :: rest, lastError, client =>
    match getDriver opens uri client with
    | (false, client) => tryUris maxRows write rest lastError client
    | (true, client) =>
      let committed := if write then [uri] else []
      match attempt uri with
      | .answered rows => (.ok (firstRows maxRows rows), committed, client)
      | .refused message => (.error (.neo4jError message), [], client)
      | .lost error =>
        let (result, later, client) :=
          tryUris maxRows write rest (some error) (dropDriver uri client)
        (result, committed ++ later, client)
      | .unreached error => tryUris maxRows write rest (some error) (dropDriver uri client)

def runCypher (s : Settings) (write : Bool) (client : Client) :
    Except Failure (List Row) × List String × Client :=
  tryUris opens attempt s.kgProxyMaxRows write (configuredUris s) none client

structure CypherResponse (Row : Type*) where
  rows : List Row
  count : Nat
  mode : String
  truncated : Bool

structure HttpException where
  statusCode : Nat
  detail : String
  deriving DecidableEq, Repr

/-- What a route raises: an answer of its own, or a `TypeError`. -/
inductive Raised where
  | http (answer : HttpException)
  | typeError
  deriving DecidableEq, Repr

def ascii (text : String) : Bool := text.toList.all fun c => c.toNat < 128

/-- `secrets.compare_digest` of two strings. -/
def compareDigest (a b : String) : Except Raised Bool :=
  if ascii a && ascii b then .ok (a == b) else .error .typeError

/-- `_authorize` with one accepted key. -/
def authorize (provided : Option String) (accepted : String) : Except Raised Unit :=
  if accepted = "" then .error (.http ⟨503, "kg proxy disabled (no key set)"⟩)
  else
    match compareDigest (provided.getD "") accepted with
    | .ok true => .ok ()
    | .ok false => .error (.http ⟨401, "invalid or missing X-API-Key"⟩)
    | .error crash => .error crash

/-- `_execute` for a write. -/
def execute (s : Settings) (client : Client) :
    Except HttpException (CypherResponse Row) × List String × Client :=
  match runCypher opens attempt s true client with
  | (.ok rows, commits, client) =>
    (.ok ⟨rows, rows.length, "write", s.kgProxyMaxRows ≤ rows.length⟩, commits, client)
  | (.error (.kgUnavailable reason), commits, client) =>
    (.error ⟨502, "KG unreachable: " ++ reason⟩, commits, client)
  | (.error (.neo4jError message), commits, client) => (.error ⟨400, message⟩, commits, client)

/-- `POST /api/kg/write`. -/
def kgWrite (s : Settings) (xApiKey : Option String) (client : Client) :
    Except Raised (CypherResponse Row) × List String × Client :=
  match authorize xApiKey s.kgWriteKey with
  | .error refusal => (.error refusal, [], client)
  | .ok _ =>
    let (result, commits, client) := execute opens attempt s client
    (result.mapError .http, commits, client)

end Program

/-! What a write does at the endpoints that it can reach. -/

section Writes

variable {Row : Type*} {opens : String → Bool} {attempt : String → Attempt Row}

/-- The configured endpoints for which there is a driver, or a driver can be made. -/
def reachable (opens : String → Bool) (s : Settings) (client : Client) : List String :=
  (configuredUris s).filter fun uri => uri ∈ client.drivers || opens uri

def Attempt.committed : Attempt Row → Bool
  | .answered _ | .lost _ => true
  | .unreached _ | .refused _ => false

/-- The attempt ends the call. -/
def Attempt.settles : Attempt Row → Bool
  | .answered _ | .refused _ => true
  | .lost _ | .unreached _ => false

/-- No endpoint that committed without an answer is followed by one that commits, unless
the call ended before. -/
def NoCommitAfterLost (opens : String → Bool) (attempt : String → Attempt Row) (s : Settings)
    (client : Client) : Prop :=
  ∀ before u middle v after, reachable opens s client = before ++ u :: (middle ++ v :: after) →
    (∃ error, attempt u = .lost error) → (attempt v).committed = true →
    ∃ w ∈ before ++ middle, (attempt w).settles = true

/-- The statement was committed at most once, and once if rows were returned. -/
def AppliedOnce (outcome : Except Failure (List Row) × List String × Client) : Prop :=
  outcome.2.1.length ≤ 1 ∧ ∀ rows, outcome.1 = .ok rows → outcome.2.1.length = 1

def turn (maxRows : Int) (attempt : String → Attempt Row) (uri : String) : Failover.Turn
    (Except Failure (List Row)) :=
  match attempt uri with
  | .answered rows => ⟨true, some (.ok (firstRows maxRows rows))⟩
  | .lost _ => ⟨true, none⟩
  | .unreached _ => ⟨false, none⟩
  | .refused message => ⟨false, some (.error (.neo4jError message))⟩

theorem configuredUris_nodup (s : Settings) : (configuredUris s).Nodup := by
  have step : ∀ (uris deduped : List String), deduped.Nodup → (uris.foldl
      (fun deduped uri => if uri ≠ "" ∧ uri ∉ deduped then deduped ++ [uri] else deduped)
        deduped).Nodup := by
    intro uris
    induction uris with
    | nil => exact fun deduped nodup => nodup
    | cons uri rest ih =>
      intro deduped nodup
      apply ih
      beta_reduce
      split
      · rename_i new
        exact List.Nodup.append nodup (List.nodup_singleton uri) (by simpa using new.2)
      · exact nodup
  exact step _ [] List.nodup_nil

theorem getDriver_true {uri : String} {client after : Client}
    (got : getDriver opens uri client = (true, after)) :
    (uri ∈ client.drivers || opens uri) = true ∧
      ∀ other, other ≠ uri → (other ∈ after.drivers ↔ other ∈ client.drivers) := by
  unfold getDriver at got
  split at got
  · rename_i there
    cases got
    exact ⟨by simp [there], fun _ _ => Iff.rfl⟩
  · split at got
    · rename_i open_
      cases got
      exact ⟨by simp [open_], fun other apart => by simp [apart]⟩
    · cases got

theorem getDriver_false {uri : String} {client after : Client}
    (got : getDriver opens uri client = (false, after)) :
    (uri ∈ client.drivers || opens uri) = false ∧ after = client := by
  unfold getDriver at got
  split at got
  · cases got
  · rename_i absent
    split at got
    · cases got
    · rename_i closed
      cases got
      exact ⟨by simpa [absent] using closed, rfl⟩

theorem mem_dropDriver {uri other : String} (client : Client) (apart : other ≠ uri) :
    other ∈ (dropDriver uri client).drivers ↔ other ∈ client.drivers := by
  unfold dropDriver
  split
  · exact List.mem_erase_of_ne apart
  · exact Iff.rfl

/-- A write is a failover call on the endpoints that can be reached: what happens to the driver
of one endpoint does not touch the others. -/
theorem tryUris_call {maxRows : Int} {drivers : List String} {uris : List String}
    (distinct : uris.Nodup)
    (lastError : Option String) (client : Client)
    (same : ∀ uri ∈ uris, (uri ∈ client.drivers ↔ uri ∈ drivers)) :
    let outcome := tryUris opens attempt maxRows true uris lastError client
    let called := Failover.call (turn maxRows attempt)
      (uris.filter fun uri => uri ∈ drivers || opens uri)
    outcome.2.1 = called.2 ∧ ∀ rows, outcome.1 = .ok rows ↔ called.1 = some (.ok rows) := by
  induction uris generalizing lastError client with
  | nil => exact ⟨rfl, fun rows => by simp [tryUris, Failover.call]⟩
  | cons uri rest ih =>
    obtain ⟨absent, distinct⟩ := List.nodup_cons.mp distinct
    have others : ∀ after :
        Client, (∀ other, other ≠ uri → (other ∈ after.drivers ↔ other ∈ client.drivers)) →
        ∀ other ∈ rest, (other ∈ after.drivers ↔ other ∈ drivers) := by
      intro after kept other member
      have apart : other ≠ uri := by
        rintro rfl
        exact absent member
      rw [kept other apart, same other (List.mem_cons_of_mem _ member)]
    rcases got : getDriver opens uri client with ⟨_ | _, after⟩
    · obtain ⟨closed, rfl⟩ := getDriver_false got
      have skip : (decide (uri ∈ drivers) || opens uri) = false := by
        rwa [← decide_eq_decide.mpr (same uri List.mem_cons_self)]
      simp only [tryUris, got, List.filter_cons, skip, Bool.false_eq_true, if_false]
      exact ih distinct lastError after (others after fun _ _ => Iff.rfl)
    · obtain ⟨there, kept⟩ := getDriver_true got
      have reach : (decide (uri ∈ drivers) || opens uri) = true := by
        rwa [← decide_eq_decide.mpr (same uri List.mem_cons_self)]
      have dropped : ∀ other ∈ rest,
          (other ∈ (dropDriver uri after).drivers ↔ other ∈ drivers) := by
        apply others
        intro other apart
        rw [mem_dropDriver after apart, kept other apart]
      rcases ended : attempt uri with rows | error | error | message
      · simp [tryUris, got, reach, Failover.call, turn, ended]
      · obtain ⟨commits, answers⟩ := ih distinct (some error) _ dropped
        simp only [tryUris, got, List.filter_cons, reach, if_true, Failover.call, turn, ended]
        exact ⟨by rw [commits], answers⟩
      · obtain ⟨commits, answers⟩ := ih distinct (some error) _ dropped
        simp only [tryUris, got, List.filter_cons, reach, if_true, Failover.call, turn, ended]
        exact ⟨commits, answers⟩
      · simp [tryUris, got, reach, Failover.call, turn, ended]

theorem runCypher_call (opens : String → Bool) (attempt : String → Attempt Row) (s : Settings)
    (client : Client) :
    (runCypher opens attempt s true client).2.1 =
        (Failover.call (turn s.kgProxyMaxRows attempt) (reachable opens s client)).2 ∧
      ∀ rows, (runCypher opens attempt s true client).1 = .ok rows ↔
        (Failover.call (turn s.kgProxyMaxRows attempt) (reachable opens s client)).1 =
          some (.ok rows) :=
  tryUris_call (configuredUris_nodup s) none client fun _ _ => Iff.rfl

theorem turn_committed (maxRows : Int) (uri : String) :
    (turn maxRows attempt uri).committed = (attempt uri).committed := by
  unfold turn
  cases attempt uri <;> rfl

theorem turn_settles (maxRows : Int) (uri : String) :
    (turn maxRows attempt uri).answer.isSome = (attempt uri).settles := by
  unfold turn
  cases attempt uri <;> rfl

theorem sparing_iff {s : Settings} {client : Client} :
    Failover.Sparing (turn s.kgProxyMaxRows attempt) (reachable opens s client) ↔
      NoCommitAfterLost opens attempt s client := by
  simp only [Failover.Sparing, NoCommitAfterLost, turn_committed, turn_settles]
  constructor
  · rintro sparing before u middle v after split ⟨error, lost⟩ second
    obtain ⟨w, member, settles⟩ := sparing before u middle v after split (by rw [lost]; rfl) second
    rcases List.mem_append.mp member with there | there
    · exact ⟨w, List.mem_append_left _ there, settles⟩
    · rcases List.mem_cons.mp there with rfl | there
      · rw [lost] at settles
        cases settles
      · exact ⟨w, List.mem_append_right _ there, settles⟩
  · intro sparing before u middle v after split first second
    cases ended : attempt u with
    | answered rows => exact ⟨u, List.mem_append_right _ List.mem_cons_self, by rw [ended]; rfl⟩
    | lost error =>
      obtain ⟨w, member, settles⟩ := sparing before u middle v after split ⟨error, ended⟩ second
      refine ⟨w, ?_, settles⟩
      rcases List.mem_append.mp member with there | there
      · exact List.mem_append_left _ there
      · exact List.mem_append_right _ (List.mem_cons_of_mem _ there)
    | unreached error => rw [ended] at first; cases first
    | refused message => rw [ended] at first; cases first

/-- Rows come from an endpoint that committed. -/
theorem rows_committed {s : Settings} {client : Client} {rows : List Row}
    (returned : (runCypher opens attempt s true client).1 = .ok rows) :
    (runCypher opens attempt s true client).2.1 ≠ [] := by
  obtain ⟨commits, answers⟩ := runCypher_call opens attempt s client
  obtain ⟨u, _, answer, effect⟩ := Failover.answered ((answers rows).mp returned)
  rw [commits]
  apply effect
  unfold turn at answer ⊢
  split at answer
  · rfl
  · cases answer
  · cases answer
  · cases answer

theorem appliedOnce_iff {s : Settings} {client : Client} :
    AppliedOnce (runCypher opens attempt s true client) ↔
      (runCypher opens attempt s true client).2.1.length ≤ 1 := by
  constructor
  · exact And.left
  · intro once
    refine ⟨once, fun rows returned => ?_⟩
    have some_ := List.length_pos_iff.mpr (rows_committed returned)
    omega

/-- A write is applied at most once exactly if no endpoint commits after one whose answer was lost.
-/
theorem write_applied_once_iff (opens : String → Bool) (attempt : String → Attempt Row)
    (s : Settings) (client : Client) :
    AppliedOnce (runCypher opens attempt s true client) ↔
      NoCommitAfterLost opens attempt s client := by
  rw [appliedOnce_iff, (runCypher_call opens attempt s client).1, Failover.once_iff_sparing,
    sparing_iff]

/-- Two endpoints of one database. The first commits and answers too late, and the second is
asked again. -/
theorem write_may_be_applied_twice :
    ¬ AppliedOnce (runCypher (fun _ => true)
      (fun uri => if uri = "bolt://a" then Attempt.lost "timed out" else .answered [1])
      ⟨"bolt://a", "bolt://b", 1000, "key"⟩ true ⟨[], none⟩) := by
  rw [appliedOnce_iff]
  decide

theorem authorize_ok {provided : Option String} {accepted : String} :
    authorize provided accepted = .ok () ↔
    accepted ≠ "" ∧ provided.getD "" = accepted ∧ ascii accepted = true := by
  unfold authorize compareDigest
  by_cases unset : accepted = ""
  · simp [unset]
  · by_cases given : provided.getD "" = accepted
    · cases plain : ascii accepted <;> simp [unset, given, plain]
    · have differs : (provided.getD "" == accepted) = false := beq_eq_false_iff_ne.mpr given
      cases plain : ascii (provided.getD "") && ascii accepted <;> simp [unset, given, differs]

/-- The route commits nothing for a caller without the key, and what the call commits otherwise. A
key that is not ASCII lets nobody through. -/
theorem kgWrite_commits (s : Settings) (xApiKey : Option String) (client : Client) :
    (kgWrite opens attempt s xApiKey client).2.1 =
      if s.kgWriteKey ≠ "" ∧ xApiKey.getD "" = s.kgWriteKey ∧ ascii s.kgWriteKey = true then
        (runCypher opens attempt s true client).2.1 else [] := by
  have admits : authorize xApiKey s.kgWriteKey = .ok () ↔ _ := authorize_ok
  unfold kgWrite
  cases passed : authorize xApiKey s.kgWriteKey with
  | error refusal =>
    rw [passed] at admits
    rw [if_neg fun known => nomatch admits.mpr known]
  | ok passed_ =>
    rw [if_pos (admits.mp passed)]
    dsimp only
    rw [execute]
    rcases runCypher opens attempt s true client with ⟨_ | _, commits, after⟩
    · rename_i failure
      cases failure <;> rfl
    · rfl

end Writes

end Metahumotonic.Kg.Proxy
