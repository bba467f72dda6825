import Metahumotonic.Kg.WriteIntent
import Mathlib.Data.Nat.Find

/-! The write port (`KgWritePortLive.apply` of `ts/src/ports/KgWritePort.ts`). Every
statement of a batch is sent in a call of its own, and a call is one transaction
(`execute` of `ts/src/ports/KgPort.ts`): it commits, or fails with no effect. -/
namespace Metahumotonic.Kg

open Library

inductive KgError where
  | kgQueryFailed (reason : String)
  | unavailable (reason : String)
  deriving DecidableEq, Repr

inductive WriteError where
  | badRequest (reason : String)
  | kg (error : KgError)
  deriving DecidableEq, Repr

abbrev CypherRow := List (String × Param)

/-- The database, over any type of graphs: what a committed write returns and leaves, and
what a read returns. -/
structure Database (G : Type u) where
  write : String → Params → G → List CypherRow × G
  read : String → Params → G → List CypherRow

/-- The graph, and how many calls were made so far. -/
structure World (G : Type u) where
  graph : G
  calls : Nat
  deriving DecidableEq, Repr

inductive Mode where
  | read
  | write
  deriving DecidableEq, Repr

section Program

variable {G : Type u}

/-- One call: `fate` says which calls fail, and how. -/
def run (db : Database G) (fate : Nat → Option KgError) (w : World G) (cypher : String)
    (params : Params) :
    Mode → Except KgError (List CypherRow) × World G
  | .write =>
    match fate w.calls with
    | some error => (.error error, { w with calls := w.calls + 1 })
    | none =>
      let (rows, graph) := db.write cypher params w.graph
      (.ok rows, ⟨graph, w.calls + 1⟩)
  | .read =>
    match fate w.calls with
    | some error => (.error error, { w with calls := w.calls + 1 })
    | none => (.ok (db.read cypher params w.graph), { w with calls := w.calls + 1 })

/-- The statements are sent one after the other, up to the first that fails. -/
def execute (db : Database G) (fate : Nat → Option KgError) :
    List Statement → World G → Except KgError Unit × World G
  | [], w => (.ok (), w)
  | s :: rest, w =>
    match run db fate w s.cypher s.params .write with
    | (.error error, w) => (.error error, w)
    | (.ok _, w) => execute db fate rest w

def readbackCypher : String :=
  "\nUNWIND $names AS n\nMATCH (x \x7bname: n\x7d)\nRETURN collect(DISTINCT x.name) AS found\n"

/-- The names that a readback returned. -/
def foundNames (rows : List CypherRow) : List String :=
  match rows.head?.bind (·.lookup "found") with
  | some (.texts names) => names
  | _ => []

/-- The nodes that a batch must leave, each once. -/
def expectedNodes (statements : List Statement) : List String :=
  (statements.flatMap (·.expectNodes)).eraseDups

def refusal (planned : List PlannedWrite) : String :=
  let inadmissible := planned.filter (!·.admissible)
  "refused " ++ toString inadmissible.length ++ "/" ++ toString planned.length ++
    " statement(s): " ++
    String.intercalate "; " (inadmissible.map fun p => p.target ++ " — " ++ p.refusedBecause)

def receipt (batch : WriteBatch) (planned : List PlannedWrite) (expected found : List String) :
    WriteReceipt :=
  let missing := jsSort (expected.filter (· ∉ found))
  { runId := batch.provenance.runId
    dryRun := false
    planned := planned
    readback := jsSort found
    missing := missing
    committed := missing.length == 0 }

def statementsOf (batch : WriteBatch) (nowIso : String) : List Statement :=
  batch.intents.map fun intent => plan intent batch.provenance nowIso

/-- Plan, check, execute and read back. -/
def apply (db : Database G) (guard : SchemaGuard) (fate : Nat → Option KgError) (batch : WriteBatch)
    (nowIso : String) (w : World G) : Except WriteError WriteReceipt × World G :=
  let statements := statementsOf batch nowIso
  let planned := statements.map (preflight guard)
  if 0 < (planned.filter (!·.admissible)).length then (.error (.badRequest (refusal planned)), w)
  else if batch.dryRun then
    (.ok { runId := batch.provenance.runId, dryRun := true, planned := planned, readback := [],
           missing := [], committed := false }, w)
  else
    match execute db fate statements w with
    | (.error error, w) => (.error (.kg error), w)
    | (.ok _, w) =>
      let expected := expectedNodes statements
      if expected.length = 0 then (.ok (receipt batch planned expected []), w)
      else
        match run db fate w readbackCypher [("names", .texts expected)] .read with
        | (.error error, w) => (.error (.kg error), w)
        | (.ok rows, w) => (.ok (receipt batch planned expected (foundNames rows)), w)

end Program

section Atomicity

variable {G : Type u} {guard : SchemaGuard} {fate : Nat → Option KgError}

/-- What the statements do when all are committed. -/
def committed (db : Database G) (statements : List Statement) (graph : G) : G :=
  statements.foldl (fun graph s => (db.write s.cypher s.params graph).2) graph

/-- The preflight refuses a statement of the batch. -/
def Refused (guard : SchemaGuard) (statements : List Statement) : Prop :=
  ∃ s ∈ statements, (preflight guard s).admissible = false

/-- The calls that a batch makes when none fails: its statements, and the readback. -/
def callCount (statements : List Statement) : Nat :=
  statements.length + if (expectedNodes statements).length = 0 then 0 else 1

/-- A batch fails without effect, or succeeds with all its statements committed. -/
def AllOrNothing (db : Database G) (guard : SchemaGuard) (fate : Nat → Option KgError)
    (batch : WriteBatch)
    (nowIso : String) (graph : G) : Prop :=
  match apply db guard fate batch nowIso ⟨graph, 0⟩ with
  | (.error _, w) => w.graph = graph
  | (.ok _, w) => w.graph = committed db (statementsOf batch nowIso) graph

/-- The preflight refuses the batch, or the statements before the first call that fails,
if one fails, change nothing in this graph. -/
def Harmless (db : Database G) (guard : SchemaGuard) (fate : Nat → Option KgError)
    (batch : WriteBatch)
    (nowIso : String) (graph : G) : Prop :=
  Refused guard (statementsOf batch nowIso) ∨
    ∀ k < callCount (statementsOf batch nowIso), (∀ j < k, fate j = none) → fate k ≠ none →
      committed db ((statementsOf batch nowIso).take k) graph = graph

/-- Without a failure every statement is committed. -/
theorem execute_ok (db : Database G) (statements : List Statement) (graph : G) (calls : Nat)
    (fine : ∀ j < statements.length, fate (calls + j) = none) :
    execute db fate statements ⟨graph, calls⟩ =
      (.ok (), ⟨committed db statements graph, calls + statements.length⟩) := by
  induction statements generalizing graph calls with
  | nil => rfl
  | cons s rest ih =>
    have first : fate calls = none := fine 0 (Nat.succ_pos _)
    have later : ∀ j < rest.length, fate (calls + 1 + j) = none := by
      intro j below
      rw [Nat.add_assoc, Nat.add_comm 1 j]
      exact fine (j + 1) (Nat.succ_lt_succ below)
    simp only [execute, run, first]
    rw [ih _ _ later, List.length_cons, Nat.add_assoc, Nat.add_comm 1]
    rfl

/-- Up to the first failure every statement is committed, and stays so. -/
theorem execute_error (db : Database G) (statements : List Statement) (graph : G) (calls k : Nat)
    (error : KgError) (below : k < statements.length) (fine : ∀ j < k, fate (calls + j) = none)
    (fails : fate (calls + k) = some error) :
    execute db fate statements ⟨graph, calls⟩ =
      (.error error, ⟨committed db (statements.take k) graph, calls + k + 1⟩) := by
  induction statements generalizing graph calls k with
  | nil => cases below
  | cons s rest ih =>
    cases k with
    | zero =>
      rw [Nat.add_zero] at fails
      simp only [execute, run, fails]
      rfl
    | succ k =>
      have first : fate calls = none := fine 0 (Nat.succ_pos _)
      have shift : ∀ j, calls + 1 + j = calls + (j + 1) := by omega
      simp only [execute, run, first]
      rw [ih _ (calls + 1) k (Nat.lt_of_succ_lt_succ below)
        (fun j smaller => shift j ▸ fine (j + 1) (Nat.succ_lt_succ smaller))
        (shift k ▸ fails), shift]
      rfl

theorem refused_iff (guard : SchemaGuard) (statements : List Statement) :
    0 < ((statements.map (preflight guard)).filter (!·.admissible)).length ↔
      Refused guard statements := by
  simp only [List.length_pos_iff_exists_mem, List.mem_filter, List.mem_map,
    Bool.not_eq_true', Refused]
  constructor
  · rintro ⟨_, ⟨s, member, rfl⟩, bad⟩
    exact ⟨s, member, bad⟩
  · rintro ⟨s, member, bad⟩
    exact ⟨_, ⟨s, member, rfl⟩, bad⟩

section Admitted

variable {batch : WriteBatch} {nowIso : String}

/-- A batch of which no call fails is committed. -/
theorem apply_ok (db : Database G) (graph : G) (real : batch.dryRun = false)
    (admitted : ¬ Refused guard (statementsOf batch nowIso))
    (fine : ∀ j < callCount (statementsOf batch nowIso), fate j = none) :
    ∃ receipt calls, apply db guard fate batch nowIso ⟨graph, 0⟩ =
      (.ok receipt, ⟨committed db (statementsOf batch nowIso) graph, calls⟩) := by
  have writes : ∀ j < (statementsOf batch nowIso).length, fate (0 + j) = none := by
    intro j below
    rw [Nat.zero_add]
    exact fine j (below.trans_le (Nat.le_add_right _ _))
  have sent := execute_ok db (statementsOf batch nowIso) graph 0 writes
  rw [← refused_iff] at admitted
  simp only [apply, if_neg admitted, real, Bool.false_eq_true, if_false, sent]
  split
  · exact ⟨_, _, rfl⟩
  · rename_i some_
    have last : fate (0 + (statementsOf batch nowIso).length) = none := by
      rw [Nat.zero_add]
      refine fine _ ?_
      rw [callCount, if_neg some_]
      exact Nat.lt_succ_self _
    simp only [run, last]
    exact ⟨_, _, rfl⟩

/-- A batch of which a call fails leaves what was committed before that call. -/
theorem apply_error (db : Database G) (graph : G) (real : batch.dryRun = false)
    (admitted : ¬ Refused guard (statementsOf batch nowIso))
    {k : Nat} (below : k < callCount (statementsOf batch nowIso)) (fine : ∀ j < k, fate j = none)
    (fails : fate k ≠ none) :
    ∃ error calls, apply db guard fate batch nowIso ⟨graph, 0⟩ =
      (.error error, ⟨committed db ((statementsOf batch nowIso).take k) graph, calls⟩) := by
  obtain ⟨why, failed⟩ := Option.ne_none_iff_exists'.mp fails
  rw [← refused_iff] at admitted
  have fine' : ∀ j < k, fate (0 + j) = none := fun j smaller =>
    (Nat.zero_add j).symm ▸ fine j smaller
  by_cases writes : k < (statementsOf batch nowIso).length
  · have sent := execute_error db (statementsOf batch nowIso) graph 0 k why writes fine'
      ((Nat.zero_add k).symm ▸ failed)
    simp only [apply, if_neg admitted, real, Bool.false_eq_true, if_false, sent]
    exact ⟨_, _, rfl⟩
  · have some_ : (expectedNodes (statementsOf batch nowIso)).length ≠ 0 := by
      intro none_
      rw [callCount, if_pos none_] at below
      exact writes below
    rw [callCount, if_neg some_] at below
    have last : k = (statementsOf batch nowIso).length := by omega
    subst last
    have sent := execute_ok db (statementsOf batch nowIso) graph 0 fine'
    rw [Nat.zero_add] at sent
    rw [List.take_length]
    simp only [apply, if_neg admitted, real, Bool.false_eq_true, if_false, sent, if_neg some_,
      run, failed]
    exact ⟨_, _, rfl⟩

end Admitted

/-- A batch is all or nothing exactly if its failure is harmless. -/
theorem all_or_nothing_iff (db : Database G) (guard : SchemaGuard) (fate : Nat → Option KgError)
    (batch : WriteBatch) (real : batch.dryRun = false) (nowIso : String) (graph : G) :
    AllOrNothing db guard fate batch nowIso graph ↔ Harmless db guard fate batch nowIso graph := by
  by_cases refused : Refused guard (statementsOf batch nowIso)
  · refine iff_of_true ?_ (.inl refused)
    have bad := (refused_iff guard _).mpr refused
    simp only [AllOrNothing, apply, if_pos bad]
  · by_cases some_ : ∃ k, k < callCount (statementsOf batch nowIso) ∧ fate k ≠ none
    · have first := Nat.find_spec some_
      have fine : ∀ j < Nat.find some_, fate j = none := by
        intro j smaller
        by_contra fails
        exact Nat.find_min some_ smaller ⟨smaller.trans first.1, fails⟩
      obtain ⟨error, calls, ended⟩ := apply_error db graph real refused first.1 fine first.2
      simp only [AllOrNothing, ended]
      constructor
      · intro unchanged
        refine .inr fun k below before fails => ?_
        have same : k = Nat.find some_ := by
          refine Nat.le_antisymm (Nat.le_of_not_lt fun later => first.2 (before _ later)) ?_
          exact Nat.find_min' some_ ⟨below, fails⟩
        rw [same]
        exact unchanged
      · intro harmless
        exact (harmless.resolve_left refused) _ first.1 fine first.2
    · have fine : ∀ j < callCount (statementsOf batch nowIso), fate j = none := by
        intro j below
        by_contra fails
        exact some_ ⟨j, below, fails⟩
      obtain ⟨receipt, calls, ended⟩ := apply_ok db graph real refused fine
      simp only [AllOrNothing, ended, true_iff]
      exact .inr fun k below _ fails => absurd (fine k below) fails

end Atomicity

section Sample

/-- Nodes by name, with their properties. -/
abbrev SampleGraph := List (String × List (String × Scalar))

/-- What the statement of a lesson does: the node is found by its name or added, and the
properties are set over those that it has. -/
def sampleWrite (_ : String) (params : Params) (graph : SampleGraph) :
    List CypherRow × SampleGraph :=
  match params with
  | [("name", .scalar (.text name)), ("props", .props props)] =>
    ([[("name", .scalar (.text name))]],
      if graph.any (·.1 == name) then
        graph.map fun node =>
          if node.1 = name then
            (name, node.2.filter (fun old => !props.any (·.1 == old.1)) ++ props)
          else node
      else graph ++ [(name, props)])
  | _ => ([], graph)

def sampleRead (_ : String) (params : Params) (graph : SampleGraph) : List CypherRow :=
  match params with
  | [("names", .texts names)] =>
    [[("found", .texts (names.filter fun name => graph.any (·.1 == name)))]]
  | _ => []

def sampleDatabase : Database SampleGraph := ⟨sampleWrite, sampleRead⟩

def sampleGuard : SchemaGuard := .make ["Lesson"] ["HAS_FINDING"]

def sampleLesson (name : String) : WriteIntent :=
  .recordLesson
    { name := name, wrongAssumption := "sorted", truth := "unsorted", lakatosMechanism :=
      .proofAnalysis
      citation := .noExternalSource "measured on the live graph" }

def sampleBatch : WriteBatch :=
  { dryRun := false, provenance := { actor := "agent", runId := "run-1" }
    intents := [sampleLesson "lesson-1", sampleLesson "lesson-2"] }

/-- The first statement fails, and nothing is left. -/
theorem all_or_nothing_sample :
    AllOrNothing sampleDatabase sampleGuard
      (fun call => if call = 0 then some (.kgQueryFailed "down") else none) sampleBatch
      "2026-01-01T00:00:00.000Z" [] := by
  refine (all_or_nothing_iff sampleDatabase sampleGuard _ sampleBatch rfl _ []).mpr (.inr ?_)
  intro k _ _ fails
  have first : k = 0 := by
    by_contra later
    exact fails (if_neg later)
  subst first
  rfl

/-- The second statement fails, and the first one stays. -/
theorem batch_may_be_partial : sampleBatch.dryRun = false ∧
    ¬ AllOrNothing sampleDatabase sampleGuard
      (fun call => if call = 1 then some (.kgQueryFailed "down") else none) sampleBatch
      "2026-01-01T00:00:00.000Z" [] := by
  refine ⟨rfl, fun whole => ?_⟩
  have left : (apply sampleDatabase sampleGuard
      (fun call => if call = 1 then some (.kgQueryFailed "down") else none) sampleBatch
      "2026-01-01T00:00:00.000Z" ⟨[], 0⟩) =
        (.error (.kg (.kgQueryFailed "down")), ⟨committed sampleDatabase
          ((statementsOf sampleBatch "2026-01-01T00:00:00.000Z").take 1) [], 2⟩) := by
    decide
  rw [AllOrNothing, left] at whole
  exact absurd whole (by decide)

end Sample

end Metahumotonic.Kg
