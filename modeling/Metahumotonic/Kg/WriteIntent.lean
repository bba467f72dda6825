import Metahumotonic.Library.JsString

/-! What an agent may write to the knowledge graph (`ts/src/domain/WriteIntent.ts`), the
statement that each intent is planned as (`ts/src/ports/KgWritePort.ts`), and the registry
that is asked first (`ts/src/ports/SchemaGuard.ts`). -/
namespace Metahumotonic.Kg

open Library

inductive CitationEvidence where
  | url (citationUrl : String)
  | noExternalSource (noExternalCitationReason : String)
  deriving DecidableEq, Repr

inductive LakatosMechanism where
  | monsterBarring
  | exceptionBarring
  | conceptStretching
  | lemmaIncorporation
  | proofAnalysis
  deriving DecidableEq, Repr

def LakatosMechanism.text : LakatosMechanism → String
  | .monsterBarring => "monster-barring"
  | .exceptionBarring => "exception-barring"
  | .conceptStretching => "concept-stretching"
  | .lemmaIncorporation => "lemma-incorporation"
  | .proofAnalysis => "proof-analysis"

structure Provenance where
  actor : String
  runId : String
  sourcePath : String := ""
  deriving DecidableEq, Repr

structure RecordFinding where
  name : String
  description : String
  evidence : String
  citation : CitationEvidence
  status : String
  hub : Option String
  deriving DecidableEq, Repr

structure RecordLesson where
  name : String
  wrongAssumption : String
  truth : String
  problem : String := ""
  solution : String := ""
  lakatosMechanism : LakatosMechanism
  citation : CitationEvidence
  deriving DecidableEq, Repr

structure RecordDispatch where
  name : String
  parent : String
  children : List String
  kind : String
  stoppedBecause : String
  citation : CitationEvidence
  deriving DecidableEq, Repr

structure LinkNodes where
  source : String
  target : String
  relType : String
  deriving DecidableEq, Repr

inductive WriteIntent where
  | recordFinding (intent : RecordFinding)
  | recordLesson (intent : RecordLesson)
  | recordDispatch (intent : RecordDispatch)
  | linkNodes (intent : LinkNodes)
  deriving DecidableEq, Repr

structure WriteBatch where
  dryRun : Bool := true
  provenance : Provenance
  intents : List WriteIntent
  deriving DecidableEq, Repr

inductive Scalar where
  | text (value : String)
  | number (value : Nat)
  | flag (value : Bool)
  deriving DecidableEq, Repr

inductive Param where
  | scalar (value : Scalar)
  | texts (values : List String)
  | props (values : List (String × Scalar))
  deriving DecidableEq, Repr

abbrev Params := List (String × Param)

structure Statement where
  intent : String
  target : String
  cypher : String
  params : Params
  labels : List String
  relTypes : List String
  expectNodes : List String
  deriving DecidableEq, Repr

def citationProps : CitationEvidence → List (String × Scalar)
  | .url citationUrl => [("citation_url", .text citationUrl)]
  | .noExternalSource reason => [("no_external_citation_reason", .text reason)]

def stamp (p : Provenance) : List (String × Scalar) :=
  [("actor", .text p.actor), ("run_id", .text p.runId), ("sourcePath", .text p.sourcePath),
    ("provenance", .text ("agent run " ++ p.runId ++ " by " ++ p.actor ++
      (if p.sourcePath = "" then "" else " — " ++ p.sourcePath)))]

/-- A statement written on several lines, all but the first of them indented. -/
def block (indent : Nat) (lines : List String) : String :=
  String.intercalate ("\n" ++ String.ofList (List.replicate indent ' ')) lines

/-- Turn one intent into one statement. -/
def plan (intent : WriteIntent) (prov : Provenance) (nowIso : String) : Statement :=
  let base := stamp prov ++ [("written_at", .text nowIso)]
  match intent with
  | .recordFinding f =>
    { intent := "RecordFinding"
      target := f.name
      labels := ["ResearchFinding"]
      relTypes := if f.hub.isSome then ["HAS_FINDING"] else []
      expectNodes := [f.name]
      cypher :=
        if f.hub.isSome then
          block 13 ["MATCH (h \x7bname: $hub\x7d)", "MERGE (f:ResearchFinding \x7bname: $name\x7d)",
            "SET f += $props", "MERGE (h)-[:HAS_FINDING]->(f)", "RETURN f.name AS name"]
        else
          block 13 ["MERGE (f:ResearchFinding \x7bname: $name\x7d)", "SET f += $props",
            "RETURN f.name AS name"]
      params :=
        [("name", .scalar (.text f.name))] ++
        (match f.hub with
          | some hub => [("hub", .scalar (.text hub))]
          | none => []) ++
        [("props", .props (base ++
          [("description", .text f.description), ("evidence", .text f.evidence),
            ("status", .text f.status), ("epistemic_status", .text "RESEARCHED"),
            ("verified", .flag true)] ++ citationProps f.citation))] }
  | .recordLesson l =>
    { intent := "RecordLesson"
      target := l.name
      labels := ["Lesson"]
      relTypes := []
      expectNodes := [l.name]
      cypher := "MERGE (l:Lesson \x7bname: $name\x7d) SET l += $props RETURN l.name AS name"
      params :=
        [("name", .scalar (.text l.name)),
          ("props", .props (base ++
            [("wrongAssumption", .text l.wrongAssumption), ("truth", .text l.truth),
              ("problem", .text l.problem), ("solution", .text l.solution),
              ("lakatos_mechanism", .text l.lakatosMechanism.text),
              ("lakatosMechanism", .text l.lakatosMechanism.text)] ++ citationProps l.citation))] }
  | .recordDispatch d =>
    { intent := "RecordDispatch"
      target := d.name
      labels := ["DispatchHyperedge"]
      relTypes := ["DISPATCHED", "PRODUCED_BY"]
      expectNodes := [d.name]
      cypher :=
        block 17 ["MERGE (d:DispatchHyperedge \x7bname: $name\x7d)", "SET d += $props", "WITH d",
          "MATCH (p \x7bname: $parent\x7d)", "MERGE (d)-[:PRODUCED_BY]->(p)", "WITH d",
          "UNWIND $children AS childName", "MATCH (c \x7bname: childName\x7d)",
          "MERGE (d)-[:DISPATCHED]->(c)", "RETURN d.name AS name"]
      params :=
        [("name", .scalar (.text d.name)), ("parent", .scalar (.text d.parent)),
          ("children", .texts d.children),
          ("props", .props (base ++
            [("kind", .text d.kind), ("parent", .text d.parent),
              ("child_count", .number d.children.length),
              ("stopped_because", .text d.stoppedBecause)] ++ citationProps d.citation))] }
  | .linkNodes k =>
    { intent := "LinkNodes"
      target := k.source ++ " -[:" ++ k.relType ++ "]-> " ++ k.target
      labels := []
      relTypes := [k.relType]
      expectNodes := []
      cypher :=
        block 17 ["MATCH (a \x7bname: $from\x7d)", "MATCH (b \x7bname: $to\x7d)",
          "MERGE (a)-[r:`" ++ k.relType ++ "`]->(b)", "SET r.run_id = $runId, r.actor = $actor",
          "RETURN type(r) AS name"]
      params :=
        [("from", .scalar (.text k.source)), ("to", .scalar (.text k.target)),
          ("runId", .scalar (.text prov.runId)), ("actor", .scalar (.text prov.actor))] }

/-- The registry as it was loaded, or none when it could not be read. -/
structure SchemaGuard where
  loaded : Bool
  labels : List String
  relTypes : List String
  deriving DecidableEq, Repr

def SchemaGuard.deny : SchemaGuard := ⟨false, [], []⟩

def SchemaGuard.make (labels relTypes : List String) : SchemaGuard := ⟨true, labels, relTypes⟩

/-- What the registry would reject; without a registry, everything. -/
def rejected (loaded : Bool) (allowed candidates : List String) : List String :=
  if loaded then jsSort (candidates.filter (· ∉ allowed)).eraseDups else candidates

def SchemaGuard.rejectedLabels (guard : SchemaGuard) (candidates : List String) : List String :=
  rejected guard.loaded guard.labels candidates

def SchemaGuard.rejectedRelTypes (guard : SchemaGuard) (candidates : List String) : List String :=
  rejected guard.loaded guard.relTypes candidates

structure PlannedWrite where
  intent : String
  target : String
  cypher : String
  labels : List String
  relTypes : List String
  admissible : Bool
  refusedBecause : String := ""
  deriving DecidableEq, Repr

structure WriteReceipt where
  runId : String
  dryRun : Bool
  planned : List PlannedWrite
  readback : List String
  missing : List String
  committed : Bool
  deriving DecidableEq, Repr

/-- The registry check of one statement. -/
def preflight (guard : SchemaGuard) (s : Statement) : PlannedWrite :=
  let badLabels := guard.rejectedLabels s.labels
  let badRels := guard.rejectedRelTypes s.relTypes
  { intent := s.intent
    target := s.target
    cypher := oneLine s.cypher
    labels := s.labels
    relTypes := s.relTypes
    admissible := guard.loaded && badLabels.length == 0 && badRels.length == 0
    refusedBecause :=
      if !guard.loaded then "SchemaRegistry unreadable — refusing all writes (fail-closed)"
      else if 0 < badLabels.length then
        "labels not in SchemaRegistry: " ++ String.intercalate ", " badLabels
      else if 0 < badRels.length then
        "relationship types not in SchemaRegistry: " ++ String.intercalate ", " badRels
      else "" }

end Metahumotonic.Kg
