import Metahumotonic.Kg.WritePort
import Metahumotonic.Library.Cypher

/-! What a batch does to a labelled property graph. Each statement is a list of clauses
whose text it is; its effect is told by the nodes that are there before it, and the
clauses have exactly this effect. -/
namespace Metahumotonic.Kg

open Library
open Library.Cypher (Node Clause)

abbrev KnowledgeGraph := Cypher.Graph Scalar

/-! What the schema of a batch lets through. -/

def sized (low high : Nat) (s : String) : Bool := low ≤ (utf16 s).length && (utf16 s).length ≤ high

def nodeName (s : String) : Bool := sized 1 256 s && !s.toList.any jsSpace

def CitationEvidence.decoded : CitationEvidence → Bool
  | .url citationUrl => "http://".isPrefixOf citationUrl || "https://".isPrefixOf citationUrl
  | .noExternalSource reason => sized 12 500 reason

def screamingSnake (s : String) : Bool :=
  match s.toList with
  | [] => false
  | c :: rest => ('A' ≤ c && c ≤ 'Z') && rest.all fun d =>
    ('A' ≤ d && d ≤ 'Z') || d.isDigit || d == '_'

def WriteIntent.decoded : WriteIntent → Bool
  | .recordFinding f => nodeName f.name && sized 1 8000 f.description && sized 1 8000 f.evidence &&
      f.citation.decoded && sized 1 64 f.status && f.hub.all nodeName
  | .recordLesson l => nodeName l.name && sized 1 4000 l.wrongAssumption && sized 1 4000 l.truth &&
      l.citation.decoded
  | .recordDispatch d => nodeName d.name && nodeName d.parent && 1 ≤ d.children.length &&
      d.children.length ≤ 200 && d.children.all nodeName && sized 1 64 d.kind && d.citation.decoded
  | .linkNodes k => nodeName k.source && nodeName k.target && screamingSnake k.relType

def WriteBatch.decoded (batch : WriteBatch) : Bool :=
  batch.provenance.actor != "" && batch.provenance.runId != "" && 1 ≤ batch.intents.length &&
    batch.intents.length ≤ 50 && batch.intents.all WriteIntent.decoded

/-! The statements as clauses. -/

def clauses : WriteIntent → List Clause
  | .recordFinding f =>
    if f.hub.isSome then
      [.matchNode "h" "name" (.param "hub"), .mergeNode "f" "ResearchFinding" "name"
        (.param "name"),
        .setAll "f" "props", .mergeEdge "h" none "HAS_FINDING" "f",
          .return_ (.property "f" "name") "name"]
    else
      [.mergeNode "f" "ResearchFinding" "name" (.param "name"), .setAll "f" "props",
        .return_ (.property "f" "name") "name"]
  | .recordLesson _ =>
    [.mergeNode "l" "Lesson" "name" (.param "name"), .setAll "l" "props",
      .return_ (.property "l" "name") "name"]
  | .recordDispatch _ =>
    [.mergeNode "d" "DispatchHyperedge" "name" (.param "name"), .setAll "d" "props", .keep "d",
      .matchNode "p" "name" (.param "parent"), .mergeEdge "d" none "PRODUCED_BY" "p", .keep "d",
      .unwind "children" "childName", .matchNode "c" "name" (.var "childName"),
      .mergeEdge "d" none "DISPATCHED" "c", .return_ (.property "d" "name") "name"]
  | .linkNodes k =>
    [.matchNode "a" "name" (.param "from"), .matchNode "b" "name" (.param "to"),
      .mergeEdge "a" (some "r") k.relType "b",
        .setEdge "r" [("run_id", "runId"), ("actor", "actor")],
      .return_ (.type "r") "name"]

def readbackClauses : List Clause :=
  [.unwind "names" "n", .matchNode "x" "name" (.var "n"),
    .return_ (.collectDistinct "x" "name") "found"]

theorem link_text (relType : String) : Clause.text (.mergeEdge "a" (some "r") relType "b") =
    "MERGE (a)-[r:`" ++ relType ++ "`]->(b)" := by
  have head : "MERGE (" ++ "a" ++ ")-[" ++ "r" ++ ":`" = "MERGE (a)-[r:`" := by decide
  have tail : "`]->(" ++ ("b" ++ ")") = "`]->(b)" := by decide
  simp only [Clause.text]
  rw [head, String.append_assoc, String.append_assoc, tail]

/-- What a planned statement sends is the text of its clauses, with white space between. -/
theorem plan_text (intent : WriteIntent) (prov : Provenance) (nowIso : String) :
    ∃ gap : String, gap.toList.all jsSpace = true ∧
      (plan intent prov nowIso).cypher = String.intercalate gap
      ((clauses intent).map Clause.text) := by
  cases intent with
  | recordFinding f =>
    refine ⟨"\n" ++ String.ofList (List.replicate 13 ' '), by decide, ?_⟩
    simp only [plan, clauses]
    split <;> rfl
  | recordLesson l => exact ⟨" ", by decide, rfl⟩
  | recordDispatch d => exact ⟨"\n" ++ String.ofList (List.replicate 17 ' '), by decide, rfl⟩
  | linkNodes k =>
    refine ⟨"\n" ++ String.ofList (List.replicate 17 ' '), by decide, ?_⟩
    simp only [plan, clauses, List.map_cons, link_text]
    rfl

theorem readback_text : readbackCypher =
    "\n" ++ String.intercalate "\n" (readbackClauses.map Clause.text) ++ "\n" := by
  rfl

end Metahumotonic.Kg
