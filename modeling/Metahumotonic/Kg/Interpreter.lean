import Metahumotonic.Kg.StatementEffects

/-! Databases that run the statements of the port as Cypher says, and one that reads the
clauses back from the text of a statement. -/
namespace Metahumotonic.Kg

open Library
open Library.Cypher (Node Clause Row)

/-- The texts among some values. -/
def textsOf (values : List Scalar) : List String :=
  values.filterMap fun v =>
    match v with
    | .text s => some s
    | _ => none

/-- The names of the readback that nodes have. -/
def readback (g : KnowledgeGraph) (names : List String) : List String :=
  textsOf (Cypher.collected g
    (Cypher.run (env [("names", .texts names)]) readbackClauses g).2 "x" "name")

/-- The statements of the port have the effect of their clauses, and the readback gives the names.
-/
structure Standard (db : Database KnowledgeGraph) : Prop where
  write : ∀ (intent : WriteIntent) prov nowIso g, intent.decoded = true →
    (db.write (plan intent prov nowIso).cypher (plan intent prov nowIso).params g).2 =
      written prov nowIso g intent
  read : ∀ names g, db.read readbackCypher [("names", .texts names)] g =
    [[("found", .texts (readback g names))]]

/-! An interpreter of these statements. -/

def linkHead : String :=
  block 17 ["MATCH (a \x7bname: $from\x7d)", "MATCH (b \x7bname: $to\x7d)", "MERGE (a)-[r:`"]

def linkTail : String :=
  block 17 ["`]->(b)", "SET r.run_id = $runId, r.actor = $actor", "RETURN type(r) AS name"]

/-- One intent of each kind whose text does not vary. -/
def fixedIntents : List WriteIntent :=
  [.recordFinding ⟨"", "", "", .url "", "", some ""⟩,
    .recordFinding ⟨"", "", "", .url "", "", none⟩,
    .recordLesson { name := "", wrongAssumption := "", truth := "", lakatosMechanism :=
      .proofAnalysis, citation := .url "" },
    .recordDispatch ⟨"", "", [], "", "", .url ""⟩]

/-- The clauses of a text: those of a fixed text, or of a link of the type that is written in it. -/
def clausesOf (cypher : String) : List Clause :=
  match fixedIntents.find? fun intent => (plan intent ⟨"", "", ""⟩ "").cypher == cypher with
  | some intent => clauses intent
  | none =>
    let inner := cypher.toList.drop linkHead.toList.length
    clauses (.linkNodes
      ⟨"", "", String.ofList (inner.take (inner.length - linkTail.toList.length))⟩)

def cell (g : KnowledgeGraph) (row : Row Scalar) : Cypher.Column → Option Param
  | .property x key =>
    (Cypher.nodeOf row x).bind fun i => g.nodes[i]?.bind fun node => (node.props key).map .scalar
  | .type x => (Cypher.edgeOf row x).bind fun i => g.edges[i]?.map fun e => .scalar (.text e.type)
  | .collectDistinct _ _ => none

def returned (state : KnowledgeGraph × List (Row Scalar)) : Option Clause → List CypherRow
  | some (.return_ column name) => state.2.map fun row =>
    ((cell state.1 row column).map (name, ·)).toList
  | _ => []

def interpreter : Database KnowledgeGraph where
  write cypher params g :=
    let state := Cypher.run (env params) (clausesOf cypher) g
    (returned state (clausesOf cypher).getLast?, state.1)
  read cypher params g :=
    match cypher == readbackCypher, params with
    | true, [("names", .texts names)] => [[("found", .texts (readback g names))]]
    | _, _ => []

theorem link_cypher (k : LinkNodes) (prov : Provenance) (nowIso : String) :
    (plan (.linkNodes k) prov nowIso).cypher = linkHead ++ (k.relType ++ linkTail) := by
  have lines : ∀ a b c d e gap : String, String.intercalate gap [a, b, c, d, e] =
      a ++ gap ++ b ++ gap ++ c ++ gap ++ d ++ gap ++ e := fun _ _ _ _ _ _ => rfl
  have three : ∀ a b c gap : String, String.intercalate gap [a, b, c] = a ++ gap ++ b ++ gap ++ c :=
    fun _ _ _ _ => rfl
  simp only [plan, block, linkHead, linkTail, lines, three, String.append_assoc]

/-- What a text starts with tells which one it is. -/
def opening (cypher : String) : List Char := cypher.toList.take 8

theorem opening_block (indent : Nat) (line next : String) (rest : List String) {start : List Char}
    (long : 8 ≤ line.toList.length) (same : opening line = start) :
    opening (block indent (line :: next :: rest)) = start := by
  rw [block, String.intercalate_cons_cons, opening, String.toList_append, String.toList_append,
    List.append_assoc,
    List.take_append_of_le_length long, ← opening, same]

theorem opening_link : opening linkHead = "MATCH (a".toList :=
  opening_block 17 _ _ _ (by decide) (by decide)

theorem openings : (fixedIntents.map fun intent => opening (plan intent ⟨"", "", ""⟩ "").cypher) =
    ["MATCH (h".toList, "MERGE (f".toList, "MERGE (l".toList, "MERGE (d".toList] := by
  apply List.cons_eq_cons.mpr ⟨opening_block 13 _ _ _ (by decide) (by decide), ?_⟩
  apply List.cons_eq_cons.mpr ⟨opening_block 13 _ _ _ (by decide) (by decide), ?_⟩
  apply List.cons_eq_cons.mpr ⟨by decide, ?_⟩
  exact List.cons_eq_cons.mpr ⟨opening_block 17 _ _ _ (by decide) (by decide), rfl⟩

theorem openings_distinct :
    (opening linkHead :: fixedIntents.map fun intent =>
      opening (plan intent ⟨"", "", ""⟩ "").cypher).Nodup := by
  rw [opening_link, openings]
  decide

theorem find_by_key {β κ : Type*} [BEq κ] [LawfulBEq κ] (f : β → κ) {l : List β}
    (distinct : (l.map f).Nodup) {b : β}
    (member : b ∈ l) : l.find? (fun a => f a == f b) = some b := by
  induction l with
  | nil => cases member
  | cons a l ih =>
    obtain ⟨first, rest⟩ := List.nodup_cons.mp distinct
    rcases List.mem_cons.mp member with rfl | later
    · simp
    · have other : f a ≠ f b := fun same => first (same ▸ List.mem_map_of_mem later)
      rw [List.find?_cons_of_neg (by simpa using other)]
      exact ih rest later

theorem clausesOf_fixed (intent : WriteIntent) (member : intent ∈ fixedIntents) :
    clausesOf (plan intent ⟨"", "", ""⟩ "").cypher = clauses intent := by
  have distinct : (fixedIntents.map fun intent => (plan intent ⟨"", "", ""⟩ "").cypher).Nodup := by
    apply List.Nodup.of_map opening
    rw [List.map_map]
    exact (List.nodup_cons.mp openings_distinct).2
  rw [clausesOf, find_by_key (fun intent => (plan intent ⟨"", "", ""⟩ "").cypher) distinct member]

theorem clausesOf_link (k : LinkNodes) (prov : Provenance) (nowIso : String) :
    clausesOf (plan (.linkNodes k) prov nowIso).cypher = clauses (.linkNodes k) := by
  have none_ : (fixedIntents.find? fun intent =>
      (plan intent ⟨"", "", ""⟩ "").cypher == (plan (.linkNodes k) prov nowIso).cypher) = none := by
    rw [List.find?_eq_none]
    intro intent member same
    apply (List.nodup_cons.mp openings_distinct).1
    have long : 8 ≤ linkHead.toList.length := by decide
    have opens : opening (plan intent ⟨"", "", ""⟩ "").cypher = opening linkHead := by
      rw [beq_iff_eq.mp same, link_cypher, opening, String.toList_append,
        List.take_append_of_le_length long]
      rfl
    rw [← opens]
    exact List.mem_map_of_mem member
  rw [clausesOf, none_]
  dsimp only
  rw [link_cypher, String.toList_append, List.drop_left, String.toList_append, List.length_append,
    Nat.add_sub_cancel, List.take_left, String.ofList_toList]
  rfl

theorem clausesOf_plan (intent : WriteIntent) (prov : Provenance) (nowIso : String) :
    clausesOf (plan intent prov nowIso).cypher = clauses intent := by
  have fixed := clausesOf_fixed
  simp only [fixedIntents, List.forall_mem_cons] at fixed
  obtain ⟨hub, alone, lesson, dispatch, _⟩ := fixed
  cases intent with
  | recordFinding f =>
    obtain ⟨name, description, evidence, citation, status, given⟩ := f
    cases given with
    | none => exact alone
    | some _ => exact hub
  | recordLesson l => exact lesson
  | recordDispatch d => exact dispatch
  | linkNodes k => exact clausesOf_link k prov nowIso

theorem interpreter_standard : Standard interpreter where
  write intent prov nowIso g _ := by
    simp only [interpreter, clausesOf_plan]
    rfl
  read names g := by
    simp only [interpreter, beq_self_eq_true]

end Metahumotonic.Kg
