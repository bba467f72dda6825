import Metahumotonic.Cache.Waiters
import Metahumotonic.Library.NumberText
import Metahumotonic.Library.PercentEncoding
import Mathlib.Logic.Encodable.Basic
import Mathlib.Logic.Equiv.List

/-! The research cache of the live port (`cachedCurated` and the reads that go through it, in
`ts/src/ports/KgPort.ts`). All reads share one cache of untyped values, whose keys are texts joined
by colons that are not escaped. -/
namespace Metahumotonic.Kg.Research

open Library NumberText

/-! The queries of `ts/src/ports/Cypher.ts`. -/

def researchSummaryQuery : String := "
MATCH (n:ResearchFinding) WITH count(n) AS findings
MATCH (l:Lesson) WITH findings, count(l) AS lessons
MATCH (p:Paper) WITH findings, lessons, count(p) AS papers
MATCH (v:ValidationResult) WITH findings, lessons, papers, count(v) AS validations
MATCH (c:Consensus) WITH findings, lessons, papers, validations, count(c) AS consensus
MATCH (d:DecisionLog)
  WITH findings, lessons, papers, validations, consensus, count(d) AS decisions
MATCH (a:Apostle)
  WITH findings, lessons, papers, validations, consensus, decisions, count(a) AS apostles
MATCH (dh:DomainHub)
RETURN findings, lessons, papers, validations, consensus, decisions, apostles,
       count(dh) AS domains
"

def findingsQuery : String := "
MATCH (n:ResearchFinding)
WHERE ($cycle = '' OR n.cycle_id = $cycle)
  AND n.name IS NOT NULL
WITH n, coalesce(toString(n.created_at), toString(n.createdAt),
                 toString(n.timestamp), '') AS ts
WHERE coalesce(n.finding, n.claim, n.description, n.summary, n.body, '') <> ''
RETURN n.name AS name,
       coalesce(n.finding, n.claim, n.description, n.summary, n.body, '') AS finding,
       coalesce(n.axis, '') AS axis,
       coalesce(n.sub_axis, n.subAxis, '') AS subAxis,
       n.confidence AS confidence,
       coalesce(n.cycle_id, '') AS cycleId,
       n.verified AS verified,
       coalesce(n.lakatos_mechanism, '') AS lakatosMechanism,
       coalesce(n.citation_url, '') AS citationUrl,
       ts AS createdAt
ORDER BY ts DESC, name
SKIP $offset LIMIT $limit
"

def lessonsQuery : String := "
MATCH (l:Lesson)
WHERE l.name IS NOT NULL
WITH l, coalesce(toString(l.createdAt), toString(l.created_at), '') AS ts
RETURN l.name AS name,
       coalesce(l.problem, '') AS problem,
       coalesce(l.solution, '') AS solution,
       coalesce(l.wrongAssumption, '') AS wrongAssumption,
       coalesce(l.truth, '') AS truth,
       coalesce(l.category, '') AS category,
       coalesce(l.severity, '') AS severity,
       coalesce(l.lakatos_mechanism, '') AS lakatosMechanism,
       ts AS createdAt
ORDER BY ts DESC, name
SKIP $offset LIMIT $limit
"

def papersQuery : String := "
MATCH (p:Paper)
WHERE ($domain = '' OR p.domain = $domain)
  AND coalesce(p.title, p.name) IS NOT NULL
RETURN coalesce(p.title, p.name) AS title,
       coalesce(p.author, '') AS author,
       p.year AS year,
       coalesce(p.journal, '') AS journal,
       coalesce(p.doi, '') AS doi,
       coalesce(p.domain, '') AS domain,
       coalesce(p.core_thesis, p.key_insight, p.description, '') AS coreThesis,
       coalesce(p.status, '') AS status
ORDER BY coalesce(p.year, 0) DESC, title
SKIP $offset LIMIT $limit
"

def consensusQuery : String := "
MATCH (c:Consensus)
WHERE c.name IS NOT NULL
WITH c, coalesce(toString(c.created_at), toString(c.createdAt), '') AS ts
RETURN c.name AS name,
       coalesce(c.summary, c.description, c.statement, c.body, '') AS summary,
       ts AS createdAt
ORDER BY ts DESC, name
LIMIT $limit
"

def neighborsQuery : String := "
MATCH (n \x7bname: $name\x7d)
WITH n LIMIT 1
WITH n, COUNT \x7b (n)--() \x7d AS degree
CALL \x7b
  WITH n
  MATCH (n)-[r]->(m)
  RETURN 'out' AS direction, type(r) AS rtype, m.name AS mname, labels(m) AS lbls
  UNION ALL
  WITH n
  MATCH (n)<-[r]-(m)
  RETURN 'in' AS direction, type(r) AS rtype, m.name AS mname, labels(m) AS lbls
\x7d
WITH degree, collect(\x7bdirection: direction, type: rtype,
                      name: coalesce(mname, ''), labels: lbls\x7d)[0..$limit] AS neighbors
RETURN degree, neighbors
"

/-- The rows, the records that they are decoded to, and the row decoders, which may be any. -/
structure Contracts where
  CypherRow : Type
  FindingRecord : Type
  LessonRecord : Type
  PaperRecord : Type
  ConsensusRecord : Type
  ResearchSummary : Type
  NodeNeighbors : Type
  decodeFinding : CypherRow → FindingRecord
  decodeLesson : CypherRow → LessonRecord
  decodePaper : CypherRow → PaperRecord
  decodeConsensus : CypherRow → ConsensusRecord
  decodeSummary : CypherRow → ResearchSummary
  researchSummaryFallback : ResearchSummary
  decodeNeighbors : Text → List CypherRow → NodeNeighbors
  notFoundNeighbors : Text → NodeNeighbors

/-- A value of the cache, which is cast to what the reader expects. -/
inductive Value (c : Contracts) where
  | researchSummary (summary : c.ResearchSummary)
  | findings (records : List c.FindingRecord)
  | lessons (records : List c.LessonRecord)
  | papers (records : List c.PaperRecord)
  | consensus (records : List c.ConsensusRecord)
  | neighbors (found : c.NodeNeighbors)

inductive Param (Integer : Type) where
  | integer (n : Integer)
  | text (s : Text)
  deriving DecidableEq, Repr

/-- What `cachedCurated` is given besides the cache and the key. -/
structure Curated (c : Contracts) (Integer : Type) where
  query : String
  params : List (String × Param Integer)
  decode : List c.CypherRow → Value c
  fallback : Value c

/-- The rows of the query decoded, or the fallback when it fails or the breaker is open. -/
def Curated.produce {c : Contracts} {Integer : Type} (curated : Curated c Integer) :
    Option (List c.CypherRow) → Value c
  | some rows => curated.decode rows
  | none => curated.fallback

/-- A read with its options. Texts are sequences of UTF-16 units. -/
inductive Read where
  | researchSummary
  | findings (limit offset : Double) (cycle : Text)
  | lessons (limit offset : Double)
  | papers (limit offset : Double) (domain : Text)
  | consensus (limit offset : Double)
  | neighbors (name : Text) (limit : Double)
  deriving DecidableEq, Repr

namespace Read

def key : Read → Text
  | researchSummary => lit "summary"
  | findings limit offset cycle =>
    lit "findings:" ++ (numberText limit ++ 58 :: (numberText offset ++ 58 :: cycle))
  | lessons limit offset => lit "lessons:" ++ (numberText limit ++ 58 :: numberText offset)
  | papers limit offset domain =>
    lit "papers:" ++ (numberText limit ++ 58 :: (numberText offset ++ 58 :: domain))
  | consensus limit _ => lit "consensus:" ++ numberText limit
  | neighbors name limit => lit "neighbors:" ++ (name ++ 58 :: numberText limit)

variable (c : Contracts) {Integer : Type} (int : Double → Integer)

def curated : Read → Curated c Integer
  | researchSummary => {
      query := researchSummaryQuery
      params := []
      decode := fun rows =>
        .researchSummary (rows.head?.elim c.researchSummaryFallback c.decodeSummary)
      fallback := .researchSummary c.researchSummaryFallback }
  | findings limit offset cycle => {
      query := findingsQuery
      params := [("limit", .integer (int limit)), ("offset", .integer (int offset)),
        ("cycle", .text cycle)]
      decode := fun rows => .findings (rows.map c.decodeFinding)
      fallback := .findings [] }
  | lessons limit offset => {
      query := lessonsQuery
      params := [("limit", .integer (int limit)), ("offset", .integer (int offset))]
      decode := fun rows => .lessons (rows.map c.decodeLesson)
      fallback := .lessons [] }
  | papers limit offset domain => {
      query := papersQuery
      params := [("limit", .integer (int limit)), ("offset", .integer (int offset)),
        ("domain", .text domain)]
      decode := fun rows => .papers (rows.map c.decodePaper)
      fallback := .papers [] }
  | consensus limit _ => {
      query := consensusQuery
      params := [("limit", .integer (int limit))]
      decode := fun rows => .consensus (rows.map c.decodeConsensus)
      fallback := .consensus [] }
  | neighbors name limit => {
      query := neighborsQuery
      params := [("name", .text name), ("limit", .integer (int limit))]
      decode := fun rows => .neighbors (c.decodeNeighbors name rows)
      fallback := .neighbors (c.notFoundNeighbors name) }

end Read

section Keys

variable {c : Contracts} {Integer : Type} {int : Double → Integer}

theorem colon_not_mem (x : Double) : 58 ∉ numberText x := fun member =>
  absurd (isSign_numberText x 58 member) (by decide)

/-- A text after a number and a colon can be told from them. -/
theorem first_number {x y : Double} {rest rest' : Text}
    (same : numberText x ++ 58 :: rest = numberText y ++ 58 :: rest') : x.value = y.value ∧
      rest = rest' := by
  have number := congrArg (List.takeWhile (· != 58)) same
  rw [takeWhile_until (colon_not_mem x), takeWhile_until (colon_not_mem y)] at number
  rw [number] at same
  exact ⟨(numberText_eq_iff x y).mp number, (List.cons.inj (List.append_cancel_left same)).2⟩

theorem last_number {x y : Double} {before before' : Text}
    (same : before ++ 58 :: numberText x = before' ++ 58 :: numberText y) :
    before = before' ∧ x.value = y.value := by
  obtain ⟨text, number⟩ := last_separator (colon_not_mem x) (colon_not_mem y) same
  exact ⟨text, (numberText_eq_iff x y).mp number⟩

/-- The first unit of a key, which each kind of read has of its own. -/
def Read.initial : Read → ℕ
  | researchSummary => 115
  | findings .. => 102
  | lessons .. => 108
  | papers .. => 112
  | consensus .. => 99
  | neighbors .. => 110

theorem key_initial (r : Read) : r.key.head? = some r.initial := by
  cases r <;> rfl

/-- Reads with one key ask the same. -/
theorem curated_of_key (value : ∀ x y : Double, x.value = y.value → int x = int y) {r s : Read}
    (same : r.key = s.key) : r.curated c int = s.curated c int := by
  have initials : r.initial = s.initial := by
    have heads := congrArg List.head? same
    rw [key_initial, key_initial] at heads
    exact Option.some.inj heads
  cases r <;> cases s <;> simp only [Read.initial, Nat.reduceEqDiff] at initials
  · rfl
  · obtain ⟨limits, rest⟩ := first_number (List.append_cancel_left same)
    obtain ⟨offsets, cycles⟩ := first_number rest
    simp only [Read.curated, value _ _ limits, value _ _ offsets, cycles]
  · obtain ⟨limits, offsets⟩ := last_number (List.append_cancel_left same)
    simp only [Read.curated, value _ _ ((numberText_eq_iff _ _).mp limits), value _ _ offsets]
  · obtain ⟨limits, rest⟩ := first_number (List.append_cancel_left same)
    obtain ⟨offsets, domains⟩ := first_number rest
    simp only [Read.curated, value _ _ limits, value _ _ offsets, domains]
  · have limits := (numberText_eq_iff _ _).mp (List.append_cancel_left same)
    simp only [Read.curated, value _ _ limits]
  · obtain ⟨names, limits⟩ := last_number (List.append_cancel_left same)
    simp only [Read.curated, value _ _ limits, names]

/-- What a reader casts the cached value to. -/
def Read.expects : Read → Value c → Prop
  | researchSummary, .researchSummary _ => True
  | findings .., .findings _ => True
  | lessons .., .lessons _ => True
  | papers .., .papers _ => True
  | consensus .., .consensus _ => True
  | neighbors .., .neighbors _ => True
  | _, _ => False

theorem expects_produce (r : Read) (answer : Option (List c.CypherRow)) :
    r.expects ((r.curated c int).produce answer) := by
  cases r <;> cases answer <;> trivial

end Keys

section Cached

open Cache

variable {c : Contracts} {Integer E : Type} {int : Double → Integer}

/-- Every call of the cache is a read under the read's key, and an effect that succeeds ends with
what the read's own query gives. `code` writes the keys as the cache has them. -/
structure Serves (code : Text → String) (int : Double → Integer) (reads : ℕ → Read)
    (s : Runtime (Value c) E) : Prop where
  keyed : ∀ i f, s.fibers[i]? = some f → f.key = code (reads i).key
  produced : ∀ i f, s.fibers[i]? = some f → ∀ value, f.produced = some (.success value) →
    ∃ answer, value = ((reads i).curated c int).produce answer

/-- Reads with one key issue the same query with the same parameters and the same decoder; and in
every run of the cache a read ends with a value of its type, which its own query gives on some
answer. -/
theorem research_keys_never_collide (value : ∀ x y : Double, x.value = y.value → int x = int y) :
    (∀ r s : Read, r.key = s.key → r.curated c int = s.curated c int) ∧
    ∀ (code : Text → String), Function.Injective code →
      ∀ (o : Options) (events : List (Event (Value c) E))
      (s : Runtime (Value c) E) (reads : ℕ → Read), Path (Step o) {} events s →
        Serves code int reads s →
      ∀ i f v, s.fibers[i]? = some f → f.pc = .ended (.success v) →
        (reads i).expects v ∧ ∃ answer, v = ((reads i).curated c int).produce answer := by
  refine ⟨fun r s => curated_of_key value, fun code injective o events s reads run serves i f v
    there ended => ?_⟩
  have told := run.invariant Told told_kept Told.initial
  obtain ⟨g, member, keys, produced⟩ := told.values f (List.mem_of_getElem? there) v ended
  obtain ⟨j, found⟩ := List.getElem?_of_mem member
  obtain ⟨answer, given⟩ := serves.produced j g found v produced
  have same : (reads j).key = (reads i).key := by
    apply injective
    rw [← serves.keyed j g found, keys, serves.keyed i f there]
  rw [curated_of_key value same] at given
  exact ⟨given ▸ expects_produce (reads i) answer, answer, given⟩

/-! The two zeros are one integer to the driver, and have one text. -/

def driverInt (x : Double) : ℤ := max (-9223372036854775808)
    (min 9223372036854775807 (x.value / Nat.pow 2 grid))

theorem zero_fits : 0 < 9007199254740992 := by decide

theorem zero_bounded : 0 ≤ 2045 := by decide

theorem zero_normal : 4503599627370496 ≤ 0 ∨ 0 = 0 := .inr rfl

def zero (negative : Bool) : Double := ⟨negative, 0, 0, zero_fits, zero_bounded, zero_normal⟩

def plainContracts : Contracts where
  CypherRow := Unit
  FindingRecord := Unit
  LessonRecord := Unit
  PaperRecord := Unit
  ConsensusRecord := Unit
  ResearchSummary := Unit
  NodeNeighbors := Text
  decodeFinding := id
  decodeLesson := id
  decodePaper := id
  decodeConsensus := id
  decodeSummary := id
  researchSummaryFallback := ()
  decodeNeighbors name _ := name
  notFoundNeighbors name := name

/-- Some text for every sequence of units. -/
def unary (t : Text) : String := String.ofList (List.replicate (Encodable.encode t) 'x')

theorem unary_injective : Function.Injective unary := by
  intro t u same
  have lengths := congrArg List.length (String.ofList_injective same)
  rw [List.length_replicate, List.length_replicate] at lengths
  exact Encodable.encode_injective lengths

def uncached : Cache.Options := ⟨0, 8⟩

/-- A read that ends with the records of a query without rows. -/
def readFiber : Fiber (Value plainContracts) String where
  key := unary (Read.lessons (zero false) (zero false)).key
  pc := .ended (.success (.lessons []))
  produced := some (.success (.lessons []))

def readEvents : List (Event (Value plainContracts) String) :=
  [.get readFiber.key, .step 0, .step 0, .finish 0 (.success (.lessons []))]

theorem readFiber_serves : Serves unary driverInt (fun _ => .lessons (zero false) (zero false))
    ({ fibers := [readFiber] } : Runtime (Value plainContracts) String) where
  keyed i f there := by
    have same : f = readFiber := List.mem_singleton.mp (List.mem_of_getElem? there)
    rw [same]
    rfl
  produced i f there value given := by
    have same : f = readFiber := List.mem_singleton.mp (List.mem_of_getElem? there)
    rw [same] at given
    cases given
    exact ⟨some [], rfl⟩

theorem research_keys_never_collide_sample :
    (Read.neighbors (lit "a:1") (zero true)).curated plainContracts driverInt =
      (Read.neighbors (lit "a:1") (zero false)).curated plainContracts driverInt ∧
    ∃ answer, .lessons
      [] = ((Read.lessons (zero false) (zero false)).curated plainContracts driverInt).produce
        answer := by
  have settled := @research_keys_never_collide plainContracts ℤ String driverInt
    fun x y same => by rw [driverInt, driverInt, same]
  refine ⟨settled.1 _ _ (by decide), ?_⟩
  have run : Path (Step uncached) {} readEvents { fibers := [readFiber] } :=
    (path_iff_follow _).mpr rfl
  exact (settled.2 unary unary_injective uncached readEvents _ _ run readFiber_serves 0 readFiber
    _ rfl rfl).2

end Cached

end Metahumotonic.Kg.Research
