import Metahumotonic.Kg.Proxy

/-! The row cap of the raw Cypher proxies: `_execute` of `app/routers/kg_proxy.py`, which sees the
rows that `run_cypher` has cut already, and `capRows` of `ts/src/server/Handlers.ts`. -/
namespace Metahumotonic.Kg.Proxy

open Library

variable {Row : Type*}

def modeName (write : Bool) : String := if write then "write" else "read"

/-- `_execute`, in either mode. -/
def executeAs (opens : String → Bool) (attempt : String → Attempt Row) (s : Settings) (write : Bool)
    (client : Client) : Except HttpException (CypherResponse Row) × List String × Client :=
  match runCypher opens attempt s write client with
  | (.ok rows, commits, client) =>
    (.ok ⟨rows, rows.length, modeName write, s.kgProxyMaxRows ≤ rows.length⟩, commits, client)
  | (.error (.kgUnavailable reason), commits, client) =>
    (.error ⟨502, "KG unreachable: " ++ reason⟩, commits, client)
  | (.error (.neo4jError message), commits, client) => (.error ⟨400, message⟩, commits, client)

def capRows (rows : List Row) (max : Int) (mode : String) : CypherResponse Row :=
  let truncated : Bool := max < rows.length
  let kept := if truncated then firstRows max rows else rows
  ⟨kept, kept.length, mode, truncated⟩

/-- All rows of the statement, at the endpoint that answers the client. -/
def statementRows (opens : String → Bool) (attempt : String → Attempt Row) (s : Settings)
    (client : Client) :
    Option (List Row) :=
  ((reachable opens s client).find? fun uri => (attempt uri).settles).bind fun uri =>
    match attempt uri with
    | .answered rows => some rows
    | _ => none

/-- The response tells of the rows what was kept of them, and whether that was all. -/
structure Reports (rows : List Row) (max : Int) (r : CypherResponse Row) : Prop where
  first : r.rows = rows.take max.toNat
  counted : r.count = r.rows.length
  flagged : r.truncated = true ↔ max < rows.length

/-- Both runtimes report the statement, and alike, and a client that is not told of a cut has
seen every row. -/
structure Honest (rows : List Row) (max : Int) (python typescript : CypherResponse Row) : Prop where
  python_ : Reports rows max python
  typescript_ : Reports rows max typescript
  alike : python = typescript
  complete : ∀ r ∈ [python, typescript], r.truncated = false → r.rows = rows

theorem execute_eq (opens : String → Bool) (attempt : String → Attempt Row) (s : Settings)
    (client : Client) :
    execute opens attempt s client = executeAs opens attempt s true client := rfl

variable {opens : String → Bool} {attempt : String → Attempt Row}

/-- What is returned does not depend on the mode. -/
theorem tryUris_result (maxRows : Int) (write : Bool) (uris : List String)
    (lastError : Option String) (client : Client) :
    (tryUris opens attempt maxRows write uris lastError client).1 =
      (tryUris opens attempt maxRows true uris lastError client).1 := by
  induction uris generalizing lastError client with
  | nil => rfl
  | cons uri rest ih =>
    rcases got : getDriver opens uri client with ⟨_ | _, after⟩
    · simp only [tryUris, got, ih]
    · rcases ended : attempt uri with rows | error | error | message
      all_goals simp only [tryUris, got, ended, ih]

theorem runCypher_rows {s : Settings} {client : Client} {rows : List Row}
    (whole : statementRows opens attempt s client = some rows) (write : Bool) :
    (runCypher opens attempt s write client).1 = .ok (firstRows s.kgProxyMaxRows rows) := by
  have same : (runCypher opens attempt s write client).1 =
      (runCypher opens attempt s true client).1 :=
    tryUris_result _ write _ none client
  rw [same, (runCypher_call opens attempt s client).2, Failover.call_answer]
  simp only [turn_settles]
  unfold statementRows at whole
  obtain ⟨uri, found, answered⟩ := Option.bind_eq_some_iff.mp whole
  rw [found, Option.bind_some, turn]
  split at answered
  · rename_i rows' ended
    cases answered
    rw [ended]
  · cases answered

theorem executeAs_rows {s : Settings} {client : Client} {rows : List Row}
    (whole : statementRows opens attempt s client = some rows) (write : Bool) :
    (executeAs opens attempt s write client).1 =
      .ok ⟨firstRows s.kgProxyMaxRows rows, (firstRows s.kgProxyMaxRows rows).length,
        modeName write,
        s.kgProxyMaxRows ≤ (firstRows s.kgProxyMaxRows rows).length⟩ := by
  have returned := runCypher_rows whole write
  unfold executeAs
  rcases ran : runCypher opens attempt s write client with ⟨result, commits, after⟩
  rw [ran] at returned
  cases returned
  rfl

theorem firstRows_pos {max : Int} (positive : 1 ≤ max) (rows : List Row) :
    firstRows max rows = rows.take max.toNat :=
  if_pos (by omega)

/-- A list that was not longer than the cap is kept whole. -/
theorem capRows_reports {max : Int} (positive : 1 ≤ max) (rows : List Row) (mode : String) :
    Reports rows max (capRows rows max mode) := by
  by_cases longer : max < rows.length
  · refine ⟨?_, rfl, by simp [capRows, longer]⟩
    simp only [capRows, longer, decide_true, if_true, firstRows_pos positive]
  · refine ⟨?_, rfl, by simp [capRows, longer]⟩
    simp only [capRows, longer, decide_false, Bool.false_eq_true, if_false]
    rw [List.take_of_length_le (by omega)]

theorem Reports.complete {rows : List Row} {max : Int} {r : CypherResponse Row}
    (reports : Reports rows max r)
    (untold : r.truncated = false) : r.rows = rows := by
  have short : ¬ max < rows.length := by
    rw [← reports.flagged, untold]
    exact Bool.false_ne_true
  rw [reports.first, List.take_of_length_le (by omega)]

theorem Reports.unique {rows : List Row} {max : Int} {r r' : CypherResponse Row}
    (reports : Reports rows max r)
    (reports' : Reports rows max r') (mode : r.mode = r'.mode) : r = r' := by
  obtain ⟨kept, count, mode_, truncated⟩ := r
  obtain ⟨kept', count', mode_', truncated'⟩ := r'
  have sameRows : kept = kept' := reports.first.trans reports'.first.symm
  have sameCount : count = count' :=
    (reports.counted.trans (congrArg List.length sameRows)).trans reports'.counted.symm
  have sameFlag : truncated = truncated' :=
    Bool.eq_iff_iff.mpr (reports.flagged.trans reports'.flagged.symm)
  cases sameRows
  cases sameCount
  cases sameFlag
  cases mode
  rfl

/-- Python tells a cut also where the cap was met exactly. -/
theorem flag_iff {max : Int} (positive : 1 ≤ max) (rows : List Row) :
    (max ≤ ((rows.take max.toNat).length : Int) ↔ max < rows.length) ↔
    (rows.length : Int) ≠ max := by
  rw [List.length_take]
  omega

/-- The two runtimes report a statement honestly and alike exactly if its number of rows is not
the cap itself. -/
theorem honest_iff {opens : String → Bool} {attempt : String → Attempt Row} {s : Settings}
    {client : Client}
    {rows : List Row} (whole : statementRows opens attempt s client = some rows)
    (positive : 1 ≤ s.kgProxyMaxRows)
    (write : Bool) :
    ∃ python, (executeAs opens attempt s write client).1 = .ok python ∧
      (Honest rows s.kgProxyMaxRows python (capRows rows s.kgProxyMaxRows (modeName write)) ↔
        (rows.length : Int) ≠ s.kgProxyMaxRows) := by
  refine ⟨_, executeAs_rows whole write, ?_⟩
  rw [firstRows_pos positive]
  have typescript := capRows_reports positive rows (modeName write)
  constructor
  · intro honest
    rw [← flag_iff positive rows, ← honest.python_.flagged, decide_eq_true_iff]
  · intro apart
    have flag := (flag_iff positive rows).mpr apart
    have python : Reports rows s.kgProxyMaxRows ⟨rows.take s.kgProxyMaxRows.toNat,
        (rows.take s.kgProxyMaxRows.toNat).length, modeName write,
        s.kgProxyMaxRows ≤ (rows.take s.kgProxyMaxRows.toNat).length⟩ :=
      ⟨rfl, rfl, by rw [decide_eq_true_iff, flag]⟩
    refine ⟨python, typescript, python.unique typescript rfl, fun r member untold => ?_⟩
    rcases List.mem_pair.mp member with rfl | rfl
    · exact python.complete untold
    · exact typescript.complete untold

/-- A read of two rows under a cap of three. -/
theorem honest_iff_sample :
    ∃ python, (executeAs (fun _ => true) (fun _ => .answered [10, 20]) ⟨"bolt://a", "", 3, "key"⟩
      false ⟨[], none⟩).1 =
        .ok python ∧
      (Honest [10, 20] 3 python (capRows [10, 20] 3 (modeName false)) ↔
        (([10, 20] : List Nat).length : Int) ≠ 3) :=
  honest_iff (s := ⟨"bolt://a", "", 3, "key"⟩) (by decide) (by decide) false

/-- One row under a cap of one is all there is, and Python calls it cut. -/
theorem exact_cap_called_cut :
    ∃ python, (executeAs (fun _ => true) (fun _ => .answered [10]) ⟨"bolt://a", "", 1, "key"⟩ false
      ⟨[], none⟩).1 =
        .ok python ∧
      python.rows = [10] ∧ python.truncated = true ∧
        (capRows [10] 1 (modeName false)).truncated = false ∧
      ¬ Honest [10] 1 python (capRows [10] 1 (modeName false)) := by
  have whole : statementRows (fun _ => true) (fun _ => .answered [10]) ⟨"bolt://a", "", 1, "key"⟩
      ⟨[], none⟩ =
      some [10] := by decide
  refine ⟨_, executeAs_rows whole false, rfl, rfl, rfl, fun honest => ?_⟩
  have longer := honest.python_.flagged.mp rfl
  exact absurd longer (by decide)

end Metahumotonic.Kg.Proxy
