import Mathlib.Data.Prod.Lex
import Metahumotonic.Library.StableOrder
import Metahumotonic.Gate.Chain
import Metahumotonic.Gate.Promptness

/-! The gate (`_vendor/ooptdd/engine/gate.py`): the events that a store returned are sorted and
judged. Which order the store returned them in does not matter. -/
namespace Metahumotonic.Gate
open Metahumotonic.Library

/-- `stream_key`. -/
def streamKey (ev : Event) : Bool ×ₗ ℤ ×ₗ ℤ :=
  toLex (ev.timestamp.isNone, toLex (ev.timestamp.getD 0, ev.seq))

/-- What a spec says, but for `threshold` and `pin_service`. Its rules are of the kinds that
`compileCheck` knows: none reads a second source. -/
structure Spec where
  indicators : List (Text × Matcher) := []
  expect : List Rule
  forbidErrors : Option Bool := none
  errorLevels : List Text := []
  allowErrors : List Matcher := []
  requireCorroboration : Option Bool := none
  requireSignature : Option Bool := none

/-- `OOPTDD_FORBID_ERRORS`, `OOPTDD_REQUIRE_CORROBORATION`, `OOPTDD_REQUIRE_SIGNATURE` and
`OOPTDD_SIGNING_KEY`. -/
structure Environment where
  forbidErrors : Bool := false
  requireCorroboration : Bool := false
  requireSignature : Bool := false
  signingKey : Text := []

structure CheckResult where
  passed : Bool
  latched : Latched
  optional : Bool
  pending : Bool
  tautological : Bool

structure GateResult where
  ok : Bool
  reachable : Bool
  complete : Bool
  vacuous : Bool
  uncorroborated : Bool
  unauthenticated : Bool
  authenticated : Option Bool
  checks : List CheckResult

/-- The implicit check on error records. -/
def forbidRule (levels : List Text) : Rule where
  absent := some ((if levels = [] then [lit "ERROR", lit "CRITICAL"] else levels).map fun level =>
    { fields := [(lit "level", .text level)] })

def Spec.rules (spec : Spec) (env : Environment) : List Rule :=
  if spec.forbidErrors.getD env.forbidErrors then spec.expect ++ [forbidRule spec.errorLevels]
    else spec.expect

def Monitor.tautological : Monitor → Bool
  | count m => m.tautological
  | _ => false

/-- A record without the fields that the store has stamped. -/
def unstamped (ev : Event) : Event := ev.filter fun entry => entry.1.head? != some 95

section

variable (same : Json → Json → Bool) (h : Hashing) (env : Environment) (ontology : Option Ontology)
    (spec : Spec)

/-- `_run`, with the flags that the loop adds. -/
def runCheck (events : List Event) (reachable : Bool) (rule : Rule) : Option CheckResult :=
  (compileCheck spec.indicators ontology spec.allowErrors rule).map fun monitor =>
    let result := runMonitor same monitor events reachable
    ⟨result.1, result.2, rule.optional, rule.pending, monitor.tautological⟩

def CheckResult.gates (check : CheckResult) : Bool :=
  !check.optional && !check.pending && !check.tautological

/-- Whether the events form a chain under the key; `none` inside where nobody asks. -/
def authenticate (events : List Event) (assertsAnything : Bool) : Option (Option Bool) :=
  if spec.requireSignature.getD env.requireSignature && assertsAnything then
    if env.signingKey = [] then some (some false)
    else (h.verifyChain false (events.map unstamped) env.signingKey).map fun report =>
      some report.ok
  else some none

/-- `evaluate_events`; nothing where it raises. -/
def evaluateEvents (events : List Event) (reachable complete : Bool) : Option GateResult := do
  let events := StableOrder.sorted streamKey events
  let checks ← (spec.rules env).mapM (runCheck same ontology spec events (reachable && complete))
  let gating := checks.filter CheckResult.gates
  let assertsAnything := !gating.isEmpty
  let requiredOk := gating.all CheckResult.passed
  -- only an `external` check corroborates, and no rule is of that kind
  let uncorroborated := spec.requireCorroboration.getD env.requireCorroboration && assertsAnything
  let authenticated ← authenticate h env spec events assertsAnything
  let unauthenticated := spec.requireSignature.getD env.requireSignature && assertsAnything &&
    authenticated != some true
  return {
    ok := reachable && complete && assertsAnything && requiredOk && !uncorroborated &&
      !unauthenticated
    reachable := reachable
    complete := complete
    vacuous := !checks.isEmpty && !assertsAnything
    uncorroborated := uncorroborated
    unauthenticated := unauthenticated
    authenticated := authenticated
    checks := checks }

end

variable {same : Json → Json → Bool} {ev : Event} {events others : List Event} {k : ℕ}

theorem ConformsMonitor.step_violations (m : ConformsMonitor) (idx : ℤ) :
    (m.step ev idx).violations = [] ↔ m.violations = [] ∧ ¬ m.objects ev := by
  by_cases objects : m.objects ev
  · exact iff_of_false (m.objects_broken objects) fun both => both.2 objects
  · rw [and_iff_left objects, step]
    cases loaded : m.ontology with
    | none => rfl
    | some ontology =>
      dsimp only
      by_cases outside : m.target.isSome = true ∧ ev.name ≠ m.target
      · rw [if_pos outside]
      · have inside : m.target.isSome = true → ev.name = m.target := fun limited =>
          not_not.mp fun other => outside ⟨limited, other⟩
        rw [if_neg outside]
        cases typed : ev.name.bind ontology.types with
        | none =>
          have open_ : ¬ m.closedWorld = true := fun closed =>
            objects ⟨ontology, loaded, inside, by rw [typed]; exact closed⟩
          dsimp only
          rw [if_neg open_]
        | some type =>
          have valid : type.validate ev = [] := not_not.mp fun problems =>
            objects ⟨ontology, loaded, inside, by rw [typed]; exact problems⟩
          dsimp only
          rw [if_pos valid]

namespace OrderMonitor

/-- An event that counts as an occurrence of a name. -/
def occurs (name : Text) (ev : Event) : Bool := ev.name == some name && ev.timestamp.isSome

def occurrence (ev : Event) : ℤ × ℤ := (ev.timestamp.getD 0, ev.seq)

theorem step_firsts (m : OrderMonitor) (ev : Event) (idx : ℤ) :
    (m.step ev idx).sequence = m.sequence ∧
    (m.step ev idx).bound = m.bound ∧ ∀ name ∈ m.sequence, (m.step ev idx).firsts.lookup name =
      (m.firsts.lookup name).or (if occurs name ev = true then some (occurrence ev) else none) := by
  cases timed : ev.timestamp with
  | none => simp [step, timed, occurs]
  | some ts =>
    cases named : ev.name with
    | none => simp [step, named, occurs]
    | some other =>
      by_cases waited : other ∈ m.sequence
      · simp only [step, named, timed, if_pos waited]
        refine ⟨note_sequence, note_bound, fun name _ => ?_⟩
        rw [note]
        by_cases same : name = other
        · subst same
          cases known : m.firsts.lookup name <;> simp [known, occurs, occurrence, named, timed]
        · have apart : occurs name ev = false := by simp [occurs, named, Ne.symm same]
          rw [apart, if_neg Bool.false_ne_true, Option.or_none]
          split
          · rw [List.lookup_cons, beq_eq_false_iff_ne.mpr same]
          · rfl
      · have idle : m.step ev idx = m := by simp only [step, named, timed, if_neg waited]
        refine ⟨congrArg _ idle, congrArg _ idle, fun name inside => ?_⟩
        rw [idle]
        have apart : occurs name ev = false := by
          have differs : other ≠ name := fun same => waited (same ▸ inside)
          simp [occurs, named, differs]
        rw [apart, if_neg Bool.false_ne_true, Option.or_none]

theorem passes_congr {m other : OrderMonitor} (sequence : m.sequence = other.sequence)
    (bound : m.bound = other.bound)
    (firsts : ∀ name ∈ m.sequence, m.firsts.lookup name = other.firsts.lookup name) :
    m.passes = other.passes := by
  have missing : m.missing = other.missing := by
    rw [OrderMonitor.missing, OrderMonitor.missing, ← sequence]
    exact List.filter_congr fun name waited => by rw [firsts name waited]
  have keys : m.keys = other.keys := by
    rw [OrderMonitor.keys, OrderMonitor.keys, ← sequence]
    exact List.filterMap_congr firsts
  have gaps : m.gapsExceeded = other.gapsExceeded := by
    rw [gapsExceeded, gapsExceeded, ← sequence, ← bound]
    cases m.bound with
    | none => rfl
    | some limit =>
      refine List.filter_congr fun pair member => ?_
      obtain ⟨first, second⟩ := List.of_mem_zip member
      rw [firsts pair.1 first, firsts pair.2 (List.mem_of_mem_tail second)]
  rw [passes, passes, missing, gaps, orderedSoFar, orderedSoFar, keys]

/-- The first occurrence of a name, in whatever order its ties stand. -/
theorem first_sorted (perm : events.Perm others) (name : Text) :
    ((StableOrder.sorted streamKey events).find? (occurs name)).map occurrence =
      ((StableOrder.sorted streamKey others).find? (occurs name)).map occurrence := by
  have keys := congrArg (Option.map fun key => ((ofLex (ofLex key).2).1, (ofLex (ofLex key).2).2))
    (StableOrder.find?_key streamKey perm (occurs name))
  rwa [Option.map_map, Option.map_map] at keys

end OrderMonitor

namespace HeartbeatMonitor

def beatTime (name : Text) (ev : Event) : Option ℤ := if ev.name = some name
    then ev.timestamp else none

/-- What a beat does to the tally. -/
def hear (tally : ℕ × Option ℤ × ℤ) (ts : ℤ) : ℕ × Option ℤ × ℤ :=
  (tally.1 + 1, some ts, match tally.2.1 with
    | some last => max tally.2.2 (ts - last)
    | none => tally.2.2)

theorem step_hears (m : HeartbeatMonitor) (ev : Event) (idx : ℤ) : (m.step ev idx).name = m.name ∧
    (m.step ev idx).bound = m.bound ∧
    ((m.step ev idx).beats, (m.step ev idx).lastTs, (m.step ev idx).maxGap) =
      match beatTime m.name ev with
      | some ts => hear (m.beats, m.lastTs, m.maxGap) ts
      | none => (m.beats, m.lastTs, m.maxGap) := by
  unfold step beatTime
  cases timed : ev.timestamp with
  | none => simp
  | some ts =>
    dsimp only
    split_ifs with beat
    · cases m.lastTs <;> exact ⟨rfl, rfl, rfl⟩
    · exact ⟨rfl, rfl, rfl⟩

theorem beats_sorted (name : Text) (perm : events.Perm others) :
    (StableOrder.sorted streamKey events).filterMap (beatTime name) =
      (StableOrder.sorted streamKey others).filterMap (beatTime name) := by
  refine StableOrder.filterMap_sorted streamKey perm _ fun a b x y below first second => ?_
  have read {ev : Event} {ts : ℤ} (beat : beatTime name ev = some ts) : ev.timestamp = some ts := by
    unfold beatTime at beat
    split_ifs at beat
    exact beat
  rw [streamKey, streamKey, read first, read second, Prod.Lex.toLex_le_toLex,
    Prod.Lex.toLex_le_toLex] at below
  rcases below with apart | ⟨_, earlier | ⟨same, _⟩⟩
  · exact absurd apart (lt_irrefl _)
  · exact le_of_lt earlier
  · exact le_of_eq same

end HeartbeatMonitor

namespace Monitor

section Feeding

variable (same events k)

theorem fed_count (m : CountMonitor) : ∃ latched, (count m).fed same events k =
    count { m with got := m.got + events.countP (m.matcher.accepts same), latched := latched } := by
  induction events generalizing m k with
  | nil => exact ⟨m.latched, by simp⟩
  | cons ev events ih =>
    rw [fed_cons, Monitor.step]
    cases accepted : m.matcher.accepts same ev with
    | false =>
      rw [CountMonitor.step_rejected accepted, List.countP_cons_of_neg (by simp [accepted])]
      exact ih (k + 1) m
    | true =>
      obtain ⟨latched, next⟩ := CountMonitor.step_accepted (k : ℤ) accepted
      obtain ⟨after, its⟩ := ih (k + 1) { m with got := m.got + 1, latched := latched }
      rw [next, its, List.countP_cons_of_pos accepted]
      exact ⟨after, by push_cast; rw [add_right_comm, add_assoc]⟩

theorem fed_present (m : PresentMonitor) : ∃ latched, (present m).fed same events k =
    present ⟨m.slots.map fun slot => (slot.1, slot.2 || events.any (slot.1.accepts same)),
      latched⟩ := by
  induction events generalizing m k with
  | nil => exact ⟨m.latched, by simp⟩
  | cons ev events ih =>
    obtain ⟨after, its⟩ := ih (k + 1) (m.step same ev k)
    rw [fed_cons, Monitor.step, its, PresentMonitor.step_slots]
    exact ⟨after, by simp [Function.comp_def, Bool.or_assoc]⟩

theorem fed_absent (m : AbsentMonitor) : ∃ latched, (absent m).fed same events k =
    absent { m with offenders := m.offenders ++ events.filter (m.offends same), latched :=
      latched } := by
  induction events generalizing m k with
  | nil => exact ⟨m.latched, by simp⟩
  | cons ev events ih =>
    rw [fed_cons, Monitor.step, AbsentMonitor.step]
    split_ifs with offends
    · obtain ⟨after, its⟩ :=
        ih (k + 1) { m with offenders := m.offenders ++ [ev], latched := m.latched.latch .viol k }
      rw [its, List.filter_cons_of_pos offends]
      exact ⟨after, by simp; rfl⟩
    · rw [List.filter_cons_of_neg offends]
      exact ih (k + 1) m

theorem fed_conforms (m : ConformsMonitor) : ∃ next :
    ConformsMonitor, (conforms m).fed same events k = conforms next ∧
    next.ontology = m.ontology ∧
      (next.violations = [] ↔ m.violations = [] ∧ ∀ ev ∈ events, ¬ m.objects ev) := by
  induction events generalizing m k with
  | nil => exact ⟨m, rfl, rfl, by simp⟩
  | cons ev events ih =>
    obtain ⟨next, its, loaded, clean⟩ := ih (k + 1) (m.step ev k)
    obtain ⟨ontology, target, closed⟩ := m.step_static ev k
    refine ⟨next, its, loaded.trans ontology, ?_⟩
    have alike (other : Event) : (m.step ev k).objects other ↔ m.objects other := by
      rw [ConformsMonitor.objects, ConformsMonitor.objects, ontology, target, closed]
    rw [clean, ConformsMonitor.step_violations, List.forall_mem_cons, and_assoc]
    simp only [alike]

theorem fed_order (m : OrderMonitor) : ∃ next :
    OrderMonitor, (order m).fed same events k = order next ∧
    next.sequence = m.sequence ∧ next.bound = m.bound ∧ ∀ name ∈ m.sequence,
      next.firsts.lookup name =
      (m.firsts.lookup name).or
      ((events.find? (OrderMonitor.occurs name)).map OrderMonitor.occurrence) := by
  induction events generalizing m k with
  | nil => exact ⟨m, rfl, rfl, rfl, by simp⟩
  | cons ev events ih =>
    obtain ⟨next, its, sequence, bound, looks⟩ := ih (k + 1) (m.step ev k)
    obtain ⟨kept, bounded, step⟩ := m.step_firsts ev k
    refine ⟨next, its, sequence.trans kept, bound.trans bounded, fun name waited => ?_⟩
    rw [looks name (kept ▸ waited), step name waited, List.find?_cons]
    cases occurs : OrderMonitor.occurs name ev with
    | false => rw [if_neg Bool.false_ne_true, Option.or_none]
    | true => rw [if_pos rfl, Option.or_assoc]; rfl

theorem fed_heartbeat (m : HeartbeatMonitor) : ∃ next :
    HeartbeatMonitor, (heartbeat m).fed same events k = heartbeat next ∧
    next.bound = m.bound ∧ (next.beats, next.lastTs, next.maxGap) =
      (events.filterMap (HeartbeatMonitor.beatTime m.name)).foldl HeartbeatMonitor.hear
      (m.beats, m.lastTs, m.maxGap) := by
  induction events generalizing m k with
  | nil => exact ⟨m, rfl, rfl, rfl⟩
  | cons ev events ih =>
    obtain ⟨next, its, bound, heard⟩ := ih (k + 1) (m.step ev k)
    obtain ⟨name, bounded, step⟩ := m.step_hears ev k
    refine ⟨next, its, bound.trans bounded, ?_⟩
    rw [heard, step, name]
    cases beat : HeartbeatMonitor.beatTime m.name ev with
    | none => rw [List.filterMap_cons_none beat]
    | some ts => rw [List.filterMap_cons_some beat]; rfl

end Feeding

/-- Whether a monitor passes does not depend on the order in which a sorted stream was found. -/
theorem passes_sorted (m : Monitor) (perm : events.Perm others) :
    (m.fed same (StableOrder.sorted streamKey events) 0).passes =
      (m.fed same (StableOrder.sorted streamKey others) 0).passes := by
  have both : (StableOrder.sorted streamKey events).Perm (StableOrder.sorted streamKey others) :=
    ((StableOrder.sorted_perm _ _).trans perm).trans (StableOrder.sorted_perm _ _).symm
  cases m with
  | count m =>
    obtain ⟨latched, left⟩ := fed_count same (StableOrder.sorted streamKey events) 0 m
    obtain ⟨latched', right⟩ := fed_count same (StableOrder.sorted streamKey others) 0 m
    rw [left, right, both.countP_eq]
    rfl
  | present m =>
    obtain ⟨latched, left⟩ := fed_present same (StableOrder.sorted streamKey events) 0 m
    obtain ⟨latched', right⟩ := fed_present same (StableOrder.sorted streamKey others) 0 m
    rw [left, right]
    simp only [both.any_eq]
    rfl
  | absent m =>
    obtain ⟨latched, left⟩ := fed_absent same (StableOrder.sorted streamKey events) 0 m
    obtain ⟨latched', right⟩ := fed_absent same (StableOrder.sorted streamKey others) 0 m
    rw [left, right]
    refine Bool.eq_iff_iff.mpr ?_
    have found := both.filter (m.offends same)
    simp only [passes, AbsentMonitor.passes, List.isEmpty_iff, List.append_eq_nil_iff]
    rw [← List.length_eq_zero_iff (l := List.filter _ _), found.length_eq, List.length_eq_zero_iff]
  | order m =>
    obtain ⟨next, left, sequence, bound, looks⟩ :=
      fed_order same (StableOrder.sorted streamKey events) 0 m
    obtain ⟨next', right, sequence', bound', looks'⟩ :=
      fed_order same (StableOrder.sorted streamKey others) 0 m
    rw [left, right]
    refine OrderMonitor.passes_congr (sequence.trans sequence'.symm) (bound.trans bound'.symm)
        fun name waited => ?_
    rw [sequence] at waited
    rw [looks name waited, looks' name waited, OrderMonitor.first_sorted perm]
  | heartbeat m =>
    obtain ⟨next, left, bound, heard⟩ :=
      fed_heartbeat same (StableOrder.sorted streamKey events) 0 m
    obtain ⟨next', right, bound', heard'⟩ :=
      fed_heartbeat same (StableOrder.sorted streamKey others) 0 m
    have alike := heard.trans
      ((congrArg _ (HeartbeatMonitor.beats_sorted m.name perm)).trans heard'.symm)
    rw [left, right]
    simp only [Prod.mk.injEq] at alike
    simp [passes, HeartbeatMonitor.passes, bound, bound', alike]
  | conforms m =>
    obtain ⟨next, left, ontology, clean⟩ :=
      fed_conforms same (StableOrder.sorted streamKey events) 0 m
    obtain ⟨next', right, ontology', clean'⟩ :=
      fed_conforms same (StableOrder.sorted streamKey others) 0 m
    rw [left, right]
    refine Bool.eq_iff_iff.mpr ?_
    simp only [passes, ConformsMonitor.passes, Bool.and_eq_true, List.isEmpty_iff, ontology,
      ontology', clean, clean',
      both.mem_iff]

end Monitor

variable {h : Hashing} {env : Environment} {ontology : Option Ontology} {spec : Spec}

/-- What the verdict of the gate reads of a check. -/
def CheckResult.judged (check : CheckResult) : Bool × Bool := (check.passed, check.gates)

theorem runCheck_judged (perm : events.Perm others) (reachable : Bool) (rule : Rule) :
    (runCheck same ontology spec (StableOrder.sorted streamKey events) reachable rule).map
      CheckResult.judged =
      (runCheck same ontology spec (StableOrder.sorted streamKey others) reachable rule).map
        CheckResult.judged := by
  unfold runCheck
  cases compileCheck spec.indicators ontology spec.allowErrors rule with
  | none => rfl
  | some monitor =>
    simp only [Option.map_some, CheckResult.judged, CheckResult.gates, Monitor.runMonitor_eq,
      Monitor.collapse,
      monitor.passes_sorted perm]

variable (same ontology spec) in
theorem mapM_judged (events : List Event) (reachable : Bool) (rules : List Rule) :
    (rules.mapM (runCheck same ontology spec events reachable)).map (List.map CheckResult.judged) =
      rules.mapM fun rule => (runCheck same ontology spec events reachable rule).map
        CheckResult.judged := by
  induction rules with
  | nil => rfl
  | cons rule rules ih =>
    rw [List.mapM_cons, List.mapM_cons, ← ih]
    cases runCheck same ontology spec events reachable rule with
    | none => rfl
    | some check => cases rules.mapM (runCheck same ontology spec events reachable) <;> rfl

/-- What a gate answers, without the place in the stream where its checks settled. -/
structure Judgement where
  ok : Bool
  vacuous : Bool
  uncorroborated : Bool
  unauthenticated : Bool
  authenticated : Option Bool
  checks : List (Bool × Bool)

def GateResult.judgement (result : GateResult) : Judgement where
  ok := result.ok
  vacuous := result.vacuous
  uncorroborated := result.uncorroborated
  unauthenticated := result.unauthenticated
  authenticated := result.authenticated
  checks := result.checks.map CheckResult.judged

/-- The gate's answer from what its checks say. -/
def judge (env : Environment) (spec : Spec) (clean : Bool) (checks : List (Bool × Bool))
    (authenticated : Option Bool) :
    Judgement :=
  let assertsAnything := checks.any (·.2)
  let uncorroborated := spec.requireCorroboration.getD env.requireCorroboration && assertsAnything
  let unauthenticated := spec.requireSignature.getD env.requireSignature && assertsAnything &&
    authenticated != some true
  { ok := clean && assertsAnything && (checks.all fun check => !check.2 || check.1) &&
    !uncorroborated &&
      !unauthenticated
    vacuous := !checks.isEmpty && !assertsAnything
    uncorroborated := uncorroborated
    unauthenticated := unauthenticated
    authenticated := authenticated
    checks := checks }

variable (same h env ontology spec) in
theorem evaluate_judge (events : List Event) (reachable complete : Bool) :
    (evaluateEvents same h env ontology spec events reachable complete).map GateResult.judgement =
      ((spec.rules env).mapM fun rule =>
        (runCheck same ontology spec (StableOrder.sorted streamKey events)
        (reachable && complete) rule).map CheckResult.judged).bind fun checks =>
          (authenticate h env spec (StableOrder.sorted streamKey events) (checks.any (·.2))).map
            (judge env spec (reachable && complete) checks) := by
  rw [← mapM_judged, evaluateEvents]
  cases (spec.rules env).mapM (runCheck same ontology spec (StableOrder.sorted streamKey events)
    (reachable && complete)) with
  | none => rfl
  | some checks =>
    have asserts : (!(checks.filter CheckResult.gates).isEmpty) =
        (checks.map CheckResult.judged).any (·.2) := by
      rw [Bool.eq_iff_iff]
      simp [CheckResult.judged]
    have required : (checks.filter CheckResult.gates).all CheckResult.passed =
        (checks.map CheckResult.judged).all fun check => !check.2 || check.1 := by
      rw [Bool.eq_iff_iff]
      simp [CheckResult.judged]
    have empty : checks.isEmpty = (checks.map CheckResult.judged).isEmpty := by cases checks <;> rfl
    simp only [Option.bind_eq_bind, Option.bind_some, Option.map_some, asserts]
    cases authenticate h env spec (StableOrder.sorted streamKey events)
      ((checks.map CheckResult.judged).any (·.2)) with
    | none => rfl
    | some authenticated =>
      simp only [Option.bind_some, Option.map_some, Option.pure_def, GateResult.judgement, judge,
        required, empty]

/-- A gate answers the same for the same events in any order. Where it asks for a chain, the events
must not share a key. -/
theorem evaluate_order_free (same : Json → Json → Bool) (h : Hashing) (env : Environment)
    (ontology : Option Ontology)
    (spec : Spec) {events others : List Event} (perm : events.Perm others)
    (apart : spec.requireSignature.getD env.requireSignature = true →
      ∀ a ∈ events, ∀ b ∈ events, streamKey a = streamKey b → a = b) (reachable complete : Bool) :
    (evaluateEvents same h env ontology spec events reachable complete).map GateResult.judgement =
      (evaluateEvents same h env ontology spec others reachable complete).map
        GateResult.judgement := by
  have checked (asserts : Bool) :
      authenticate h env spec (StableOrder.sorted streamKey events) asserts =
      authenticate h env spec (StableOrder.sorted streamKey others) asserts := by
    cases asked : spec.requireSignature.getD env.requireSignature with
    | false => simp only [authenticate, asked, Bool.false_and, if_neg Bool.false_ne_true]
    | true => rw [StableOrder.sorted_congr streamKey perm (apart asked)]
  rw [evaluate_judge, evaluate_judge]
  simp only [runCheck_judged perm, checked]

def orderSpec : Spec where
  expect := [{ mustOrder := some [lit "a", lit "b"] }]
  requireSignature := some true

/-- The records of the chain as a store returns them. -/
def storedRecords : List Event := (sampleHashing.signChain false sampleRecords (lit "k")).zipIdx.map
    fun entry =>
  setEntry (lit "_timestamp") (.int entry.2) entry.1

theorem evaluate_order_free_reverse :
    (evaluateEvents sameText sampleHashing ⟨false, false, false, lit "k"⟩ none orderSpec
      storedRecords true true).map
        GateResult.judgement =
      (evaluateEvents sameText sampleHashing ⟨false, false, false, lit "k"⟩ none orderSpec
        storedRecords.reverse true true).map
        GateResult.judgement := by
  refine evaluate_order_free sameText sampleHashing ⟨false, false, false, lit "k"⟩ none orderSpec
    (List.reverse_perm storedRecords).symm (fun _ a first b second same => ?_) true true
  have apart : (storedRecords.map streamKey).Nodup := by decide +kernel
  exact List.inj_on_of_nodup_map apart first second same

end Metahumotonic.Gate
