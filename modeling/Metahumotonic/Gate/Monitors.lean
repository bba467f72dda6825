import Metahumotonic.Library.Json
import Metahumotonic.Library.Anticipation
import Mathlib.Data.List.Chain
import Mathlib.Data.Rat.Defs
import Mathlib.Algebra.Order.Ring.Rat

/-! The monitors of the gate (`_vendor/ooptdd/engine/monitor.py`): each check is an automaton that
is fed the event stream and may settle before it ends. The monitors whose collapse is floating-point
arithmetic (`RatioMonitor`, `InvariantMonitor`, `MetamorphicMonitor`) never settle and are not
modelled. -/
namespace Metahumotonic.Gate
open Metahumotonic.Library

/-- An event is a dict; what is not there reads as `None`. -/
abbrev Event := Members

namespace Event

def get (ev : Event) (key : Text) : Json := (ev.lookup key).getD .null

def name (ev : Event) : Option Text :=
  match ev.get (lit "event") with
  | .text name => some name
  | _ => none

/-- `_timestamp`. Times that are floats are not modelled: they are read as absent. -/
def timestamp (ev : Event) : Option ℤ :=
  match ev.get (lit "_timestamp") with
  | .int ts => some ts
  | _ => none

/-- `_seq`, with `0` where there is none. -/
def seq (ev : Event) : ℤ :=
  match ev.get (lit "_seq") with
  | .int seq => seq
  | _ => 0

end Event

/-- The operators after `_norm_op`; any other text is a `KeyError` in `_OPS`. -/
inductive Op where
  | ge | gt | eq | ne | le | lt
  deriving DecidableEq

def normOp (op : Text) : Option Op :=
  if op ∈ [lit ">=", lit "gte", lit "ge"] then some .ge
  else if op ∈ [lit ">", lit "gt"] then some .gt
  else if op ∈ [lit "==", lit "eq"] then some .eq
  else if op ∈ [lit "!=", lit "ne"] then some .ne
  else if op ∈ [lit "<=", lit "lte", lit "le"] then some .le
  else if op ∈ [lit "<", lit "lt"] then some .lt
  else none

def Op.compare (op : Op) (got want : ℤ) : Bool :=
  match op with
  | .ge => decide (want ≤ got)
  | .gt => decide (want < got)
  | .eq => decide (got = want)
  | .ne => decide (got ≠ want)
  | .le => decide (got ≤ want)
  | .lt => decide (got < want)

/-- A matcher of a rule: `indicatorRef`, `event` and `where`. -/
structure Matcher where
  indicatorRef : Option Text := none
  event : Option Text := none
  fields : Members := []

/-- What a matcher resolves to: the name, if any, and the fields that must be equal. -/
structure Resolved where
  event : Option Text
  fields : Members

def resolveMatcher (indicators : List (Text × Matcher)) (m : Matcher) : Resolved :=
  match m.indicatorRef with
  | some ref =>
    let base := (indicators.lookup ref).getD {}
    ⟨m.event.or base.event, m.fields.foldl (fun fields entry => setEntry entry.1 entry.2 fields)
      base.fields⟩
  | none => ⟨m.event, m.fields⟩

/-- `_matches`; `same` is Python's `==`. -/
def Resolved.accepts (same : Json → Json → Bool) (m : Resolved) (ev : Event) : Bool :=
  (m.event.isNone || ev.name == m.event) && m.fields.all fun entry => same (ev.get entry.1) entry.2

/-- The verdict of a monitor and where it settled. -/
structure Latched where
  verdict : Verdict := .pend
  settledAt : Option ℤ := none
  deriving DecidableEq

/-- `_latch`: the first verdict stays. -/
def Latched.latch (l : Latched) (verdict : Verdict) (idx : ℤ) : Latched :=
  if l.verdict = .pend then ⟨verdict, some idx⟩ else l

structure CountMonitor where
  matcher : Resolved
  op : Op
  want : ℤ
  got : ℤ := 0
  latched : Latched := {}

namespace CountMonitor

def init (matcher : Resolved) (op : Op) (want : ℤ) : CountMonitor where
  matcher := matcher
  op := op
  want := want
  latched := if op = .ge ∧ want ≤ 0 then Latched.latch {} .sat (-1) else {}

def step (same : Json → Json → Bool) (m : CountMonitor) (ev : Event) (idx : ℤ) : CountMonitor :=
  if m.matcher.accepts same ev then
    let got := m.got + 1
    { m with
      got := got
      latched :=
        if (m.op = .ge ∨ m.op = .gt) ∧ m.op.compare got m.want = true then m.latched.latch .sat idx
        else if m.op = .eq ∧ m.want < got then m.latched.latch .viol idx
        else if m.op = .le ∧ m.want < got then m.latched.latch .viol idx
        else if m.op = .lt ∧ m.want ≤ got then m.latched.latch .viol idx
        else m.latched }
  else m

def passes (m : CountMonitor) : Bool := m.op.compare m.got m.want

/-- Such a check cannot fail and does not gate. -/
def tautological (m : CountMonitor) : Bool := decide (m.op = .ge ∧ m.want ≤ 0)

end CountMonitor

/-- `_resolved` with `_hit`. -/
structure PresentMonitor where
  slots : List (Resolved × Bool)
  latched : Latched := {}

namespace PresentMonitor

def init (resolved : List Resolved) : PresentMonitor where
  slots := resolved.map fun m => (m, false)

def step (same : Json → Json → Bool) (m : PresentMonitor) (ev : Event) (idx : ℤ) : PresentMonitor :=
  let slots := m.slots.map fun slot => (slot.1, slot.2 || slot.1.accepts same ev)
  ⟨slots, if slots.all (·.2) then m.latched.latch .sat idx else m.latched⟩

def missing (m : PresentMonitor) : List Resolved := (m.slots.filter fun slot => !slot.2).map (·.1)

def passes (m : PresentMonitor) : Bool := m.missing.isEmpty

end PresentMonitor

structure AbsentMonitor where
  resolved : List Resolved
  allow : List Resolved
  offenders : List Event := []
  latched : Latched := {}

namespace AbsentMonitor

/-- An event that a matcher matches and that is not on the allow list. -/
def offends (same : Json → Json → Bool) (m : AbsentMonitor) (ev : Event) : Bool :=
  !(m.allow.any fun a => a.accepts same ev) && m.resolved.any fun r => r.accepts same ev

def step (same : Json → Json → Bool) (m : AbsentMonitor) (ev : Event) (idx : ℤ) : AbsentMonitor :=
  if m.offends same ev
    then { m with offenders := m.offenders ++ [ev], latched := m.latched.latch .viol idx } else m

def passes (m : AbsentMonitor) : Bool := m.offenders.isEmpty

end AbsentMonitor

/-- `(ts, seq)` pairs as Python compares them. -/
def keyLe (a b : ℤ × ℤ) : Prop := a.1 < b.1 ∨ a.1 = b.1 ∧ a.2 ≤ b.2

instance (a b : ℤ × ℤ) : Decidable (keyLe a b) := inferInstanceAs (Decidable (_ ∨ _))

/-- `firsts` and `_keys`: the first occurrence of each name that has one. `bound` is
`within_s * 1_000_000`, if there is a bound. -/
structure OrderMonitor where
  sequence : List Text
  bound : Option ℚ
  firsts : List (Text × (ℤ × ℤ)) := []
  latched : Latched := {}

namespace OrderMonitor

def keys (m : OrderMonitor) : List (ℤ × ℤ) := m.sequence.filterMap fun name => m.firsts.lookup name

def missing (m : OrderMonitor) : List Text := m.sequence.filter fun name =>
    (m.firsts.lookup name).isNone

/-- `_ordered_so_far`. -/
def orderedSoFar (m : OrderMonitor) : Bool := decide (m.keys.IsChain keyLe)

/-- `_gaps_exceeded`: neighbours of the sequence that are further apart than the bound. -/
def gapsExceeded (m : OrderMonitor) : List (Text × Text) :=
  match m.bound with
  | none => []
  | some bound => (m.sequence.zip m.sequence.tail).filter fun pair =>
      match m.firsts.lookup pair.1, m.firsts.lookup pair.2 with
      | some a, some b => decide (bound < (b.1 - a.1 : ℤ))
      | _, _ => false

/-- The first occurrence of a name that is waited for. -/
def note (m : OrderMonitor) (name : Text) (key : ℤ × ℤ) : OrderMonitor :=
  match m.firsts.lookup name with
  | none => { m with firsts := (name, key) :: m.firsts }
  | some _ => m

def step (m : OrderMonitor) (ev : Event) (idx : ℤ) : OrderMonitor :=
  match ev.name, ev.timestamp with
  | some name, some ts =>
    if name ∈ m.sequence then
      let m := m.note name (ts, ev.seq)
      { m with
        latched :=
          if m.orderedSoFar = false ∨ m.gapsExceeded ≠ [] then m.latched.latch .viol idx
          else if m.missing = [] then m.latched.latch .sat idx
          else m.latched }
    else m
  | _, _ => m

def passes (m : OrderMonitor) : Bool :=
  m.missing.isEmpty && m.orderedSoFar && m.gapsExceeded.isEmpty

end OrderMonitor

/-- `bound` is `every_s * 1_000_000`. -/
structure HeartbeatMonitor where
  name : Text
  bound : ℚ
  beats : ℕ := 0
  lastTs : Option ℤ := none
  maxGap : ℤ := 0
  latched : Latched := {}

namespace HeartbeatMonitor

def step (m : HeartbeatMonitor) (ev : Event) (idx : ℤ) : HeartbeatMonitor :=
  match ev.timestamp with
  | some ts =>
    if ev.name = some m.name then
      match m.lastTs with
      | some last => { m with
          beats := m.beats + 1
          lastTs := some ts
          maxGap := max m.maxGap (ts - last)
          latched := if m.bound < (ts - last : ℤ) then m.latched.latch .viol idx else m.latched }
      | none => { m with beats := m.beats + 1, lastTs := some ts }
    else m
  | none => m

def passes (m : HeartbeatMonitor) : Bool := m.beats != 0 && decide ((m.maxGap : ℚ) ≤ m.bound)

end HeartbeatMonitor

/-- An event type is known by the problems that `validate` finds in an event. -/
structure EventType where
  validate : Event → List Text

structure Ontology where
  types : Text → Option EventType
  closedWorld : Bool

/-- `target` is `none` for `None` and `"*"`. -/
structure ConformsMonitor where
  target : Option Text
  ontology : Option Ontology
  closedWorld : Bool
  checked : ℕ := 0
  violations : List (Option Text × ℤ × List Text) := []
  unknown : List (Option Text) := []
  latched : Latched := {}

namespace ConformsMonitor

def init (target : Option Text) (ontology : Option Ontology) (closedWorld : Option Bool) :
    ConformsMonitor where
  target := if target = some (lit "*") then none else target
  ontology := ontology
  closedWorld := closedWorld.getD ((ontology.map Ontology.closedWorld).getD false)

def step (m : ConformsMonitor) (ev : Event) (idx : ℤ) : ConformsMonitor :=
  match m.ontology with
  | none => m
  | some ontology =>
    if m.target.isSome ∧ ev.name ≠ m.target then m
    else
      match ev.name.bind ontology.types with
      | none =>
        if m.closedWorld then
          { m with
            unknown := m.unknown ++ [ev.name]
            violations := m.violations ++
              [(ev.name, idx, [lit "unknown_event_type (closed-world drift)"])]
            latched := m.latched.latch .viol idx }
        else m
      | some type =>
        let problems := type.validate ev
        if problems = [] then { m with checked := m.checked + 1 }
        else { m with
          checked := m.checked + 1
          violations := m.violations ++ [(ev.name, idx, problems)]
          latched := m.latched.latch .viol idx }

def passes (m : ConformsMonitor) : Bool := m.ontology.isSome && m.violations.isEmpty

end ConformsMonitor

inductive Monitor where
  | count (m : CountMonitor)
  | present (m : PresentMonitor)
  | absent (m : AbsentMonitor)
  | order (m : OrderMonitor)
  | heartbeat (m : HeartbeatMonitor)
  | conforms (m : ConformsMonitor)

namespace Monitor

def step (same : Json → Json → Bool) : Monitor → Event → ℤ → Monitor
  | count m, ev, idx => count (m.step same ev idx)
  | present m, ev, idx => present (m.step same ev idx)
  | absent m, ev, idx => absent (m.step same ev idx)
  | order m, ev, idx => order (m.step ev idx)
  | heartbeat m, ev, idx => heartbeat (m.step ev idx)
  | conforms m, ev, idx => conforms (m.step ev idx)

def latched : Monitor → Latched
  | count m => m.latched
  | present m => m.latched
  | absent m => m.latched
  | order m => m.latched
  | heartbeat m => m.latched
  | conforms m => m.latched

/-- What `collapse` makes of the prefix that was read, from a store that was reached. -/
def passes : Monitor → Bool
  | count m => m.passes
  | present m => m.passes
  | absent m => m.passes
  | order m => m.passes
  | heartbeat m => m.passes
  | conforms m => m.passes

def verdict (m : Monitor) : Verdict := m.latched.verdict

/-- `collapse`: `passed`, `verdict` and `settled_at`. -/
def collapse (m : Monitor) (reachable : Bool) : Bool × Latched := (reachable && m.passes, m.latched)

end Monitor

/-- The predicates that a rule can hold; `optional` and `pending` are read by the gate. The times of
`every_s` and `within_s` are in microseconds. -/
structure Rule where
  absent : Option (List Matcher) := none
  forbid : Option (List Matcher) := none
  heartbeat : Option (Text × ℚ) := none
  mustOrder : Option (List Text) := none
  trajectory : Option (List Text) := none
  within : Option ℚ := none
  present : Option (List Matcher) := none
  conforms : Option (Option Text) := none
  closedWorld : Option Bool := none
  matcher : Matcher := {}
  op : Text := lit ">="
  target : Option ℤ := none
  count : ℤ := 1
  optional : Bool := false
  pending : Bool := false

/-- `compile_check`; nothing where it, or the collapse of what it builds, raises. -/
def compileCheck (indicators : List (Text × Matcher)) (ontology : Option Ontology)
    (allow : List Matcher)
    (rule : Rule) : Option Monitor :=
  match rule.absent.or rule.forbid with
  | some matchers =>
    some (.absent { resolved := matchers.map (resolveMatcher indicators), allow := allow.map (resolveMatcher indicators) })
  | none =>
    match rule.heartbeat with
    | some (name, bound) => some (.heartbeat { name := name, bound := bound })
    | none =>
      if rule.mustOrder.isSome ∨ rule.trajectory.isSome then
        ((rule.mustOrder.filter (· ≠ [])).or rule.trajectory).map fun sequence =>
          .order { sequence := sequence, bound := rule.within }
      else
        match rule.present with
        | some matchers => some (.present (.init (matchers.map (resolveMatcher indicators))))
        | none =>
          match rule.conforms with
          | some target => some (.conforms (.init target ontology rule.closedWorld))
          | none => (normOp rule.op).map fun op =>
              .count (.init (resolveMatcher indicators rule.matcher) op
                (rule.target.getD rule.count))

/-- `run_monitor`: the whole stream, one event after the other. -/
def runMonitor (same : Json → Json → Bool) (m : Monitor) (events : List Event) (reachable : Bool) :
    Bool × Latched :=
  (events.zipIdx.foldl (fun m e => m.step same e.1 e.2) m).collapse reachable

/-- Monitors that are fed a stream as it arrives. -/
structure LiveMonitorSet where
  monitors : List Monitor
  idx : ℕ := 0

namespace LiveMonitorSet

def fromRules (indicators : List (Text × Matcher)) (ontology : Option Ontology)
    (allow : List Matcher)
    (rules : List Rule) : Option LiveMonitorSet :=
  (rules.mapM (compileCheck indicators ontology allow)).map fun monitors => ⟨monitors, 0⟩

def feed (same : Json → Json → Bool) (s : LiveMonitorSet) (ev : Event) : LiveMonitorSet :=
  ⟨s.monitors.map fun m => m.step same ev s.idx, s.idx + 1⟩

def verdicts (s : LiveMonitorSet) : List Verdict := s.monitors.map Monitor.verdict

def collapse (s : LiveMonitorSet) (reachable complete : Bool) : List (Bool × Latched) :=
  s.monitors.map fun m => m.collapse (reachable && complete)

end LiveMonitorSet

end Metahumotonic.Gate
