import Metahumotonic.Gate.Anticipation

/-! A set of monitors that is fed a stream as it arrives against the gate that reads the stream when
it is complete. -/
namespace Metahumotonic.Gate
open Metahumotonic.Library

variable {same : Json → Json → Bool} {m : Monitor} {indicators : List (Text × Matcher)}
    {ontology : Option Ontology}
  {allow : List Matcher} {rule : Rule}

namespace Monitor

/-- The monitor after the events of a stream whose first one has number `k`. -/
def fed (same : Json → Json → Bool) (m : Monitor) (events : List Event) (k : ℕ) : Monitor :=
  (automaton same).run m (events.zipIdx k)

theorem runMonitor_eq (m : Monitor) (events : List Event) (reachable : Bool) :
    runMonitor same m events reachable = (m.fed same events 0).collapse reachable := rfl

@[simp] theorem fed_nil (k : ℕ) : m.fed same [] k = m := rfl

theorem fed_cons (ev : Event) (events : List Event) (k : ℕ) :
    m.fed same (ev :: events) k = (m.step same ev k).fed same events (k + 1) := rfl

theorem fed_append (before after : List Event) (k : ℕ) :
    m.fed same (before ++ after) k = (m.fed same before k).fed same after (k + before.length) := by
  rw [fed, List.zipIdx_append, Automaton.run_append]
  rfl

theorem fed_snoc (events : List Event) (ev : Event) (k : ℕ) :
    m.fed same (events ++ [ev]) k = (m.fed same events k).step same ev (k + events.length : ℕ) := by
  rw [fed_append, fed_cons, fed_nil]

theorem fed_told (same : Json → Json → Bool) (told : m.Told) (events : List Event) (k : ℕ) :
    (m.fed same events k).Told :=
  (automaton same).run_kept (fun _ _ held => held.step) told _

/-- A settled monitor keeps its verdict and the place where it settled. -/
theorem fed_settled (same : Json → Json → Bool) (settled : m.verdict ≠ .pend)
    (events : List Event) (k : ℕ) :
    (m.fed same events k).latched = m.latched := by
  induction events generalizing m k with
  | nil => rfl
  | cons ev events ih =>
    have next : (m.step same ev k).latched = m.latched := step_settled same settled
    rw [fed_cons, ih (by rw [verdict, next]; exact settled), next]

end Monitor

/-- Where a monitor says that it settled: nowhere, before the stream, or at the first event after
which the verdict stood. -/
def SettledAt (same : Json → Json → Bool) (m : Monitor) (events : List Event) : Prop :=
  let final := (runMonitor same m events true).2
  (final = {}) ∨ (final = ⟨.sat, some (-1)⟩ ∧ m.latched = final) ∨
    ∃ n < events.length, final.settledAt = some (n : ℤ) ∧ final.verdict ≠ .pend ∧
      (runMonitor same m (events.take n) true).2.verdict = .pend ∧
      (runMonitor same m (events.take (n + 1)) true).2 = final

/-- A monitor starts open, or settled before the stream. -/
theorem compile_latched (compiled : compileCheck indicators ontology allow rule = some m) :
    m.latched = {} ∨ m.latched = ⟨.sat, some (-1)⟩ := by
  unfold compileCheck at compiled
  split at compiled
  · cases compiled
    exact .inl rfl
  · split at compiled
    · cases compiled
      exact .inl rfl
    · split at compiled
      · obtain ⟨sequence, _, rfl⟩ := Option.map_eq_some_iff.mp compiled
        exact .inl rfl
      · split at compiled
        · cases compiled
          exact .inl rfl
        · split at compiled
          · cases compiled
            exact .inl rfl
          · obtain ⟨op, _, rfl⟩ := Option.map_eq_some_iff.mp compiled
            simp only [Monitor.latched, CountMonitor.init]
            split
            · exact .inr rfl
            · exact .inl rfl

theorem settledAt (compiled : compileCheck indicators ontology allow rule = some m)
    (events : List Event) :
    SettledAt same m events := by
  unfold SettledAt
  simp only [Monitor.runMonitor_eq, Monitor.collapse]
  rcases compile_latched compiled with still | early
  · -- the last event settles the monitor, or it was settled or open before
    induction events using List.reverseRecOn with
    | nil => exact .inl still
    | append_singleton events ev ih =>
      by_cases before : (m.fed same events 0).verdict = .pend
      · have blank : (m.fed same events 0).latched = {} := by
          rcases ih with blank | ⟨early, _⟩ | ⟨n, _, _, settled, _⟩
          · exact blank
          · rw [Monitor.verdict, early] at before
            cases before
          · exact absurd before settled
        rw [Monitor.fed_snoc]
        rcases Monitor.step_latched same (m.fed same events 0) ev (0 + events.length : ℕ) with
          kept | ⟨v, known, latches⟩
        · exact .inl (kept.trans blank)
        · have now := latches
          rw [blank, Latched.latch, if_pos rfl] at now
          refine .inr (.inr ⟨events.length, by simp, ?_, ?_, ?_, ?_⟩)
          · rw [now, Nat.zero_add]
          · rw [now]
            exact known
          · rw [List.take_left]
            exact before
          · rw [List.take_of_length_le (by simp), Monitor.fed_snoc]
      · have kept := Monitor.fed_settled same before [ev] events.length
        rw [Monitor.fed_append, Nat.zero_add, kept]
        rcases ih with blank | ⟨early, _⟩ | ⟨n, less, place, settled, pending, then_on⟩
        · rw [Monitor.verdict, blank] at before
          exact absurd rfl before
        · exact .inr (.inl ⟨early, by assumption⟩)
        · refine .inr (.inr ⟨n, by simp; omega, place, settled, ?_, ?_⟩)
          · rwa [List.take_append_of_le_length less.le]
          · rwa [List.take_append_of_le_length less]
  · have settled : m.verdict ≠ .pend := by
      rw [Monitor.verdict, early]
      decide
    have kept := Monitor.fed_settled same settled events 0
    exact .inr (.inl ⟨kept.trans early, by rw [kept]⟩)

namespace LiveMonitorSet

theorem fromRules_compiled {rules : List Rule} {s : LiveMonitorSet}
    (compiled : fromRules indicators ontology allow rules = some s) :
    s.idx = 0 ∧ ∀ m ∈ s.monitors, ∃ rule ∈ rules, compileCheck indicators ontology allow rule =
      some m := by
  obtain ⟨monitors, all, rfl⟩ := Option.map_eq_some_iff.mp compiled
  refine ⟨rfl, ?_⟩
  dsimp only
  clear compiled
  induction rules generalizing monitors with
  | nil =>
    cases all
    exact List.forall_mem_nil _
  | cons rule rules ih =>
    simp only [List.mapM_cons, Option.bind_eq_bind, Option.bind_eq_some_iff, Option.pure_def,
      Option.some.injEq] at all
    obtain ⟨first, compiles, rest, later, rfl⟩ := all
    intro m member
    rcases List.mem_cons.mp member with rfl | member
    · exact ⟨rule, List.mem_cons_self, compiles⟩
    · obtain ⟨other, inside, its⟩ := ih rest later m member
      exact ⟨other, List.mem_cons_of_mem _ inside, its⟩

/-- Feeding the set feeds every monitor, with the numbers of the stream. -/
theorem feed_all (events : List Event) (s : LiveMonitorSet) :
    events.foldl (feed same) s = ⟨s.monitors.map fun m => m.fed same events s.idx,
      s.idx + events.length⟩ := by
  induction events generalizing s with
  | nil => simp
  | cons ev events ih =>
    rw [List.foldl_cons, ih]
    simp only [feed, List.map_map, List.length_cons, LiveMonitorSet.mk.injEq]
    exact ⟨rfl, by omega⟩

end LiveMonitorSet

/-- What a set of monitors says while the stream is still running is what the gate says at its end:
a settled verdict is the outcome over every continuation, it is reported unchanged, and `settled_at`
is the first event after which it stood. -/
theorem live_verdicts_stand (same : Json → Json → Bool) (rules : List Rule) (set : LiveMonitorSet)
    (compiled : LiveMonitorSet.fromRules indicators ontology allow rules = some set)
    (before after : List Event) :
    let live := before.foldl (LiveMonitorSet.feed same) set
    live.collapse true true = set.monitors.map (fun m => runMonitor same m before true) ∧
      ∀ (i : ℕ) (m w : Monitor), set.monitors[i]? = some m → live.monitors[i]? = some w →
        (w.verdict = .sat → (runMonitor same m (before ++ after) true).1 = true) ∧
        (w.verdict = .viol → (runMonitor same m (before ++ after) true).1 = false) ∧
        (w.verdict ≠ .pend → (runMonitor same m (before ++ after) true).2 = w.latched) ∧
        SettledAt same m (before ++ after) := by
  intro live
  obtain ⟨start, origin⟩ := LiveMonitorSet.fromRules_compiled compiled
  have fed : live.monitors = set.monitors.map fun m => m.fed same before 0 := by
    simp only [live, LiveMonitorSet.feed_all, start]
  refine ⟨?_, fun i m w there now => ?_⟩
  · rw [LiveMonitorSet.collapse, fed, List.map_map]
    rfl
  · rw [fed, List.getElem?_map, there] at now
    cases now
    obtain ⟨rule, _, compiles⟩ := origin m (List.mem_of_getElem? there)
    have sound := (Monitor.fed_told same (Monitor.told_compile compiles) before 0).sound same
    rw [Monitor.runMonitor_eq, Monitor.fed_append]
    refine ⟨fun sat => ?_, fun viol => ?_, fun settled => Monitor.fed_settled same settled after _,
      settledAt compiles _⟩
    · exact sound.1 sat _
    · exact sound.2 viol _

/-- `==` on texts. -/
def sameText (v w : Json) : Bool :=
  match v, w with
  | .text s, .text t => s == t
  | _, _ => false

def onceRule : Rule := { matcher := { event := some (lit "a") }, op := lit "==" }

def onceMonitor : CountMonitor := .init ⟨some (lit "a"), []⟩ .eq 1

/-- The second event decides that there was not one. -/
theorem live_verdicts_stand_once : (runMonitor sameText (.count onceMonitor)
    ([[(lit "event", .text (lit "a"))], [(lit "event", .text (lit "a"))]] ++
      [[(lit "event", .text (lit "b"))]]) true).1 =
      false := by
  have compiled : LiveMonitorSet.fromRules [] none [] [onceRule] = some ⟨[.count onceMonitor], 0⟩ :=
    rfl
  have stand := live_verdicts_stand sameText [onceRule] ⟨[.count onceMonitor], 0⟩ compiled
    [[(lit "event", .text (lit "a"))], [(lit "event", .text (lit "a"))]]
    [[(lit "event", .text (lit "b"))]]
  exact (stand.2 0 (.count onceMonitor) _ rfl rfl).2.1 (by decide)

end Metahumotonic.Gate
