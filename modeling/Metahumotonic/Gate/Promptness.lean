import Metahumotonic.Gate.Live
import Mathlib.Algebra.Order.Archimedean.Basic

/-! When a monitor commits at once to what has become inevitable, as the kernel promises, and when
it stays open although only one end is left. -/
namespace Metahumotonic.Gate
open Metahumotonic.Library

variable {same : Json → Json → Bool}

theorem Latched.pend_of_latch {l : Latched} {v : Verdict} {idx : ℤ} (known : v ≠ .pend) :
    (l.latch v idx).verdict ≠ .pend := by
  rw [latch_verdict]
  split
  · exact known
  · assumption

namespace CountMonitor

variable {m : CountMonitor} {ev : Event} {idx : ℤ}

/-- What is known of a monitor that has not settled. -/
structure Prompt (m : CountMonitor) : Prop where
  nonneg : 0 ≤ m.got
  noticed : m.latched.verdict = .pend → ¬ (m.op = .ge ∧ m.want ≤ m.got) ∧
    (m.got = 0 ∨ ¬ m.Holds ∧ ¬ m.Broken)
  still : m.op = .ne ∨ m.got = 0 ∧ m.op ≠ .ge → m.latched.verdict = .pend

/-- Only one end is left, and the monitor is open: thresholds below zero before the first match, and
`!=` after the threshold. -/
def Unnoticed (m : CountMonitor) : Prop :=
  m.got = 0 ∧ ((m.op = .gt ∨ m.op = .eq ∨ m.op = .le) ∧ m.want < 0 ∨ m.op = .lt ∧ m.want ≤ 0) ∨
    m.op = .ne ∧ m.want < m.got

theorem prompt_init (matcher : Resolved) (op : Op) (want : ℤ) : (init matcher op want).Prompt where
  nonneg := le_refl 0
  noticed pending := by
    refine ⟨fun met => ?_, .inl rfl⟩
    have early : (init matcher op want).latched = Latched.latch {} .sat (-1) := if_pos met
    rw [early] at pending
    cases pending
  still quiet := by
    have other : ¬ (op = .ge ∧ want ≤ 0) := by
      rintro ⟨rfl, _⟩
      rcases quiet with same | ⟨_, same⟩
      · cases same
      · exact same rfl
    have late : (init matcher op want).latched = {} := if_neg other
    rw [late]

theorem prompt_settled (positive : 0 < m.got) (other : m.op ≠ .ne)
    (settled : m.latched.verdict ≠ .pend) :
    m.Prompt where
  nonneg := positive.le
  noticed pending := absurd pending settled
  still quiet := by
    rcases quiet with op | ⟨zero, _⟩
    · exact absurd op other
    · omega

theorem Prompt.step (prompt : m.Prompt) : (m.step same ev idx).Prompt := by
  cases accepted : m.matcher.accepts same ev with
  | false => rwa [step_rejected accepted]
  | true =>
    have positive : 0 < m.got + 1 := by
      have := prompt.nonneg
      omega
    simp only [CountMonitor.step, accepted, if_true]
    split_ifs with reached equal most less
    · refine prompt_settled positive ?_ (Latched.pend_of_latch (by decide))
      rcases reached with ⟨op | op, _⟩ <;> simp [op]
    · exact prompt_settled positive (by simp [equal.1]) (Latched.pend_of_latch (by decide))
    · exact prompt_settled positive (by simp [most.1]) (Latched.pend_of_latch (by decide))
    · exact prompt_settled positive (by simp [less.1]) (Latched.pend_of_latch (by decide))
    · have low : ¬ (m.op = .ge ∧ m.want ≤ m.got + 1) := fun met =>
        reached ⟨.inl met.1, by simpa [met.1, Op.compare] using met.2⟩
      have short : ¬ (m.op = .gt ∧ m.want < m.got + 1) := fun met =>
        reached ⟨.inr met.1, by simpa [met.1, Op.compare] using met.2⟩
      refine ⟨positive.le, fun _ => ⟨low, .inr ⟨fun holds => holds.elim low short, ?_⟩⟩,
        fun quiet => ?_⟩
      · rintro (⟨op | op, met⟩ | met)
        · exact equal ⟨op, met⟩
        · exact most ⟨op, met⟩
        · exact less met
      · rcases quiet with op | ⟨zero, _⟩
        · exact prompt.still (.inl op)
        · exact absurd zero positive.ne'

/-- Where both ends are left, more matches lead to either. -/
theorem Prompt.reachable (prompt : m.Prompt) (pending : m.latched.verdict = .pend) (noticed : ¬ m.Unnoticed)
    (outcome : Bool) : ∃ n : ℕ, m.op.compare (m.got + n) m.want = outcome := by
  obtain ⟨low, rest⟩ := prompt.noticed pending
  have nonneg := prompt.nonneg
  obtain ⟨n, enough⟩ : ∃ n : ℕ, m.want < m.got + n := ⟨(m.want - m.got + 1).toNat, by omega⟩
  simp only [Unnoticed, not_or, not_and] at noticed
  cases op : m.op with
  | ge =>
    cases outcome with
    | true => exact ⟨n, by simp only [Op.compare, decide_eq_true_eq]; omega⟩
    | false => exact ⟨0, by simp only [Op.compare, decide_eq_false_iff_not]; have := mt (And.intro op) low; omega⟩
  | gt =>
    have below : m.got ≤ m.want := by
      rcases rest with zero | ⟨holds, _⟩
      · have := (noticed.1 zero).1 (.inl op)
        omega
      · exact not_lt.mp fun above => holds (.inr ⟨op, above⟩)
    cases outcome with
    | true => exact ⟨n, by simpa [Op.compare] using enough⟩
    | false => exact ⟨0, by simpa [Op.compare] using below⟩
  | eq =>
    have below : m.got ≤ m.want := by
      rcases rest with zero | ⟨_, broken⟩
      · have := (noticed.1 zero).1 (.inr (.inl op))
        omega
      · exact not_lt.mp fun above => broken (.inl ⟨.inl op, above⟩)
    cases outcome with
    | true => exact ⟨(m.want - m.got).toNat, by simp only [Op.compare, decide_eq_true_eq]; omega⟩
    | false => exact ⟨n, by simp only [Op.compare, decide_eq_false_iff_not]; omega⟩
  | ne =>
    have below := noticed.2 op
    cases outcome with
    | true => exact ⟨n, by simp only [Op.compare, decide_eq_true_eq]; omega⟩
    | false => exact ⟨(m.want - m.got).toNat, by
      simp only [Op.compare, decide_eq_false_iff_not]; omega⟩
  | le =>
    have below : m.got ≤ m.want := by
      rcases rest with zero | ⟨_, broken⟩
      · have := (noticed.1 zero).1 (.inr (.inr op))
        omega
      · exact not_lt.mp fun above => broken (.inl ⟨.inr op, above⟩)
    cases outcome with
    | true => exact ⟨0, by simpa [Op.compare] using below⟩
    | false => exact ⟨n, by simpa [Op.compare] using enough⟩
  | lt =>
    have below : m.got < m.want := by
      rcases rest with zero | ⟨_, broken⟩
      · have := (noticed.1 zero).2 op
        omega
      · exact not_le.mp fun above => broken (.inr ⟨op, above⟩)
    cases outcome with
    | true => exact ⟨0, by simpa [Op.compare] using below⟩
    | false => exact ⟨n, by simp only [Op.compare, decide_eq_false_iff_not]; omega⟩

/-- Matches, one after the other. -/
theorem run_matches {ev : Event} (accepted : m.matcher.accepts same ev = true) (n : ℕ) : ∃ latched,
    (Monitor.automaton same).run (.count m) (List.replicate n (ev, 0)) =
      .count { m with got := m.got + n, latched := latched } := by
  induction n generalizing m with
  | zero => exact ⟨m.latched, by simp⟩
  | succ n ih =>
    obtain ⟨latched, next⟩ :
        ∃ latched, m.step same ev (0 : ℕ) = { m with got := m.got + 1, latched := latched } :=
      step_accepted _ accepted
    obtain ⟨final, later⟩ := ih (m := { m with got := m.got + 1, latched := latched }) accepted
    have stepped : (Monitor.automaton same).step (.count m) (ev, 0) = .count
        (m.step same ev (0 : ℕ)) := rfl
    have sum : m.got + 1 + n = m.got + (n + 1 : ℕ) := by omega
    refine ⟨final, ?_⟩
    rw [List.replicate_succ, Automaton.run_cons, stepped, next, later, ← sum]

theorem Prompt.undecided (prompt : m.Prompt) (pending : m.latched.verdict = .pend)
    (noticed : ¬ m.Unnoticed)
    {ev : Event} (accepted : m.matcher.accepts same ev = true) :
    (Monitor.automaton same).Undecided (.count m) := by
  have either : ∀ outcome, ∃ more, (Monitor.automaton same).passes
      ((Monitor.automaton same).run (.count m) more) = outcome := by
    intro outcome
    obtain ⟨n, reached⟩ := prompt.reachable pending noticed outcome
    obtain ⟨latched, end_of_run⟩ := run_matches accepted n
    refine ⟨List.replicate n (ev, 0), ?_⟩
    rw [end_of_run]
    exact reached
  exact ⟨either true, either false⟩

/-- From a threshold that no count can cross back only one end is left. -/
theorem Unnoticed.not_undecided (unnoticed : m.Unnoticed) (prompt : m.Prompt) :
    ¬ (Monitor.automaton same).Undecided (.count m) := by
  have nonneg := prompt.nonneg
  have kept : ∀ more, ∃ got latched, m.got ≤ got ∧ (Monitor.automaton same).run (.count m) more =
      .count { m with got := got, latched := latched } := by
    intro more
    induction more using List.reverseRecOn with
    | nil => exact ⟨m.got, m.latched, le_refl _, rfl⟩
    | append_singleton more e ih =>
      obtain ⟨got, latched, grown, before⟩ := ih
      obtain ⟨got', latched', more_grown, next⟩ :=
        step_grows same { m with got := got, latched := latched } e.1 (e.2 : ℤ)
      refine ⟨got', latched', grown.trans more_grown, ?_⟩
      rw [Automaton.run_snoc, before]
      exact congrArg Monitor.count next
  rintro ⟨⟨more, passes⟩, less, fails⟩
  obtain ⟨got, latched, grown, ends⟩ := kept more
  obtain ⟨got', latched', grown', ends'⟩ := kept less
  rw [ends] at passes
  rw [ends'] at fails
  have compared : m.op.compare got m.want = true := passes
  have compared' : m.op.compare got' m.want = false := fails
  rcases unnoticed with ⟨zero, ⟨op | op | op, low⟩ | ⟨op, low⟩⟩ | ⟨op, low⟩ <;>
    simp only [op, Op.compare, decide_eq_true_eq, decide_eq_false_iff_not] at compared compared' <;>
      omega

end CountMonitor

namespace PresentMonitor

variable {m : PresentMonitor} {ev : Event} {idx : ℤ}

/-- An open monitor still misses something, unless it waits for nothing and has read nothing. -/
def Prompt (m : PresentMonitor) : Prop := m.latched.verdict = .pend → m.slots = [] ∨ ¬ m.Holds

theorem prompt_init (resolved : List Resolved) : (init resolved).Prompt := by
  intro _
  cases resolved with
  | nil => exact .inl rfl
  | cons r rest => exact .inr fun holds => by simpa [init] using holds (r, false) (by simp [init])

theorem Prompt.step (m : PresentMonitor) : (m.step same ev idx).Prompt := by
  unfold PresentMonitor.step
  dsimp only
  split
  · exact fun pending => absurd pending (Latched.pend_of_latch (by decide))
  · rename_i incomplete
    refine fun _ => .inr fun holds => incomplete (List.all_eq_true.mpr fun slot member => ?_)
    exact holds slot member

/-- What one event fills. -/
theorem step_slots : (m.step same ev idx).slots = m.slots.map fun slot =>
    (slot.1, slot.2 || slot.1.accepts same ev) := rfl

theorem fills (wanted : ∀ slot ∈ m.slots, ∃ ev, slot.1.accepts same ev = true) :
    ∃ more, (Monitor.automaton same).passes
      ((Monitor.automaton same).run (.present m) more) = true := by
  -- the slots are filled one by one
  have each : ∀ (todo : List (Resolved × Bool)) (m : PresentMonitor),
      (∀ slot ∈ todo, ∃ ev, slot.1.accepts same ev = true) →
      (∀ slot ∈ m.slots, slot.2 = true ∨ ∃ other ∈ todo, other.1 = slot.1) →
      ∃ more, (Monitor.automaton same).passes
        ((Monitor.automaton same).run (.present m) more) = true := by
    intro todo
    induction todo with
    | nil =>
      intro m _ filled
      refine ⟨[], passes_iff.mpr fun slot member => ?_⟩
      rcases filled slot member with done | ⟨_, none, _⟩
      · exact done
      · cases none
    | cons first todo ih =>
      intro m wanted filled
      obtain ⟨ev, accepted⟩ := wanted first List.mem_cons_self
      obtain ⟨more, passes⟩ :=
        ih (m.step same ev (0 : ℕ)) (fun slot member => wanted slot (List.mem_cons_of_mem _ member))
          (by
        intro slot member
        rw [step_slots] at member
        obtain ⟨old, there, rfl⟩ := List.mem_map.mp member
        rcases filled old there with done | ⟨other, inside, its⟩
        · exact .inl (by simp [done])
        · rcases List.mem_cons.mp inside with rfl | later
          · exact .inl (by simp [← its, accepted])
          · exact .inr ⟨other, later, its⟩)
      exact ⟨(ev, 0) :: more, passes⟩
  exact each m.slots m wanted fun slot member => .inr ⟨slot, member, rfl⟩

end PresentMonitor

namespace AbsentMonitor

variable {m : AbsentMonitor} {ev : Event} {idx : ℤ}

def Prompt (m : AbsentMonitor) : Prop := m.latched.verdict = .pend → ¬ m.Broken

theorem Prompt.step (prompt : m.Prompt) : (m.step same ev idx).Prompt := by
  unfold AbsentMonitor.step
  split
  · exact fun pending => absurd pending (Latched.pend_of_latch (by decide))
  · exact prompt

theorem offends_broken (offends : m.offends same ev = true) : (m.step same ev idx).Broken := by
  rw [AbsentMonitor.step, if_pos offends]
  simp [Broken]

end AbsentMonitor

namespace HeartbeatMonitor

variable {m : HeartbeatMonitor} {ev : Event} {idx : ℤ}

structure Prompt (m : HeartbeatMonitor) : Prop where
  nonneg : 0 ≤ m.maxGap
  counted : m.lastTs = none ↔ m.beats = 0
  noticed : m.latched.verdict = .pend → m.maxGap = 0 ∨ (m.maxGap : ℚ) ≤ m.bound

theorem prompt_init (name : Text) (bound : ℚ) :
    ({ name := name, bound := bound } : HeartbeatMonitor).Prompt :=
  ⟨le_refl _, by simp, fun _ => .inl rfl⟩

theorem Prompt.step (prompt : m.Prompt) : (m.step ev idx).Prompt := by
  rcases step_cases m ev idx with same | ⟨ts, _, next⟩ | ⟨ts, last, _, next⟩
  · rwa [same]
  · rw [next]
    exact ⟨prompt.nonneg, by simp, prompt.noticed⟩
  · rw [next]
    refine ⟨le_max_of_le_left prompt.nonneg, by simp, ?_⟩
    dsimp only
    split
    · exact fun pending => absurd pending (Latched.pend_of_latch (by decide))
    · rename_i near
      intro pending
      rcases le_total m.maxGap (ts - last) with wider | narrower
      · rw [max_eq_right wider]
        exact .inr (not_lt.mp near)
      · rw [max_eq_left narrower]
        exact prompt.noticed pending

/-- A beat at a time of one's choice. -/
def beat (m : HeartbeatMonitor) (ts : ℤ) : Event :=
  [(lit "event", .text m.name), (lit "_timestamp", .int ts)]

theorem beat_read (m : HeartbeatMonitor) (ts : ℤ) :
    Event.name (m.beat ts) = some m.name ∧ Event.timestamp (m.beat ts) = some ts := by
  have other : (lit "_timestamp" == lit "event") = false := by decide
  constructor
  · simp [Event.name, Event.get, beat]
  · simp [Event.timestamp, Event.get, beat, List.lookup_cons, other]

theorem first_beat (ts : ℤ) (first : m.lastTs = none) :
    m.step (m.beat ts) idx = { m with beats := m.beats + 1, lastTs := some ts } := by
  simp [step, beat_read, first]

theorem next_beat (ts last : ℤ) (before : m.lastTs = some last) : m.step (m.beat ts) idx = { m with
    beats := m.beats + 1
    lastTs := some ts
    maxGap := max m.maxGap (ts - last)
    latched := if m.bound < (ts - last : ℤ) then m.latched.latch .viol idx else m.latched } := by
  simp [step, beat_read, before]

theorem late_beat (last : ℤ) (before : m.lastTs = some last) :
    ∃ ts, (m.step (m.beat ts) idx).Broken := by
  obtain ⟨far, beyond⟩ := exists_int_gt m.bound
  refine ⟨last + far, ?_⟩
  rw [next_beat _ last before]
  refine lt_of_lt_of_le beyond ?_
  exact_mod_cast (by omega : far ≤ max m.maxGap (last + far - last))

end HeartbeatMonitor

namespace ConformsMonitor

variable {m : ConformsMonitor} {ev : Event} {idx : ℤ}

def Prompt (m : ConformsMonitor) : Prop := m.latched.verdict = .pend → ¬ m.Broken

theorem Prompt.step (prompt : m.Prompt) : (m.step ev idx).Prompt := by
  rcases step_cases m ev idx with ⟨checked, next⟩ | ⟨checked, violation, unknown, next⟩
  · rw [next]
    exact prompt
  · rw [next]
    exact fun pending => absurd pending (Latched.pend_of_latch (by decide))

/-- An event that the ontology objects to. -/
def objects (m : ConformsMonitor) (ev : Event) : Prop :=
  ∃ ontology, m.ontology = some ontology ∧ (m.target.isSome → ev.name = m.target) ∧
    match ev.name.bind ontology.types with
    | none => m.closedWorld = true
    | some type => type.validate ev ≠ []

theorem objects_broken (objects : m.objects ev) : (m.step ev idx).Broken := by
  obtain ⟨ontology, loaded, inside, problem⟩ := objects
  have reached : ¬ (m.target.isSome = true ∧ ev.name ≠ m.target) := by
    rintro ⟨limited, other⟩
    exact other (inside limited)
  simp only [ConformsMonitor.step, loaded, if_neg reached]
  revert problem
  cases ev.name.bind ontology.types with
  | none =>
    intro (closed : m.closedWorld = true)
    simp [closed, Broken]
  | some type =>
    intro (problem : type.validate ev ≠ [])
    simp [problem, Broken]

/-- What a step leaves alone. -/
theorem step_static (m : ConformsMonitor) (ev : Event) (idx : ℤ) :
    (m.step ev idx).ontology = m.ontology ∧
    (m.step ev idx).target = m.target ∧ (m.step ev idx).closedWorld = m.closedWorld := by
  rcases step_cases m ev idx with ⟨checked, next⟩ | ⟨checked, violation, unknown, next⟩ <;>
    simp [next]

end ConformsMonitor

namespace Monitor

variable {m : Monitor} {ev : Event} {idx : ℤ}

/-- The events that a check waits for can occur. Nothing is said of `must_order`. -/
def Answerable (same : Json → Json → Bool) : Monitor → Prop
  | count m => ∃ ev, m.matcher.accepts same ev = true
  | present m => ∀ slot ∈ m.slots, ∃ ev, slot.1.accepts same ev = true
  | absent m => ∃ ev, m.offends same ev = true
  | order _ => False
  | heartbeat _ => True
  | conforms m => m.ontology.isSome → ∃ ev, m.objects ev

/-- The monitor is open although only one end is left. -/
def Unnoticed : Monitor → Prop
  | count m => m.Unnoticed
  | present m => m.slots = [] ∧ m.latched.verdict = .pend
  | heartbeat m => m.bound < 0 ∧ m.latched.verdict = .pend
  | conforms m => m.ontology = none
  | _ => False

def Prompt : Monitor → Prop
  | count m => m.Prompt
  | present m => m.Prompt
  | absent m => m.Prompt
  | order _ => True
  | heartbeat m => m.Prompt
  | conforms m => m.Prompt ∧ (m.ontology = none → m.latched.verdict = .pend)

theorem Prompt.step (prompt : m.Prompt) : (m.step same ev idx).Prompt := by
  cases m with
  | count m => exact CountMonitor.Prompt.step prompt
  | present m => exact PresentMonitor.Prompt.step m
  | absent m => exact AbsentMonitor.Prompt.step prompt
  | order m => trivial
  | heartbeat m => exact HeartbeatMonitor.Prompt.step prompt
  | conforms m =>
    refine ⟨ConformsMonitor.Prompt.step prompt.1, fun unloaded => ?_⟩
    have none : m.ontology = none := (m.step_static ev idx).1.symm.trans unloaded
    simp only [ConformsMonitor.step, none]
    exact prompt.2 none

theorem Answerable.step (answerable : m.Answerable same) :
    (m.step same ev idx).Answerable same := by
  cases m with
  | count m =>
    obtain ⟨got, latched, _, next⟩ := CountMonitor.step_grows same m ev idx
    rw [Monitor.step, next]
    exact answerable
  | present m =>
    intro slot member
    obtain ⟨old, there, rfl⟩ := List.mem_map.mp member
    exact answerable old there
  | absent m =>
    simp only [Monitor.step, AbsentMonitor.step]
    split_ifs <;> exact answerable
  | order m => exact answerable.elim
  | heartbeat m => trivial
  | conforms m =>
    obtain ⟨ontology, target, closed⟩ := m.step_static ev idx
    simp only [Monitor.step, Answerable, ConformsMonitor.objects, ontology, target, closed]
    exact answerable

theorem prompt_compile {indicators : List (Text × Matcher)} {ontology : Option Ontology}
    {allow : List Matcher}
    {rule : Rule} (compiled : compileCheck indicators ontology allow rule = some m) : m.Prompt := by
  unfold compileCheck at compiled
  split at compiled
  · cases compiled
    exact fun _ => by simp [AbsentMonitor.Broken]
  · split at compiled
    · cases compiled
      exact HeartbeatMonitor.prompt_init _ _
    · split at compiled
      · obtain ⟨sequence, _, rfl⟩ := Option.map_eq_some_iff.mp compiled
        trivial
      · split at compiled
        · cases compiled
          exact PresentMonitor.prompt_init _
        · split at compiled
          · cases compiled
            exact ⟨fun _ => by simp [ConformsMonitor.Broken, ConformsMonitor.init], fun _ => rfl⟩
          · obtain ⟨op, _, rfl⟩ := Option.map_eq_some_iff.mp compiled
            exact CountMonitor.prompt_init _ op _

/-- An open monitor is undecided, unless its end went unnoticed. -/
theorem pend_undecided_iff (prompt : m.Prompt) (answerable : m.Answerable same) :
    (m.verdict = .pend → (automaton same).Undecided m) ↔ ¬ m.Unnoticed := by
  cases m with
  | count m =>
    constructor
    · intro undecided unnoticed
      refine CountMonitor.Unnoticed.not_undecided unnoticed prompt (undecided (prompt.still ?_))
      rcases unnoticed with ⟨zero, low⟩ | ⟨op, _⟩
      · refine .inr ⟨zero, fun op => ?_⟩
        rcases low with ⟨other | other | other, _⟩ | ⟨other, _⟩ <;> cases op.symm.trans other
      · exact .inl op
    · intro noticed pending
      obtain ⟨ev, accepted⟩ := answerable
      exact CountMonitor.Prompt.undecided prompt pending noticed accepted
  | present m =>
    constructor
    · rintro undecided ⟨nothing, pending⟩
      obtain ⟨_, more, fails⟩ := undecided pending
      have holds : Holds (.present m) := fun slot member => by simp [nothing] at member
      cases ((backed same).inevitable holds more).symm.trans fails
    · intro noticed pending
      refine ⟨PresentMonitor.fills answerable, [], ?_⟩
      rcases prompt pending with nothing | missing
      · exact absurd ⟨nothing, pending⟩ noticed
      · exact Bool.eq_false_iff.mpr fun passes => missing (PresentMonitor.passes_iff.mp passes)
  | absent m =>
    refine iff_of_true (fun pending => ?_) id
    obtain ⟨ev, offends⟩ := answerable
    refine ⟨⟨[], AbsentMonitor.passes_iff.mpr (prompt pending)⟩, [(ev, 0)], ?_⟩
    exact (backed same).fails (.absent _) (AbsentMonitor.offends_broken offends)
  | order m => exact answerable.elim
  | heartbeat m =>
    constructor
    · rintro undecided ⟨negative, pending⟩
      obtain ⟨⟨more, passes⟩, _⟩ := undecided pending
      have broken : Broken (.heartbeat m) := lt_of_lt_of_le negative
        (by exact_mod_cast prompt.nonneg)
      cases ((backed same).hopeless broken more).symm.trans passes
    · intro noticed pending
      have bounded : 0 ≤ m.bound := not_lt.mp fun negative => noticed ⟨negative, pending⟩
      have near : (m.maxGap : ℚ) ≤ m.bound := by
        rcases prompt.noticed pending with zero | near
        · rw [zero]
          exact_mod_cast bounded
        · exact near
      cases before : m.lastTs with
      | none =>
        have silent := prompt.counted.mp before
        have started : m.step (m.beat 0) (0 : ℕ) =
            { m with beats := m.beats + 1, lastTs := some 0 } :=
          m.first_beat 0 before
        refine ⟨⟨[(m.beat 0, 0)], ?_⟩, [], ?_⟩
        · change (m.step (m.beat 0) (0 : ℕ)).passes = true
          rw [started]
          simp [HeartbeatMonitor.passes, near]
        · simp [automaton, passes, HeartbeatMonitor.passes, silent]
      | some last =>
        have running : m.beats ≠ 0 := fun silent => by
          rw [prompt.counted.mpr silent] at before
          cases before
        obtain ⟨ts, broken⟩ : ∃ ts, (m.step (m.beat ts) (0 : ℕ)).Broken := m.late_beat last before
        refine ⟨⟨[], ?_⟩, [(m.beat ts, 0)], ?_⟩
        · simp [automaton, passes, HeartbeatMonitor.passes, running, near]
        · exact (backed same).fails (.heartbeat _) broken
  | conforms m =>
    constructor
    · intro undecided unloaded
      have none : m.ontology = none := unloaded
      obtain ⟨⟨more, passes⟩, _⟩ := undecided (prompt.2 none)
      have kept : (automaton same).run (.conforms m) more = .conforms m := by
        refine (automaton same).run_kept (P := fun s => s = .conforms m)
          (fun s e same_state => ?_) rfl more
        rw [same_state]
        exact congrArg Monitor.conforms (by simp [ConformsMonitor.step, none])
      rw [kept] at passes
      simp [automaton, Monitor.passes, ConformsMonitor.passes, none] at passes
    · intro loaded pending
      have some_ontology : m.ontology.isSome = true := Option.isSome_iff_ne_none.mpr loaded
      obtain ⟨ev, objects⟩ := answerable some_ontology
      have clean : m.violations = [] := not_not.mp (prompt.1 pending)
      refine ⟨⟨[], ?_⟩, [(ev, 0)], ?_⟩
      · simp [automaton, Monitor.passes, ConformsMonitor.passes, some_ontology, clean]
      · exact (backed same).fails (.conforms _) (ConformsMonitor.objects_broken objects)

end Monitor

/-- The verdict on a prefix is the one that follows from all its continuations, exactly if the
monitor does not stay open at a threshold below zero, after the threshold of `!=`, for an empty
list, for a negative interval or without an ontology. -/
theorem verdict_exact_iff (same : Json → Json → Bool) {indicators : List (Text × Matcher)}
    {ontology : Option Ontology}
    {allow : List Matcher} {rule : Rule} {m : Monitor}
    (compiled : compileCheck indicators ontology allow rule = some m)
    (answerable : m.Answerable same)
    (events : List Event) :
    (Monitor.automaton same).Exact (m.fed same events 0) ↔ ¬ (m.fed same events 0).Unnoticed := by
  have prompt : (m.fed same events 0).Prompt :=
    (Monitor.automaton same).run_kept (fun _ _ held => held.step)
      (Monitor.prompt_compile compiled) _
  have answers : (m.fed same events 0).Answerable same :=
    (Monitor.automaton same).run_kept (fun _ _ held => held.step) answerable _
  have told := Monitor.fed_told same (Monitor.told_compile compiled) events 0
  rw [(told.sound same).exact_iff]
  exact Monitor.pend_undecided_iff prompt answers

theorem verdict_exact_iff_once :
    (Monitor.automaton sameText).Exact
    ((Monitor.count onceMonitor).fed sameText [[(lit "event", .text (lit "a"))]] 0) ↔
      ¬ ((Monitor.count onceMonitor).fed sameText [[(lit "event", .text (lit "a"))]]
        0).Unnoticed := by
  have compiled : compileCheck [] none [] onceRule = some (.count onceMonitor) := rfl
  exact verdict_exact_iff sameText compiled ⟨[(lit "event", .text (lit "a"))], by decide⟩
    [[(lit "event", .text (lit "a"))]]

end Metahumotonic.Gate
