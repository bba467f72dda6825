import Metahumotonic.Gate.Monitors
import Mathlib.Algebra.Order.Ring.Int
import Mathlib.Tactic.Push

/-! A monitor that has settled is never contradicted by the rest of the stream, so that a set of
monitors fed live says early what the gate will say at the end. -/
namespace Metahumotonic.Gate
open Metahumotonic.Library

variable {same : Json → Json → Bool}

theorem Latched.latch_verdict (l : Latched) (v : Verdict) (idx : ℤ) :
    (l.latch v idx).verdict = if l.verdict = .pend then v else l.verdict := by
  unfold latch
  split <;> rfl

theorem Latched.verdict_of_latch {l : Latched} {v w : Verdict} {idx : ℤ}
    (told : (l.latch v idx).verdict = w) :
    w = v ∨ l.verdict = w := by
  rw [latch_verdict] at told
  split at told
  · exact .inl told.symm
  · exact .inr told

/-- What a verdict has to be backed by. -/
def Latched.Told (l : Latched) (holds broken : Prop) : Prop :=
  (l.verdict = .sat → holds) ∧ (l.verdict = .viol → broken)

theorem Latched.Told.mono {l : Latched} {holds broken holds' broken' : Prop}
    (told : l.Told holds broken)
    (sat : holds → holds') (viol : broken → broken') : l.Told holds' broken' :=
  ⟨fun settled => sat (told.1 settled), fun settled => viol (told.2 settled)⟩

theorem Latched.Told.latch_sat {l : Latched} {holds broken : Prop} {idx : ℤ}
    (told : l.Told holds broken)
    (sat : holds) : (l.latch .sat idx).Told holds broken := by
  refine ⟨fun _ => sat, fun settled => ?_⟩
  rcases verdict_of_latch settled with other | before
  · cases other
  · exact told.2 before

theorem Latched.Told.latch_viol {l : Latched} {holds broken : Prop} {idx : ℤ}
    (told : l.Told holds broken)
    (viol : broken) : (l.latch .viol idx).Told holds broken := by
  refine ⟨fun settled => ?_, fun _ => viol⟩
  rcases verdict_of_latch settled with other | before
  · cases other
  · exact told.1 before

theorem Latched.told_open {holds broken : Prop} : ({} : Latched).Told holds broken := by
  constructor <;> intro settled <;> cases settled

namespace CountMonitor

variable {m : CountMonitor} {ev : Event} {idx : ℤ}

def Holds (m : CountMonitor) : Prop := m.op = .ge ∧ m.want ≤ m.got ∨ m.op = .gt ∧ m.want < m.got

def Broken (m : CountMonitor) : Prop :=
  (m.op = .eq ∨ m.op = .le) ∧ m.want < m.got ∨ m.op = .lt ∧ m.want ≤ m.got

def Told (m : CountMonitor) : Prop := m.latched.Told m.Holds m.Broken

theorem step_rejected (rejected : m.matcher.accepts same ev = false) : m.step same ev idx = m := by
  rw [step, rejected]
  rfl

variable (idx) in
/-- Nothing of a monitor changes but its count and its verdict. -/
theorem step_accepted (accepted : m.matcher.accepts same ev = true) :
    ∃ latched, m.step same ev idx = { m with got := m.got + 1, latched := latched } := by
  rw [step, if_pos accepted]
  exact ⟨_, rfl⟩

theorem step_grows (same : Json → Json → Bool) (m : CountMonitor) (ev : Event) (idx : ℤ) :
    ∃ got latched, m.got ≤ got ∧
    m.step same ev idx = { m with got := got, latched := latched } := by
  cases accepted : m.matcher.accepts same ev with
  | false => exact ⟨m.got, m.latched, le_refl _, step_rejected accepted⟩
  | true =>
    obtain ⟨latched, next⟩ := step_accepted idx accepted
    exact ⟨m.got + 1, latched, by omega, next⟩

theorem Holds.step (holds : m.Holds) : (m.step same ev idx).Holds := by
  obtain ⟨got, latched, more, next⟩ := step_grows same m ev idx
  rw [next]
  exact holds.imp (fun h => ⟨h.1, h.2.trans more⟩) fun h => ⟨h.1, lt_of_lt_of_le h.2 more⟩

theorem Broken.step (broken : m.Broken) : (m.step same ev idx).Broken := by
  obtain ⟨got, latched, more, next⟩ := step_grows same m ev idx
  rw [next]
  exact broken.imp (fun h => ⟨h.1, lt_of_lt_of_le h.2 more⟩) fun h => ⟨h.1, h.2.trans more⟩

theorem Holds.passes (holds : m.Holds) : m.passes = true := by
  rcases holds with ⟨op, reached⟩ | ⟨op, reached⟩ <;>
    simp [CountMonitor.passes, op, Op.compare, reached]

theorem Broken.fails (broken : m.Broken) : m.passes = false := by
  rcases broken with ⟨op | op, beyond⟩ | ⟨op, beyond⟩ <;>
    simp [CountMonitor.passes, op, Op.compare] <;> omega

theorem Told.step (told : m.Told) : (m.step same ev idx).Told := by
  cases accepted : m.matcher.accepts same ev with
  | false =>
    rw [step_rejected accepted]
    exact told
  | true =>
    have kept : m.latched.Told (m.op = .ge ∧ m.want ≤ m.got + 1 ∨ m.op = .gt ∧ m.want < m.got + 1)
        ((m.op = .eq ∨ m.op = .le) ∧ m.want < m.got + 1 ∨ m.op = .lt ∧ m.want ≤ m.got + 1) :=
      told.mono (fun holds => holds.imp (fun h => ⟨h.1, by omega⟩) fun h => ⟨h.1, by omega⟩)
        fun broken => broken.imp (fun h => ⟨h.1, by omega⟩) fun h => ⟨h.1, by omega⟩
    simp only [CountMonitor.step, accepted, if_true]
    split_ifs with reached equal most less
    · refine kept.latch_sat ?_
      rcases reached with ⟨op | op, compared⟩ <;> rw [op] at compared
      · exact .inl ⟨op, of_decide_eq_true compared⟩
      · exact .inr ⟨op, of_decide_eq_true compared⟩
    · exact kept.latch_viol (.inl ⟨.inl equal.1, equal.2⟩)
    · exact kept.latch_viol (.inl ⟨.inr most.1, most.2⟩)
    · exact kept.latch_viol (.inr less)
    · exact kept

theorem told_init (matcher : Resolved) (op : Op) (want : ℤ) : (init matcher op want).Told := by
  unfold init Told
  dsimp only
  split
  · rename_i met
    exact Latched.told_open.latch_sat (.inl met)
  · exact Latched.told_open

end CountMonitor

namespace PresentMonitor

variable {m : PresentMonitor} {ev : Event} {idx : ℤ}

def Holds (m : PresentMonitor) : Prop := ∀ slot ∈ m.slots, slot.2 = true

def Told (m : PresentMonitor) : Prop := m.latched.Told m.Holds False

theorem passes_iff : m.passes = true ↔ m.Holds := by
  simp [passes, missing, Holds]

theorem Holds.step (holds : m.Holds) : (m.step same ev idx).Holds := by
  intro slot member
  obtain ⟨old, there, rfl⟩ := List.mem_map.mp member
  simp [holds old there]

theorem Told.step (told : m.Told) : (m.step same ev idx).Told := by
  have kept : m.latched.Told (m.step same ev idx).Holds False := told.mono Holds.step id
  unfold Told PresentMonitor.step
  dsimp only
  split
  · rename_i all
    refine kept.latch_sat fun slot member => ?_
    exact List.all_eq_true.mp all slot member
  · exact kept

theorem told_init (resolved : List Resolved) : (init resolved).Told := Latched.told_open

end PresentMonitor

namespace AbsentMonitor

variable {m : AbsentMonitor} {ev : Event} {idx : ℤ}

def Broken (m : AbsentMonitor) : Prop := m.offenders ≠ []

def Told (m : AbsentMonitor) : Prop := m.latched.Told False m.Broken

theorem passes_iff : m.passes = true ↔ ¬ m.Broken := by
  simp [passes, Broken]

theorem Broken.step (broken : m.Broken) : (m.step same ev idx).Broken := by
  unfold AbsentMonitor.step
  split
  · simp [Broken]
  · exact broken

theorem Told.step (told : m.Told) : (m.step same ev idx).Told := by
  unfold AbsentMonitor.step
  split
  · exact (told.mono id fun _ => by simp [Broken]).latch_viol (by simp [Broken])
  · exact told

end AbsentMonitor

instance : Trans keyLe keyLe keyLe where
  trans := by
    rintro ⟨a, a'⟩ ⟨b, b'⟩ ⟨c, c'⟩ first second
    simp only [keyLe] at *
    omega

/-- Where more is found, nothing that was found is lost or moved. -/
theorem filterMap_sublist_of_le {α β : Type*} {f g : α → Option β}
    (more : ∀ a b, f a = some b → g a = some b)
    (xs : List α) : (xs.filterMap f).Sublist (xs.filterMap g) := by
  induction xs with
  | nil => exact .slnil
  | cons a xs ih =>
    cases found : f a with
    | some b =>
      rw [List.filterMap_cons_some found, List.filterMap_cons_some (more a b found)]
      exact ih.cons_cons b
    | none =>
      rw [List.filterMap_cons_none found]
      cases now : g a with
      | none => rwa [List.filterMap_cons_none now]
      | some b =>
        rw [List.filterMap_cons_some now]
        exact ih.cons b

namespace OrderMonitor

variable {m : OrderMonitor} {ev : Event} {idx : ℤ} {name : Text} {key : ℤ × ℤ}

def Holds (m : OrderMonitor) : Prop := m.missing = [] ∧ m.orderedSoFar = true ∧ m.gapsExceeded = []

def Broken (m : OrderMonitor) : Prop := m.orderedSoFar = false ∨ m.gapsExceeded ≠ []

def Told (m : OrderMonitor) : Prop := m.latched.Told m.Holds m.Broken

/-- A first occurrence stays the first. -/
theorem note_lookup {other : Text} {first : ℤ × ℤ} (known : m.firsts.lookup other = some first) :
    (m.note name key).firsts.lookup other = some first := by
  unfold note
  split
  · rename_i absent
    have differs : (other == name) = false := by
      rw [beq_eq_false_iff_ne]
      rintro rfl
      cases absent.symm.trans known
    rw [List.lookup_cons, differs]
    exact known
  · exact known

@[simp] theorem note_sequence : (m.note name key).sequence = m.sequence := by
  unfold note
  split <;> rfl

@[simp] theorem note_bound : (m.note name key).bound = m.bound := by
  unfold note
  split <;> rfl

@[simp] theorem note_latched : (m.note name key).latched = m.latched := by
  unfold note
  split <;> rfl

/-- A name that has occurred changes nothing. -/
theorem note_known {first : ℤ × ℤ} (known : m.firsts.lookup name = some first) :
    m.note name key = m := by
  rw [note, known]

theorem missing_eq_nil_iff : m.missing = [] ↔ ∀ name ∈ m.sequence, ∃ first,
    m.firsts.lookup name = some first := by
  simp only [missing, List.filter_eq_nil_iff, Option.isNone_iff_eq_none, ← ne_eq,
    Option.ne_none_iff_exists']

theorem mem_gapsExceeded {pair : Text × Text} : pair ∈ m.gapsExceeded ↔
    pair ∈ m.sequence.zip m.sequence.tail ∧
    ∃ bound a b, m.bound = some bound ∧ m.firsts.lookup pair.1 = some a ∧
      m.firsts.lookup pair.2 = some b ∧
      bound < (b.1 - a.1 : ℤ) := by
  unfold gapsExceeded
  split
  · rename_i free
    simp [free]
  · rename_i bound bounded
    rw [List.mem_filter]
    apply and_congr_right'
    split
    · rename_i a b first second
      simp [bounded, first, second]
    · rename_i unknown
      simp only [Bool.false_eq_true, false_iff]
      rintro ⟨_, a, b, _, first, second, _⟩
      exact unknown a b first second

theorem Broken.note (broken : m.Broken) : (m.note name key).Broken := by
  rcases broken with disordered | exceeded
  · refine .inl ?_
    simp only [orderedSoFar, decide_eq_false_iff_not] at disordered ⊢
    have more : m.keys.Sublist (m.note name key).keys := by
      unfold keys
      rw [note_sequence]
      exact filterMap_sublist_of_le (fun _ _ => note_lookup) m.sequence
    exact fun chain => disordered (chain.sublist more)
  · refine .inr ?_
    obtain ⟨pair, member⟩ := List.exists_mem_of_ne_nil _ exceeded
    obtain ⟨there, bound, a, b, bounded, first, second, far⟩ := mem_gapsExceeded.mp member
    refine List.ne_nil_of_mem (mem_gapsExceeded.mpr
      ⟨?_, bound, a, b, note_bound.trans bounded, note_lookup first, note_lookup second, far⟩)
    rwa [note_sequence]

/-- A step notes a first occurrence, or nothing, and says what it sees. -/
theorem step_cases (m : OrderMonitor) (ev : Event) (idx : ℤ) : m.step ev idx = m ∨
    ∃ name key latched, name ∈ m.sequence ∧
      m.step ev idx = { m.note name key with latched := latched } ∧
      (m.Told → (m.Broken → (m.note name key).Broken) → latched.Told (m.note name key).Holds
        (m.note name key).Broken) := by
  unfold step
  split
  · rename_i name ts _ _
    split
    · rename_i waited
      refine .inr ⟨name, (ts, ev.seq), _, waited, rfl, fun told stays => ?_⟩
      have kept : m.latched.Told (m.note name (ts, ev.seq)).Holds
          (m.note name (ts, ev.seq)).Broken := by
        refine told.mono (fun holds => ?_) stays
        obtain ⟨first, known⟩ := missing_eq_nil_iff.mp holds.1 name waited
        rwa [note_known known]
      rw [note_latched]
      split_ifs with broken complete
      · exact kept.latch_viol broken
      · simp only [not_or, Bool.not_eq_false, not_not] at broken
        exact kept.latch_sat ⟨complete, broken⟩
      · exact kept
    · exact .inl rfl
  · exact .inl rfl

theorem Holds.step (holds : m.Holds) : (m.step ev idx).Holds := by
  rcases step_cases m ev idx with same | ⟨name, key, latched, waited, next, _⟩
  · rwa [same]
  · obtain ⟨first, known⟩ := missing_eq_nil_iff.mp holds.1 name waited
    rw [next, note_known known]
    exact holds

theorem Broken.step (broken : m.Broken) : (m.step ev idx).Broken := by
  rcases step_cases m ev idx with same | ⟨name, key, latched, _, next, _⟩
  · rwa [same]
  · rw [next]
    exact broken.note

theorem Holds.passes (holds : m.Holds) : m.passes = true := by
  simp [OrderMonitor.passes, holds.1, holds.2.1, holds.2.2]

theorem Broken.fails (broken : m.Broken) : m.passes = false := by
  rcases broken with disordered | exceeded
  · simp [OrderMonitor.passes, disordered]
  · simp [OrderMonitor.passes, exceeded]

theorem Told.step (told : m.Told) : (m.step ev idx).Told := by
  rcases step_cases m ev idx with same | ⟨name, key, latched, _, next, tells⟩
  · rwa [same]
  · rw [next]
    exact tells told Broken.note

end OrderMonitor

namespace HeartbeatMonitor

variable {m : HeartbeatMonitor} {ev : Event} {idx : ℤ}

def Broken (m : HeartbeatMonitor) : Prop := m.bound < m.maxGap

def Told (m : HeartbeatMonitor) : Prop := m.latched.Told False m.Broken

theorem step_cases (m : HeartbeatMonitor) (ev : Event) (idx : ℤ) : m.step ev idx = m ∨
    (∃ ts, m.lastTs = none ∧ m.step ev idx = { m with beats := m.beats + 1, lastTs := some ts }) ∨
    ∃ ts last, m.lastTs = some last ∧ m.step ev idx = { m with
      beats := m.beats + 1
      lastTs := some ts
      maxGap := max m.maxGap (ts - last)
      latched := if m.bound < (ts - last : ℤ) then m.latched.latch .viol idx else m.latched } := by
  unfold step
  cases ev.timestamp with
  | none => exact .inl rfl
  | some ts =>
    dsimp only
    split
    · cases m.lastTs with
      | none => exact .inr (.inl ⟨ts, rfl, rfl⟩)
      | some last => exact .inr (.inr ⟨ts, last, rfl, rfl⟩)
    · exact .inl rfl

theorem Broken.step (broken : m.Broken) : (m.step ev idx).Broken := by
  rcases step_cases m ev idx with same | ⟨ts, _, next⟩ | ⟨ts, last, _, next⟩
  · rwa [same]
  · rw [next]
    exact broken
  · rw [next]
    exact lt_of_lt_of_le broken (by exact_mod_cast le_max_left m.maxGap (ts - last))

theorem Broken.fails (broken : m.Broken) : m.passes = false := by
  simp [HeartbeatMonitor.passes, not_le.mpr broken]

theorem Told.step (told : m.Told) : (m.step ev idx).Told := by
  rcases step_cases m ev idx with same | ⟨ts, _, next⟩ | ⟨ts, last, _, next⟩
  · rwa [same]
  · rw [next]
    exact told
  · rw [next]
    unfold Told Broken
    dsimp only
    split
    · rename_i far
      have broken : m.bound < (max m.maxGap (ts - last) : ℤ) :=
        lt_of_lt_of_le far (by exact_mod_cast le_max_right m.maxGap (ts - last))
      exact (told.mono id fun _ => broken).latch_viol broken
    · exact told.mono id fun broken =>
        lt_of_lt_of_le broken (by exact_mod_cast le_max_left m.maxGap (ts - last))

end HeartbeatMonitor

namespace ConformsMonitor

variable {m : ConformsMonitor} {ev : Event} {idx : ℤ}

def Broken (m : ConformsMonitor) : Prop := m.violations ≠ []

def Told (m : ConformsMonitor) : Prop := m.latched.Told False m.Broken

theorem step_cases (m : ConformsMonitor) (ev : Event) (idx : ℤ) :
    (∃ checked, m.step ev idx = { m with checked := checked }) ∨
    ∃ checked violation unknown, m.step ev idx = { m with
      checked := checked
      violations := m.violations ++ [violation]
      unknown := unknown
      latched := m.latched.latch .viol idx } := by
  unfold step
  split
  · exact .inl ⟨m.checked, rfl⟩
  · split
    · exact .inl ⟨m.checked, rfl⟩
    · split
      · split
        · exact .inr ⟨m.checked, _, _, rfl⟩
        · exact .inl ⟨m.checked, rfl⟩
      · dsimp only
        split
        · exact .inl ⟨_, rfl⟩
        · exact .inr ⟨_, _, m.unknown, rfl⟩

theorem Broken.step (broken : m.Broken) : (m.step ev idx).Broken := by
  rcases step_cases m ev idx with ⟨checked, next⟩ | ⟨checked, violation, unknown, next⟩
  · rw [next]
    exact broken
  · rw [next]
    simp [Broken]

theorem Broken.fails (broken : m.Broken) : m.passes = false := by
  have some_violation : m.violations.isEmpty = false := by
    simpa [List.isEmpty_iff, Broken] using broken
  rw [ConformsMonitor.passes, some_violation, Bool.and_false]

theorem Told.step (told : m.Told) : (m.step ev idx).Told := by
  rcases step_cases m ev idx with ⟨checked, next⟩ | ⟨checked, violation, unknown, next⟩
  · rw [next]
    exact told
  · rw [next]
    exact (told.mono id fun _ => by simp [Broken]).latch_viol (by simp [Broken])

end ConformsMonitor

namespace Monitor

variable {m : Monitor} {ev : Event} {idx : ℤ}

/-- Nothing that may still come makes the check fail. -/
def Holds : Monitor → Prop
  | count m => m.Holds
  | present m => m.Holds
  | order m => m.Holds
  | _ => False

/-- Nothing that may still come makes the check pass. -/
def Broken : Monitor → Prop
  | count m => m.Broken
  | absent m => m.Broken
  | order m => m.Broken
  | heartbeat m => m.Broken
  | conforms m => m.Broken
  | present _ => False

def Told (m : Monitor) : Prop := m.latched.Told m.Holds m.Broken

/-- A monitor over the numbered events of a stream. -/
def automaton (same : Json → Json → Bool) : Automaton Monitor (Event × ℕ) where
  step m e := m.step same e.1 e.2
  verdict := verdict
  passes := passes

theorem backed (same : Json → Json → Bool) : (automaton same).Backed Holds Broken where
  holds_step m e holds := by
    cases m with
    | count m => exact CountMonitor.Holds.step holds
    | present m => exact PresentMonitor.Holds.step holds
    | order m => exact OrderMonitor.Holds.step holds
    | _ => exact holds.elim
  broken_step m e broken := by
    cases m with
    | count m => exact CountMonitor.Broken.step broken
    | absent m => exact AbsentMonitor.Broken.step broken
    | order m => exact OrderMonitor.Broken.step broken
    | heartbeat m => exact HeartbeatMonitor.Broken.step broken
    | conforms m => exact ConformsMonitor.Broken.step broken
    | present m => exact broken.elim
  passes m holds := by
    cases m with
    | count m => exact CountMonitor.Holds.passes holds
    | present m => exact PresentMonitor.passes_iff.mpr holds
    | order m => exact OrderMonitor.Holds.passes holds
    | _ => exact holds.elim
  fails m broken := by
    cases m with
    | count m => exact CountMonitor.Broken.fails broken
    | absent m => exact Bool.eq_false_iff.mpr fun passes =>
      AbsentMonitor.passes_iff.mp passes broken
    | order m => exact OrderMonitor.Broken.fails broken
    | heartbeat m => exact HeartbeatMonitor.Broken.fails broken
    | conforms m => exact ConformsMonitor.Broken.fails broken
    | present m => exact broken.elim

theorem Told.step (told : m.Told) : (m.step same ev idx).Told := by
  cases m with
  | count m => exact CountMonitor.Told.step told
  | present m => exact PresentMonitor.Told.step told
  | absent m => exact AbsentMonitor.Told.step told
  | order m => exact OrderMonitor.Told.step told
  | heartbeat m => exact HeartbeatMonitor.Told.step told
  | conforms m => exact ConformsMonitor.Told.step told

theorem Told.sound (same : Json → Json → Bool) (told : m.Told) : (automaton same).Sound m :=
  (backed same).sound told.1 told.2

/-- Whatever rule is compiled, its monitor starts with no verdict that is not backed. -/
theorem told_compile {indicators : List (Text × Matcher)} {ontology : Option Ontology}
    {allow : List Matcher}
    {rule : Rule} (compiled : compileCheck indicators ontology allow rule = some m) : m.Told := by
  unfold compileCheck at compiled
  split at compiled
  · cases compiled
    exact Latched.told_open
  · split at compiled
    · cases compiled
      exact Latched.told_open
    · split at compiled
      · obtain ⟨sequence, _, rfl⟩ := Option.map_eq_some_iff.mp compiled
        exact Latched.told_open
      · split at compiled
        · cases compiled
          exact PresentMonitor.told_init _
        · split at compiled
          · cases compiled
            exact Latched.told_open
          · obtain ⟨op, _, rfl⟩ := Option.map_eq_some_iff.mp compiled
            exact CountMonitor.told_init _ op _

/-- A step leaves the verdict or latches one. -/
theorem step_latched (same : Json → Json → Bool) (m : Monitor) (ev : Event) (idx : ℤ) :
    (m.step same ev idx).latched = m.latched ∨
    ∃ v, v ≠ .pend ∧ (m.step same ev idx).latched = m.latched.latch v idx := by
  cases m with
  | count m =>
    simp only [step, latched, CountMonitor.step]
    split_ifs
    · exact .inr ⟨.sat, by decide, rfl⟩
    · exact .inr ⟨.viol, by decide, rfl⟩
    · exact .inr ⟨.viol, by decide, rfl⟩
    · exact .inr ⟨.viol, by decide, rfl⟩
    · exact .inl rfl
    · exact .inl rfl
  | present m =>
    simp only [step, latched, PresentMonitor.step]
    split_ifs
    · exact .inr ⟨.sat, by decide, rfl⟩
    · exact .inl rfl
  | absent m =>
    simp only [step, latched, AbsentMonitor.step]
    split_ifs
    · exact .inr ⟨.viol, by decide, rfl⟩
    · exact .inl rfl
  | order m =>
    simp only [step, latched, OrderMonitor.step]
    split
    · split_ifs
      · exact .inr ⟨.viol, by decide, by rw [OrderMonitor.note_latched]⟩
      · exact .inr ⟨.sat, by decide, by rw [OrderMonitor.note_latched]⟩
      · exact .inl OrderMonitor.note_latched
      · exact .inl rfl
    · exact .inl rfl
  | heartbeat m =>
    rcases HeartbeatMonitor.step_cases m ev idx with same | ⟨ts, _, next⟩ | ⟨ts, last, _, next⟩
    · exact .inl (by rw [step, same])
    · exact .inl (by rw [step, next]; rfl)
    · rw [step, next]
      simp only [latched]
      split_ifs
      · exact .inr ⟨.viol, by decide, rfl⟩
      · exact .inl rfl
  | conforms m =>
    rcases ConformsMonitor.step_cases m ev idx with
      ⟨checked, next⟩ | ⟨checked, violation, unknown, next⟩
    · exact .inl (by rw [step, next]; rfl)
    · exact .inr ⟨.viol, by decide, by rw [step, next]; rfl⟩

theorem step_settled (same : Json → Json → Bool) (settled : m.verdict ≠ .pend) :
    (m.step same ev idx).latched = m.latched := by
  rcases step_latched same m ev idx with kept | ⟨v, _, latches⟩
  · exact kept
  · rw [latches, Latched.latch]
    exact if_neg settled

end Monitor

end Metahumotonic.Gate
