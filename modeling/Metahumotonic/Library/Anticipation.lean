import Mathlib.Data.List.Basic

/-! Automata that read a stream one event at a time, may settle on a verdict on the way, and pass or
fail the stream when it ends. A verdict is inevitable when no continuation of the stream can
change how it ends. -/
namespace Metahumotonic.Library

/-- Settled either way, or still open. -/
inductive Verdict where
  | sat | viol | pend
  deriving DecidableEq, Repr

structure Automaton (S E : Type*) where
  step : S → E → S
  verdict : S → Verdict
  passes : S → Bool

namespace Automaton

variable {S E : Type*} (m : Automaton S E)

def run (s : S) (events : List E) : S := events.foldl m.step s

@[simp] theorem run_nil (s : S) : m.run s [] = s := rfl

@[simp] theorem run_cons (s : S) (e : E) (more : List E) : m.run s (e :: more) = m.run
    (m.step s e) more := rfl

theorem run_append (s : S) (events more : List E) : m.run s (events ++ more) = m.run
    (m.run s events) more :=
  List.foldl_append

theorem run_snoc (s : S) (events : List E) (e : E) : m.run s (events ++ [e]) = m.step
    (m.run s events) e := by
  rw [run_append, run_cons, run_nil]

/-- What is kept by every step holds at the end of every stream. -/
theorem run_kept {P : S → Prop} (closed : ∀ s e, P s → P (m.step s e)) {s : S} (held : P s)
    (more : List E) :
    P (m.run s more) := by
  induction more generalizing s with
  | nil => exact held
  | cons e more ih => exact ih (closed s e held)

/-- No continuation changes how the stream ends. -/
def Inevitable (s : S) (outcome : Bool) : Prop := ∀ more, m.passes (m.run s more) = outcome

/-- Both ends are still possible. -/
def Undecided (s : S) : Prop :=
  (∃ more, m.passes (m.run s more) = true) ∧ ∃ more, m.passes (m.run s more) = false

theorem undecided_iff (s : S) : m.Undecided s ↔ ¬ m.Inevitable s true ∧ ¬ m.Inevitable s false := by
  simp only [Undecided, Inevitable, not_forall, Bool.not_eq_true, Bool.not_eq_false, and_comm]

/-- A settled verdict says how every continuation ends. -/
def Sound (s : S) : Prop :=
  (m.verdict s = .sat → m.Inevitable s true) ∧ (m.verdict s = .viol → m.Inevitable s false)

/-- The verdict is the one that follows from all continuations. -/
def Exact (s : S) : Prop :=
  (m.verdict s = .sat ↔ m.Inevitable s true) ∧ (m.verdict s = .viol ↔ m.Inevitable s false)

/-- States that always pass in the end, and states that never do, back the verdicts. -/
structure Backed (Holds Broken : S → Prop) : Prop where
  holds_step : ∀ s e, Holds s → Holds (m.step s e)
  broken_step : ∀ s e, Broken s → Broken (m.step s e)
  passes : ∀ s, Holds s → m.passes s = true
  fails : ∀ s, Broken s → m.passes s = false

variable {m} {Holds Broken : S → Prop}

theorem Backed.inevitable (backed : m.Backed Holds Broken) {s : S} (holds : Holds s) :
    m.Inevitable s true :=
  fun more => backed.passes _ (m.run_kept backed.holds_step holds more)

theorem Backed.hopeless (backed : m.Backed Holds Broken) {s : S} (broken : Broken s) :
    m.Inevitable s false :=
  fun more => backed.fails _ (m.run_kept backed.broken_step broken more)

theorem Backed.sound (backed : m.Backed Holds Broken) {s : S} (sat : m.verdict s = .sat → Holds s)
    (viol : m.verdict s = .viol → Broken s) : m.Sound s :=
  ⟨fun settled => backed.inevitable (sat settled), fun settled => backed.hopeless (viol settled)⟩

/-- A sound verdict is exact unless it is open where only one end is possible. -/
theorem Sound.exact_iff {s : S} (sound : m.Sound s) :
    m.Exact s ↔ (m.verdict s = .pend → m.Undecided s) := by
  rw [undecided_iff]
  constructor
  · rintro ⟨sat, viol⟩ still
    constructor
    · intro always
      rw [sat.mpr always] at still
      cases still
    · intro never
      rw [viol.mpr never] at still
      cases still
  · intro undecided
    refine ⟨⟨sound.1, fun always => ?_⟩, ⟨sound.2, fun never => ?_⟩⟩
    · cases settled : m.verdict s with
      | sat => rfl
      | viol => cases (always []).symm.trans (sound.2 settled [])
      | pend => exact absurd always (undecided settled).1
    · cases settled : m.verdict s with
      | sat => cases (sound.1 settled []).symm.trans (never [])
      | viol => rfl
      | pend => exact absurd never (undecided settled).2

end Automaton

end Metahumotonic.Library
