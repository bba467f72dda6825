import Metahumotonic.Library.Window
import Metahumotonic.Limiter.Deployment
import Mathlib.Algebra.Order.Group.Int

/-! What the shared set admits and what it denies. A window is never exceeded, whichever
runtimes take part. A denial may be due to calls that were denied themselves, while the
removal of their members is outstanding. -/
namespace Metahumotonic.Limiter

open Library

variable {p : Policy} {key : String} {d d' : Deployment} {events : List Event}

abbrev Run (p : Policy) (key : String) : Deployment → List Event → Deployment → Prop :=
  Path fun d e d' => d.step p key e = some d'

theorem Run.mirrors (run : Run p key {} events d) : Mirrors p key d :=
  Path.invariant (Mirrors p key) (fun _ _ _ step mirrors => mirrors.step step) run Mirrors.initial

section Safety

def Deployment.allowedTimes (d : Deployment) : List ℤ := (d.calls.filter (·.allowed)).map Call.now

/-- An allowed call of the window holds a place in the set. -/
theorem within_le_held (d : Deployment) (now : ℤ) :
    within p.windowMillis now d.allowedTimes ≤ d.held p now := by
  rw [within, Deployment.allowedTimes, List.countP_map, List.countP_filter]
  apply List.countP_mono_left
  intro c _ counted
  simp only [Function.comp_apply, Bool.and_eq_true, decide_eq_true_eq] at counted
  simp only [Deployment.holds, counted.2, Bool.true_or, Bool.and_true, decide_eq_true_eq]
  exact counted.1.1

theorem Mirrors.sparse (mirrors : Mirrors p key d) {e : Event} (moved : Moved p key d e d')
    (sparse : Sparse p.maxEvents p.windowMillis d.allowedTimes) :
    Sparse p.maxEvents p.windowMillis d'.allowedTimes := by
  cases moved with
  | removed member now silent later waiting clock calls outstanding scores fewer outlives =>
    rw [Deployment.allowedTimes, calls]
    exact sparse
  | answered c waits asked time later new clock calls outstanding denied verdict scores outlives =>
    by_cases allowed : c.allowed = true
    · have times : d'.allowedTimes = c.now :: d.allowedTimes := by
        simp only [Deployment.allowedTimes, calls, List.filter_cons, allowed, if_true,
          List.map_cons]
      rw [times]
      apply sparse.cons
      · intro a member
        obtain ⟨c', listed, rfl⟩ := List.mem_map.mp member
        have := mirrors.past c' (List.mem_filter.mp listed).1
        omega
      · exact (within_le_held d c.now).trans_lt (verdict.mp allowed)
    · have times : d'.allowedTimes = d.allowedTimes := by
        simp only [Deployment.allowedTimes, calls, List.filter_cons, if_neg allowed]
      rw [times]
      exact sparse

/-- In no window `(t - window, t]` are more calls allowed than the policy says. -/
theorem window_never_exceeded (p : Policy) (key : String) {events : List Event} {d : Deployment}
    (run : Run p key {} events d) (t : ℤ) :
    within p.windowMillis t d.allowedTimes ≤ p.maxEvents := by
  have both := Path.invariant
    (fun d => Mirrors p key d ∧ Sparse p.maxEvents p.windowMillis d.allowedTimes)
    (fun _ _ _ step held => ⟨held.1.step step, held.1.sparse (held.1.moved step) held.2⟩)
    run ⟨Mirrors.initial, Sparse.nil _ _⟩
  exact both.2 t

theorem one_call_fits : 1 ≤ 1 := Nat.le_refl 1

def samplePolicy : Policy := ⟨1, 1, one_call_fits, one_call_fits⟩

theorem window_never_exceeded_sample : ∃ d, Run samplePolicy "k" {}
      [.typescript "t" 0, .python "a" 500, .zrem "500-a" 600, .python "b" 1000] d ∧
    ∀ t, within 1000 t d.allowedTimes ≤ 1 := by
  obtain ⟨d, ended⟩ :=
    Option.isSome_iff_exists.mp (show (follow (Deployment.step samplePolicy "k") {}
    [.typescript "t" 0, .python "a" 500, .zrem "500-a" 600, .python "b" 1000]).isSome = true by
      decide)
  have run := path_iff_follow _ |>.mpr ended
  exact ⟨d, run, window_never_exceeded samplePolicy "k" run⟩

end Safety

section Quota

/-- The allowed calls of the closed window that ends now. -/
def allowedIn (p : Policy) (now : ℤ) (calls : List Call) : Nat :=
  calls.countP fun c => c.allowed && decide (now - p.windowMillis ≤ c.now ∧ c.now ≤ now)

/-- Every call that was denied found the limit reached by calls that were allowed. -/
def Justified (p : Policy) : List Call → Prop
  | [] => True
  | c :: earlier =>
    (c.allowed = false → p.maxEvents ≤ allowedIn p c.now earlier) ∧ Justified p earlier

/-- When a block runs, it finds room, or the allowed calls alone leave none. -/
def Untipped (p : Policy) (d : Deployment) (e : Event) : Prop :=
  e.answers = true → d.held p e.now < p.maxEvents ∨ p.maxEvents ≤ allowedIn p e.now d.calls

theorem justified_step (mirrors : Mirrors p key d) {e : Event} (step : d.step p key e = some d') :
    Justified p d'.calls ↔ Justified p d.calls ∧ Untipped p d e := by
  cases mirrors.moved step with
  | removed member now silent later waiting clock calls outstanding scores fewer outlives =>
    have untipped : Untipped p d e := by
      intro asked
      exact absurd (silent.symm.trans asked) Bool.false_ne_true
    simp only [calls, untipped, and_true]
  | answered c waits asked time later new clock calls outstanding denied verdict scores outlives =>
    have full : c.allowed = false ↔ ¬ d.held p c.now < p.maxEvents := by
      rw [← verdict, Bool.not_eq_true]
    simp only [calls, Justified, Untipped, asked, time, true_imp_iff, full]
    rw [and_comm, ← or_iff_not_imp_left]

/-- Every denial of a run is justified exactly if no block of the run is tipped by members
whose removal is outstanding. -/
theorem denials_justified_iff (p : Policy) (key : String) {events : List Event} {d : Deployment}
    (run : Run p key {} events d) :
    Justified p d.calls ↔
      Path (fun d e d' => d.step p key e = some d' ∧ Untipped p d e) {} events d := by
  have whole := run.kept_iff (Untipped p) (Mirrors p key) (fun d => Justified p d.calls)
    (fun _ _ _ _ step step' => Option.some.inj (step.symm.trans step'))
    (fun _ _ _ step mirrors => mirrors.step step)
    (fun _ _ _ step mirrors => justified_step mirrors step)
    Mirrors.initial
  exact whole.trans (and_iff_right trivial)

/-- The second call is denied, and its member is still in the set when the first call has
left the window. The third call is denied for it. -/
def tippedEvents : List Event := [.python "a" 0, .python "b" 500, .python "c" 1001]

theorem tipped_run : ∃ d, Run samplePolicy "k" {} tippedEvents d ∧
    d.calls = [⟨"1001-c", 1001, false⟩, ⟨"500-b", 500, false⟩, ⟨"0-a", 0, true⟩] := by
  have computed : (follow (Deployment.step samplePolicy "k") {} tippedEvents).map Deployment.calls =
      some [⟨"1001-c", 1001, false⟩, ⟨"500-b", 500, false⟩, ⟨"0-a", 0, true⟩] := by
    decide
  obtain ⟨d, ended, calls⟩ := Option.map_eq_some_iff.mp computed
  exact ⟨d, path_iff_follow _ |>.mpr ended, calls⟩

theorem denials_justified_sample : ∃ d, Run samplePolicy "k" {} tippedEvents d ∧
    (Justified samplePolicy d.calls ↔ Path (fun d e d' => d.step samplePolicy "k" e = some d' ∧
      Untipped samplePolicy d e) {} tippedEvents d) := by
  obtain ⟨d, run, _⟩ := tipped_run
  exact ⟨d, run, denials_justified_iff samplePolicy "k" run⟩

/-- A run of Python calls alone with a denial that no allowed call justifies. -/
theorem denied_calls_may_count : (∀ e ∈ tippedEvents, e.isPython = true) ∧
    ∃ d, Run samplePolicy "k" {} tippedEvents d ∧ ¬ Justified samplePolicy d.calls := by
  constructor
  · decide
  · obtain ⟨d, run, calls⟩ := tipped_run
    refine ⟨d, run, ?_⟩
    rw [calls]
    intro justified
    exact absurd (justified.1 rfl) (by decide)

end Quota

end Metahumotonic.Limiter
