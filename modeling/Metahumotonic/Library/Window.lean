import Mathlib.Algebra.Order.Group.Defs
import Mathlib.Algebra.Order.Sub.Defs
import Mathlib.Data.List.Basic

/-! How many of the times of a log lie in a window that ends at a given time and is open
at its start. A log that admits a time only when its own window has room is never too
dense in any window. -/
namespace Metahumotonic.Library

variable {τ : Type u} [LinearOrder τ] [AddCommGroup τ] [IsOrderedAddMonoid τ]

/-- The times in `(t - window, t]`. -/
def within (window t : τ) (log : List τ) : Nat :=
  log.countP fun a => decide (t - window < a ∧ a ≤ t)

def Sparse (limit : Nat) (window : τ) (log : List τ) : Prop :=
  ∀ t, within window t log ≤ limit

omit [IsOrderedAddMonoid τ] in
theorem Sparse.nil (limit : Nat) (window : τ) : Sparse limit window [] :=
  fun _ => Nat.zero_le _

/-- One more time, not before the others, that finds room in its own window. -/
theorem Sparse.cons {limit : Nat} {window now : τ} {log : List τ} (sparse : Sparse limit window log)
    (last : ∀ a ∈ log, a ≤ now)
    (room : within window now log < limit) : Sparse limit window (now :: log) := by
  intro t
  by_cases later : now ≤ t
  · have fewer : within window t log ≤ within window now log := by
      apply List.countP_mono_left
      intro a member counted
      have counted := of_decide_eq_true counted
      exact decide_eq_true ⟨(sub_le_sub_right later window).trans_lt counted.1, last a member⟩
    have one : within window t (now :: log) ≤ within window t log + 1 := by
      simp only [within, List.countP_cons]
      split <;> omega
    omega
  · have before : within window t (now :: log) = within window t log := by
      apply List.countP_cons_of_neg
      simp [later]
    rw [before]
    exact sparse t

end Metahumotonic.Library
