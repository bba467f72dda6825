import Mathlib.Data.Nat.Log

/-! The double nearest to a fraction, and its whole part. -/
namespace Metahumotonic.Library.Doubles

/-- The integer nearest to `n / d`; halfway between two, the even one. -/
def nearest (n d : Nat) : Nat :=
  if 2 * (n % d) < d ∨ (2 * (n % d) = d ∧ n / d % 2 = 0) then n / d else n / d + 1

/-- How many bits after the binary point a double keeps at `n / d`, which is below `2 ^ 53`. -/
def places (n d : Nat) : Nat := if n < d then 52 + Nat.clog 2 ((d + n - 1) / n)
    else 52 - Nat.log2 (n / d)

def units (n d : Nat) : Nat := Nat.pow 2 (places n d)

/-- `int(n / d)`. -/
def whole (n d : Nat) : Nat := nearest (n * units n d) d / units n d

/-- Whether the double nearest to `n / d` is still below the next integer. -/
def KeepsWhole (n d : Nat) : Prop := d < 2 * units n d * (d - n % d)

instance (n d : Nat) : Decidable (KeepsWhole n d) := inferInstanceAs (Decidable (_ < _))

theorem le_nearest (n d : Nat) : n / d ≤ nearest n d := by
  unfold nearest
  split <;> omega

theorem nearest_le (n d : Nat) : nearest n d ≤ n / d + 1 := by
  unfold nearest
  split <;> omega

/-- An even integer is reached from half a unit below it. -/
theorem even_le_nearest {n d p : Nat} (positive : 0 < d) (even : p % 2 = 0) :
    p ≤ nearest n d ↔ 2 * (p * d) ≤ 2 * n + d := by
  have split : n / d * d + n % d = n := Nat.div_add_mod' n d
  have small : n % d < d := Nat.mod_lt n positive
  unfold nearest
  split
  · rename_i down
    constructor
    · intro reached
      have := Nat.mul_le_mul_right d reached
      omega
    · intro close
      by_contra beyond
      rcases down with low | ⟨tie, quotient⟩
      · have : (n / d + 1) * d ≤ p * d := Nat.mul_le_mul_right d (by omega)
        rw [Nat.add_mul] at this
        omega
      · -- two even numbers differ by two
        have : (n / d + 2) * d ≤ p * d := Nat.mul_le_mul_right d (by omega)
        rw [Nat.add_mul] at this
        omega
  · rename_i up
    constructor
    · intro reached
      have := Nat.mul_le_mul_right d reached
      rw [Nat.add_mul] at this
      omega
    · intro close
      by_contra beyond
      have : (n / d + 2) * d ≤ p * d := Nat.mul_le_mul_right d (by omega)
      rw [Nat.add_mul] at this
      omega

theorem units_pos (n d : Nat) : 0 < units n d := Nat.pow_pos (by decide)

theorem units_even {n d : Nat} (bound : n / d < 4503599627370496) : units n d % 2 = 0 := by
  have room : 0 < places n d := by
    unfold places
    split
    · exact Nat.lt_of_lt_of_le (by decide) (Nat.le_add_right 52 _)
    · by_cases zero : n / d = 0
      · rw [zero]
        decide
      · have : Nat.log2 (n / d) < 52 := (Nat.log2_lt zero).mpr bound
        omega
  obtain ⟨k, more⟩ := Nat.exists_eq_succ_of_ne_zero (Nat.ne_of_gt room)
  rw [units, more]
  exact Nat.mul_mod_left (Nat.pow 2 k) 2

section
variable {n d : Nat}

theorem le_whole (positive : 0 < d) : n / d ≤ whole n d := by
  rw [whole, Nat.le_div_iff_mul_le (units_pos n d)]
  refine Nat.le_trans ?_ (le_nearest _ _)
  rw [Nat.le_div_iff_mul_le positive, Nat.mul_right_comm]
  exact Nat.mul_le_mul_right _ (Nat.div_mul_le_self n d)

theorem succ_le_whole_iff (positive : 0 < d) (bound : n / d < 4503599627370496) :
    n / d + 1 ≤ whole n d ↔ ¬ KeepsWhole n d := by
  have even : (n / d + 1) * units n d % 2 = 0 := by
    rw [Nat.mul_mod, units_even bound, Nat.mul_zero, Nat.zero_mod]
  have apart : (n / d + 1) * units n d * d = n * units n d + units n d * (d - n % d) := by
    have split : n / d * d + n % d = n := Nat.div_add_mod' n d
    have small : n % d < d := Nat.mod_lt n positive
    have whole : (n / d + 1) * d = n + (d - n % d) := by
      rw [Nat.add_mul]
      omega
    rw [Nat.mul_right_comm, whole, Nat.add_mul, Nat.mul_comm (d - n % d)]
  rw [whole, Nat.le_div_iff_mul_le (units_pos n d), even_le_nearest positive even,
    apart, KeepsWhole,
    Nat.mul_assoc 2]
  omega

theorem whole_le (positive : 0 < d) : whole n d ≤ n / d + 1 := by
  rw [← Nat.lt_succ_iff, whole, Nat.div_lt_iff_lt_mul (units_pos n d)]
  have room := units_pos n d
  have low : n * units n d / d < (n / d + 1) * units n d := by
    rw [Nat.div_lt_iff_lt_mul positive, Nat.mul_right_comm]
    refine (Nat.mul_lt_mul_right room).mpr ?_
    rw [Nat.mul_comm]
    exact Nat.lt_mul_div_succ n positive
  have near := nearest_le (n * units n d) d
  rw [Nat.succ_eq_add_one, Nat.add_mul (n / d + 1), Nat.one_mul]
  omega

/-- Truncating the double gives the whole part of the fraction unless it was rounded up to the next
one. -/
theorem whole_eq_iff (positive : 0 < d) (bound : n / d < 4503599627370496) :
    whole n d = n / d ↔ KeepsWhole n d := by
  have low := le_whole (n := n) positive
  have high := succ_le_whole_iff positive bound
  rw [← not_iff_not, ← high]
  omega

end

end Metahumotonic.Library.Doubles
