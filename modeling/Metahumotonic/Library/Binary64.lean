import Metahumotonic.Library.Doubles

/-! Finite doubles on their own grid: a magnitude is counted in units of the least double, `2 ^
-1074`. Rounding a fraction of units to the nearest double leaves a double as it is. -/
namespace Metahumotonic.Library

/-- A finite double: its sign, its significand below `2 ^ 53`, and a power of two. The significand
has all its bits, unless the power is the least. -/
structure Double where
  negative : Bool
  significand : ℕ
  exponent : ℕ
  fits : significand < 9007199254740992
  bounded : exponent ≤ 2045
  normal : 4503599627370496 ≤ significand ∨ exponent = 0
  deriving DecidableEq, Repr

namespace Double

def units (x : Double) : ℕ := x.significand * Nat.pow 2 x.exponent

/-- The value, which for the two zeros is the same. -/
def value (x : Double) : ℤ := if x.negative then -x.units else x.units

/-- The powers of two by which the double next to `n / d` units is a multiple. -/
def gap (n d : ℕ) : ℕ := Nat.log2 (n / d) - 52

/-- The double that is nearest to `n / d` units. -/
def rounded (n d : ℕ) : ℕ := Doubles.nearest n (d * Nat.pow 2 (gap n d)) * Nat.pow 2 (gap n d)

theorem nearest_mul (m : ℕ) {d : ℕ} (positive : 0 < d) : Doubles.nearest (m * d) d = m := by
  rw [Doubles.nearest, Nat.mul_mod_left, Nat.mul_div_cancel m positive, if_pos (.inl (by omega))]

theorem gap_units (x : Double) {d : ℕ} (positive : 0 < d) : gap (x.units * d) d = x.exponent := by
  rw [gap, Nat.mul_div_cancel _ positive, units]
  rcases x.normal with all | least
  · have low : 4503599627370496 * Nat.pow 2 x.exponent ≤ x.significand * Nat.pow 2 x.exponent :=
      Nat.mul_le_mul_right _ all
    have high : x.significand * Nat.pow 2 x.exponent < 9007199254740992 * Nat.pow 2 x.exponent :=
      Nat.mul_lt_mul_of_pos_right x.fits (Nat.pow_pos (by decide))
    have first : (2 : ℕ) ^ (52 + x.exponent) = 4503599627370496 * Nat.pow 2 x.exponent :=
      Nat.pow_add 2 52 x.exponent
    have second : (2 : ℕ) ^ (53 + x.exponent) = 9007199254740992 * Nat.pow 2 x.exponent :=
      Nat.pow_add 2 53 x.exponent
    have nonzero : x.significand * Nat.pow 2 x.exponent ≠ 0 := by
      have some : 0 < Nat.pow 2 x.exponent := Nat.pow_pos (by decide)
      have large := Nat.mul_le_mul all some
      omega
    have below := (Nat.le_log2 nonzero).mpr (first ▸ low)
    have above := (Nat.log2_lt nonzero).mpr (second ▸ high)
    omega
  · have small : x.significand * Nat.pow 2 x.exponent < 2 ^ 53 := by
      rw [least]
      exact (Nat.mul_one _).trans_lt x.fits
    by_cases zero : x.significand * Nat.pow 2 x.exponent = 0
    · rw [zero, least]
      rfl
    · have above := (Nat.log2_lt zero).mpr small
      omega

/-- A double is its own nearest double. -/
theorem rounded_units (x : Double) {d : ℕ} (positive : 0 < d) :
    rounded (x.units * d) d = x.units := by
  have some : 0 < d * Nat.pow 2 x.exponent := Nat.mul_pos positive (Nat.pow_pos (by decide))
  rw [rounded, gap_units x positive, units, Nat.mul_assoc, Nat.mul_comm (Nat.pow 2 x.exponent) d,
    nearest_mul _ some]

end Double

end Metahumotonic.Library
