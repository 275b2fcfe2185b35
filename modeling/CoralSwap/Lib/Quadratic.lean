import CoralSwap.Lib.NewtonSqrt

/-!
# Roots of a quadratic

The positive root of `a y² + b y = c`, rounded down, comes out of the integer square root of the
discriminant and a truncated division: neither rounding loses more than the other keeps.
-/

namespace Quadratic

open NewtonSqrt

def value (a b y : ℤ) : ℤ := a * (y * y) + b * y

def discriminant (a b c : ℤ) : ℤ := b * b + 4 * a * c

variable {a b c root y z : ℤ}

/-- Completing the square. -/
theorem sq_le_discriminant_iff (ha : 0 < a) :
    (2 * a * y + b) * (2 * a * y + b) ≤ discriminant a b c ↔ value a b y ≤ c := by
  have hsquare : (2 * a * y + b) * (2 * a * y + b) = b * b + 4 * a * value a b y := by
    unfold value
    ring
  rw [hsquare, discriminant, add_le_add_iff_left]
  exact mul_le_mul_iff_of_pos_left (by omega)

/-- A discriminant is a square and a multiple of four. -/
theorem discriminant_emod_four (a b c : ℤ) : discriminant a b c % 4 = 0 ∨ discriminant a b c % 4 = 1 := by
  obtain ⟨k, rfl | rfl⟩ := b.even_or_odd'
  · have heven : discriminant a (2 * k) c = 4 * (k * k + a * c) := by
      unfold discriminant
      ring
    omega
  · have hodd : discriminant a (2 * k + 1) c = 4 * (k * k + k + a * c) + 1 := by
      unfold discriminant
      ring
    omega

theorem le_root (ha : 0 < a) (hc : 0 ≤ c) (hb : 0 ≤ b) (hroot : IsRoot (discriminant a b c) root) :
    b ≤ root := by
  rw [hroot.le_iff hb]
  exact le_add_of_nonneg_right (mul_nonneg (by omega) hc)

/-- **The rounded root** is the largest value that the quadratic does not exceed. -/
theorem le_quotient_iff (ha : 0 < a) (hb : 0 ≤ b) (hroot : IsRoot (discriminant a b c) root) (hy : 0 ≤ y) :
    y ≤ (root - b) / (2 * a) ↔ value a b y ≤ c := by
  have hpositive : 0 ≤ 2 * a * y + b := add_nonneg (mul_nonneg (by omega) hy) hb
  calc y ≤ (root - b) / (2 * a)
      ↔ y * (2 * a) ≤ root - b := Int.le_ediv_iff_mul_le (by omega)
    _ ↔ 2 * a * y + b ≤ root := by
        rw [mul_comm y, le_sub_iff_add_le]
    _ ↔ (2 * a * y + b) * (2 * a * y + b) ≤ discriminant a b c := hroot.le_iff hpositive
    _ ↔ value a b y ≤ c := sq_le_discriminant_iff ha

end Quadratic
