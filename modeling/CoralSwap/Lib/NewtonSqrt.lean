import Mathlib.Tactic

/-!
# Square roots by Newton's method

From any positive guess the iteration lands at or above the integer square root. A guess that the
iteration does not lower is the root.
-/

namespace NewtonSqrt

structure IsRoot (value root : ℤ) : Prop where
  nonneg : 0 ≤ root
  sq_le : root * root ≤ value
  lt_succ_sq : value < (root + 1) * (root + 1)

def next (value guess : ℤ) : ℤ := (guess + value / guess) / 2

variable {value guess root bound : ℤ}

/-- The arithmetic mean of a guess and its quotient is not below the root. -/
theorem lt_next_succ_sq (hvalue : 0 ≤ value) (hguess : 0 < guess) :
    value < (next value guess + 1) * (next value guess + 1) := by
  have hquotient : 0 ≤ value / guess := Int.ediv_nonneg hvalue hguess.le
  have hcovered : value < (value / guess + 1) * guess := Int.lt_ediv_add_one_mul_self value hguess
  have hmean : guess + (value / guess + 1) ≤ 2 * (next value guess + 1) := by
    unfold next
    omega
  have hsquares : (guess + (value / guess + 1)) * (guess + (value / guess + 1)) ≤
      2 * (next value guess + 1) * (2 * (next value guess + 1)) :=
    mul_self_le_mul_self (by omega) hmean
  linarith [sq_nonneg (guess - (value / guess + 1))]

theorem sq_le_of_le_next (hguess : 0 < guess) (hstop : guess ≤ next value guess) :
    guess * guess ≤ value := by
  have hquotient : guess ≤ value / guess := by
    unfold next at hstop
    omega
  exact (Int.le_ediv_iff_mul_le hguess).mp hquotient

theorem next_pos (hguess : 0 < guess) (hle : guess ≤ value) :
    0 < next value guess := by
  have hquotient : 1 ≤ value / guess := (Int.le_ediv_iff_mul_le hguess).mpr (by omega)
  unfold next
  omega

/-- No step of the iteration adds up to more than the value and one. -/
theorem add_div_le (hguess : 0 < guess) (hle : guess ≤ value) : guess + value / guess ≤ value + 1 := by
  have hproduct : value / guess * guess ≤ value := Int.ediv_mul_le value hguess.ne'
  have hquotient : 1 ≤ value / guess := (Int.le_ediv_iff_mul_le hguess).mpr (by omega)
  linarith [mul_nonneg (sub_nonneg.mpr hquotient) (show 0 ≤ guess - 1 by omega)]

theorem IsRoot.le_iff (hroot : IsRoot value root) (hbound : 0 ≤ bound) :
    bound ≤ root ↔ bound * bound ≤ value := by
  constructor
  · intro hle
    exact (mul_self_le_mul_self hbound hle).trans hroot.sq_le
  · intro hsq
    by_contra hlt
    have hsucc := mul_self_le_mul_self (by linarith [hroot.nonneg]) (show root + 1 ≤ bound by omega)
    linarith [hroot.lt_succ_sq]

theorem IsRoot.le_value (hroot : IsRoot value root) : root ≤ value := by
  calc root ≤ root ^ 2 := Int.le_self_sq root
    _ = root * root := sq root
    _ ≤ value := hroot.sq_le

/-- No integer above the root has a square within the value. -/
theorem IsRoot.isGreatest (hroot : IsRoot value root) : IsGreatest {x | x * x ≤ value} root := by
  refine ⟨hroot.sq_le, fun x hx => ?_⟩
  rcases le_total 0 x with hnonneg | hneg
  · exact (hroot.le_iff hnonneg).mpr hx
  · exact hneg.trans hroot.nonneg

end NewtonSqrt
