import Mathlib.Tactic

/-!
# Machine integers

Machine integers are integers with a range. Checked operations return nothing when the result
leaves the range, saturating operations stop at its ends, and division truncates toward zero.
-/

namespace Host

/-- The values of one machine integer type. -/
structure Word where
  min : ℤ
  max : ℤ

def i128 : Word := ⟨-2 ^ 127, 2 ^ 127 - 1⟩

def u32 : Word := ⟨0, 2 ^ 32 - 1⟩

def u64 : Word := ⟨0, 2 ^ 64 - 1⟩

def u256 : Word := ⟨0, 2 ^ 256 - 1⟩

namespace Word

variable (w : Word)

def checked (value : ℤ) : Option ℤ := if w.min ≤ value ∧ value ≤ w.max then some value else none

def checkedAdd (a b : ℤ) : Option ℤ := w.checked (a + b)

def checkedSub (a b : ℤ) : Option ℤ := w.checked (a - b)

def checkedMul (a b : ℤ) : Option ℤ := w.checked (a * b)

def checkedDiv (a b : ℤ) : Option ℤ := if b = 0 then none else w.checked (a.tdiv b)

def saturate (value : ℤ) : ℤ := Max.max w.min (Min.min value w.max)

def saturatingAdd (a b : ℤ) : ℤ := w.saturate (a + b)

def saturatingSub (a b : ℤ) : ℤ := w.saturate (a - b)

def saturatingMul (a b : ℤ) : ℤ := w.saturate (a * b)

variable {w} {a b value : ℤ}

@[simp]
theorem checked_eq_some {v : ℤ} :
    w.checked value = some v ↔ (w.min ≤ value ∧ value ≤ w.max) ∧ value = v := by
  simp [checked]

@[simp]
theorem checkedAdd_eq_some {v : ℤ} :
    w.checkedAdd a b = some v ↔ (w.min ≤ a + b ∧ a + b ≤ w.max) ∧ a + b = v :=
  checked_eq_some

@[simp]
theorem checkedSub_eq_some {v : ℤ} :
    w.checkedSub a b = some v ↔ (w.min ≤ a - b ∧ a - b ≤ w.max) ∧ a - b = v :=
  checked_eq_some

@[simp]
theorem checkedMul_eq_some {v : ℤ} :
    w.checkedMul a b = some v ↔ (w.min ≤ a * b ∧ a * b ≤ w.max) ∧ a * b = v :=
  checked_eq_some

@[simp]
theorem checkedDiv_eq_some {v : ℤ} :
    w.checkedDiv a b = some v ↔
      b ≠ 0 ∧ (w.min ≤ a.tdiv b ∧ a.tdiv b ≤ w.max) ∧ a.tdiv b = v := by
  simp [checkedDiv]

theorem checked_eq_none : w.checked value = none ↔ ¬(w.min ≤ value ∧ value ≤ w.max) := by
  simp [checked]

theorem saturate_le (hlow : w.min ≤ value) : w.saturate value ≤ value := by
  unfold saturate
  omega

theorem saturate_of_mem (hlow : w.min ≤ value) (hhigh : value ≤ w.max) : w.saturate value = value := by
  unfold saturate
  omega

theorem saturate_mono (hle : a ≤ b) : w.saturate a ≤ w.saturate b := by
  unfold saturate
  omega

theorem saturate_nonneg (hmax : 0 ≤ w.max) (hvalue : 0 ≤ value) : 0 ≤ w.saturate value := by
  unfold saturate
  omega

end Word

/-! ### Truncated division of nonnegative values -/

theorem tdiv_mul_le {a b : ℤ} (ha : 0 ≤ a) (hb : 0 < b) : a.tdiv b * b ≤ a := by
  rw [Int.tdiv_eq_ediv_of_nonneg ha]
  exact Int.ediv_mul_le a hb.ne'

theorem le_tdiv_iff {a b c : ℤ} (ha : 0 ≤ a) (hb : 0 < b) : c ≤ a.tdiv b ↔ c * b ≤ a := by
  rw [Int.tdiv_eq_ediv_of_nonneg ha, Int.le_ediv_iff_mul_le hb]

theorem tdiv_le_iff {a b c : ℤ} (ha : 0 ≤ a) (hb : 0 < b) : a.tdiv b ≤ c ↔ a < (c + 1) * b := by
  rw [Int.tdiv_eq_ediv_of_nonneg ha, ← Int.lt_add_one_iff, Int.ediv_lt_iff_lt_mul hb]

/-- A quotient to which one is added where the division leaves a remainder is rounded up. -/
theorem tdiv_roundUp_le_iff {a b c : ℤ} (ha : 0 ≤ a) (hb : 0 < b) :
    a.tdiv b + (if a.tmod b ≠ 0 then 1 else 0) ≤ c ↔ a ≤ c * b := by
  rw [Int.tdiv_eq_ediv_of_nonneg ha, Int.tmod_eq_emod_of_nonneg ha]
  have hsplit := Int.mul_ediv_add_emod a b
  have hnonneg := Int.emod_nonneg a hb.ne'
  have hlt := Int.emod_lt_of_pos a hb
  set q := a / b
  set r := a % b
  split_ifs with hrest
  · constructor
    · intro hle
      have : (q + 1) * b ≤ c * b := mul_le_mul_of_nonneg_right hle hb.le
      linarith
    · intro hle
      by_contra hgt
      have : c * b ≤ q * b := mul_le_mul_of_nonneg_right (by omega) hb.le
      have : 0 < r := lt_of_le_of_ne hnonneg (Ne.symm hrest)
      linarith
  · have hexact : a = q * b := by
      rw [← hsplit, not_not.mp hrest, add_zero, mul_comm]
    rw [add_zero, hexact]
    exact (mul_le_mul_iff_of_pos_right hb).symm

/-! ### Divisions that stay in the word -/

theorem tdiv_mem {w : Word} {a b : ℤ} (hzero : w.min ≤ 0 ∧ 0 ≤ w.max) (ha : w.min ≤ a ∧ a ≤ w.max) (hb : 0 < b) :
    w.min ≤ a.tdiv b ∧ a.tdiv b ≤ w.max := by
  rcases le_total 0 a with hnonneg | hneg
  · have hlow := Int.tdiv_nonneg hnonneg hb.le
    have hhigh := Int.tdiv_le_self b hnonneg
    omega
  · have hlow := Int.tdiv_nonneg (neg_nonneg.mpr hneg) hb.le
    have hhigh := Int.tdiv_le_self b (neg_nonneg.mpr hneg)
    rw [Int.neg_tdiv] at hlow hhigh
    omega

theorem Word.saturate_mem {w : Word} (hword : w.min ≤ w.max) (value : ℤ) :
    w.min ≤ w.saturate value ∧ w.saturate value ≤ w.max := by
  unfold Word.saturate
  omega

theorem Word.checkedDiv_eq {w : Word} {a b : ℤ} (hzero : w.min ≤ 0 ∧ 0 ≤ w.max)
    (ha : w.min ≤ a ∧ a ≤ w.max) (hb : 0 < b) : w.checkedDiv a b = some (a.tdiv b) :=
  Word.checkedDiv_eq_some.mpr ⟨hb.ne', tdiv_mem hzero ha hb, rfl⟩

theorem checkedDiv_saturatingMul (a b : ℤ) {c : ℤ} (hc : 0 < c) :
    i128.checkedDiv (i128.saturatingMul a b) c = some ((i128.saturatingMul a b).tdiv c) :=
  Word.checkedDiv_eq (by decide) (Word.saturate_mem (by decide) (a * b)) hc

end Host
