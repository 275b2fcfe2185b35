import CoralSwap.Lib.Faults
import CoralSwap.Lib.NewtonSqrt
import CoralSwap.Pair.Math
import Mathlib.NumberTheory.LucasLehmer

/-!
# The pair's square roots

Where the value and one fit in the machine word, the loop returns the integer square root. The one value
without a root is prime, so the deposits of a first mint never multiply to it.
-/

namespace CoralSwap

open Host Host.Call NewtonSqrt

variable {w : Word} {value : ℤ}

theorem newtonLoop_isRoot (hmin : w.min ≤ 0) (hmax : value + 1 ≤ w.max) (fuel : ℕ) {x y : ℤ} (hx : 0 < x)
    (hle : x ≤ value) (hy : y = next value x) (hupper : value < (x + 1) * (x + 1)) (hfuel : x < fuel) :
    ∃ root, newtonLoop w value fuel x y = .ok root ∧ IsRoot value root := by
  induction fuel generalizing x y with
  | zero => exact absurd hfuel (by push_cast; omega)
  | succ fuel ih =>
      rw [newtonLoop]
      split
      · rename_i hlt
        -- the guess is lowered, and still at or above the root
        have hpositive : 0 < y := hy ▸ next_pos hx hle
        have hsum := add_div_le hpositive (hlt.le.trans hle)
        have hquotient : 0 ≤ value / y := Int.ediv_nonneg (hx.le.trans hle) hpositive.le
        have hdiv : value.tdiv y = value / y := Int.tdiv_eq_ediv_of_nonneg (hx.le.trans hle)
        have hnext : (y + value / y).tdiv 2 = next value y := Int.tdiv_eq_ediv_of_nonneg (by omega)
        obtain ⟨root, hroot, hisRoot⟩ := ih (x := y) (y := next value y) hpositive (hlt.le.trans hle) rfl
          (hy ▸ lt_next_succ_sq (hx.le.trans hle) hx) (by push_cast at hfuel; omega)
        refine ⟨root, ?_, hisRoot⟩
        simp only [bind_eq_ok, orTrap_eq_ok, Word.checkedDiv_eq_some, Word.checkedAdd_eq_some, hdiv]
        exact ⟨_, ⟨hpositive.ne', ⟨by omega, by omega⟩, rfl⟩, _, ⟨⟨by omega, by omega⟩, rfl⟩, by
          rw [hnext]; exact hroot⟩
      · rename_i hstop
        exact ⟨x, rfl, hx.le, sq_le_of_le_next hx (hy ▸ not_lt.mp hstop), hupper⟩

theorem newtonSqrt_isRoot (hmin : w.min ≤ 0) (hvalue : 0 < value) (hmax : value + 1 ≤ w.max) :
    ∃ root, newtonSqrt w value = .ok root ∧ IsRoot value root := by
  have hnext : (value + 1).tdiv 2 = next value value := by
    rw [next, Int.ediv_self hvalue.ne']
    exact Int.tdiv_eq_ediv_of_nonneg (by omega)
  obtain ⟨root, hroot, hisRoot⟩ := newtonLoop_isRoot hmin hmax (value.toNat + 1) hvalue le_rfl rfl
    (by linarith [mul_pos hvalue hvalue]) (by push_cast; omega)
  refine ⟨root, ?_, hisRoot⟩
  simp only [newtonSqrt, bind_eq_ok, orTrap_eq_ok, Word.checkedAdd_eq_some]
  exact ⟨_, ⟨⟨by omega, hmax⟩, rfl⟩, by rw [hnext]; exact hroot⟩

/-- The square root of anything below `i128::MAX`. -/
theorem sqrt_isRoot (hvalue : 0 ≤ value) (hmax : value < i128.max) :
    ∃ root, sqrt value = .ok root ∧ IsRoot value root := by
  simp only [sqrt, bind_eq_ok, require_eq_ok]
  split
  · rename_i hzero
    exact ⟨0, ⟨(), hvalue, rfl⟩, le_rfl, by simpa using hvalue, by omega⟩
  · rename_i hzero
    obtain ⟨root, hroot, hisRoot⟩ := newtonSqrt_isRoot (w := i128) (by decide) (by omega) hmax
    exact ⟨root, ⟨(), hvalue, hroot⟩, hisRoot⟩

/-- The first guess adds one to the value: a root is returned only below `i128::MAX`. -/
theorem bounds_of_sqrt {root : ℤ} (hsqrt : sqrt value = .ok root) : 0 ≤ value ∧ value < i128.max := by
  simp only [sqrt, bind_eq_ok, require_eq_ok, exists_const] at hsqrt
  obtain ⟨hnonneg, hsqrt⟩ := hsqrt
  refine ⟨hnonneg, ?_⟩
  split at hsqrt
  · rename_i hzero
    rw [hzero]
    decide
  · simp only [newtonSqrt, bind_eq_ok, orTrap_eq_ok, Word.checkedAdd_eq_some] at hsqrt
    obtain ⟨_, ⟨⟨-, hmax⟩, -⟩, -⟩ := hsqrt
    exact Int.lt_of_add_one_le hmax

theorem isRoot_of_sqrt {root : ℤ} (hsqrt : sqrt value = .ok root) : IsRoot value root := by
  obtain ⟨hnonneg, hmax⟩ := bounds_of_sqrt hsqrt
  obtain ⟨root', hroot', hisRoot⟩ := sqrt_isRoot hnonneg hmax
  obtain rfl : root' = root := Except.ok.inj (hroot'.symm.trans hsqrt)
  exact hisRoot

/-- **Square roots.** Newton's method returns the greatest integer whose square is within the value, for every
value but the last one of the word. -/
theorem sqrt_isGreatest_iff (hvalue : 0 ≤ value) :
    (∃ root, sqrt value = .ok root ∧ IsGreatest {x | x * x ≤ value} root) ↔ value < i128.max := by
  constructor
  · rintro ⟨root, hsqrt, -⟩
    exact (bounds_of_sqrt hsqrt).2
  · intro hmax
    obtain ⟨root, hsqrt, hroot⟩ := sqrt_isRoot hvalue hmax
    exact ⟨root, hsqrt, hroot.isGreatest⟩

theorem sqrt_isGreatest_below_max :
    ∃ root, sqrt (i128.max - 1) = .ok root ∧ IsGreatest {x | x * x ≤ i128.max - 1} root :=
  (sqrt_isGreatest_iff (by decide)).mpr (by decide)

/-- At `i128::MAX` the first guess overflows. -/
theorem sqrt_max_traps :
    sqrt i128.max = trap ∧ ¬∀ value, 0 ≤ value → value ≤ i128.max →
      ∃ root, sqrt value = .ok root ∧ IsGreatest {x | x * x ≤ value} root := by
  refine ⟨rfl, fun hlaw => ?_⟩
  obtain ⟨root, hsqrt, -⟩ := hlaw i128.max (by decide) le_rfl
  exact absurd (bounds_of_sqrt hsqrt).2 (lt_irrefl _)

/-! ### The first mint -/

/-- The first mint of a pool: a root less the locked minimum, unless the product of the deposits does not fit or
is the one value without a root. -/
theorem initialLiquidity_eq_ok_iff {amountA amountB minted : ℤ} :
    initialLiquidity amountA amountB = .ok minted ↔
      0 ≤ amountA * amountB ∧ amountA * amountB < i128.max ∧
        IsRoot (amountA * amountB) (minted + minimumLiquidity) := by
  simp only [initialLiquidity, bind_eq_ok, okOr_eq_ok, Word.checkedMul_eq_some, Word.checkedSub_eq_some]
  constructor
  · rintro ⟨_, ⟨-, rfl⟩, root, hsqrt, -, rfl⟩
    obtain ⟨hnonneg, hmax⟩ := bounds_of_sqrt hsqrt
    refine ⟨hnonneg, hmax, ?_⟩
    rw [sub_add_cancel]
    exact isRoot_of_sqrt hsqrt
  · rintro ⟨hnonneg, hmax, hroot⟩
    obtain ⟨root, hsqrt, hisRoot⟩ := sqrt_isRoot hnonneg hmax
    obtain rfl : root = minted + minimumLiquidity := hisRoot.isGreatest.unique hroot.isGreatest
    have hlow : i128.min ≤ -minimumLiquidity := by decide
    have hseed : 0 ≤ minimumLiquidity := by decide
    have hnonnegRoot := hroot.nonneg
    have hle := hroot.le_value
    refine ⟨_, ⟨⟨by omega, hmax.le⟩, rfl⟩, _, hsqrt, ⟨by omega, by omega⟩, ?_⟩
    exact add_sub_cancel_right _ _

theorem prime_i128_max : Prime i128.max := by
  have hprime : (mersenne 127).Prime := lucas_lehmer_sufficiency 127 (by norm_num) (by norm_num)
  exact Nat.prime_iff_prime_int.mp hprime

theorem mul_ne_i128_max {a b : ℤ} (ha : 1 < a) (hb : 1 < b) : a * b ≠ i128.max := by
  intro heq
  rcases prime_i128_max.irreducible.isUnit_or_isUnit heq.symm with hunit | hunit
  · rcases Int.isUnit_iff.mp hunit with hone | hone <;> omega
  · rcases Int.isUnit_iff.mp hunit with hone | hone <;> omega

/-- Deposits that `mint` does not refuse as dust have a root wherever their product fits. -/
theorem initialLiquidity_failsWith {amountA amountB : ℤ} (hA : minimumReserve ≤ amountA)
    (hB : minimumReserve ≤ amountB) :
    FailsWith (fun fault => fault ≠ .trap) (initialLiquidity amountA amountB) := by
  unfold minimumReserve at hA hB
  refine .checked (fun _ => nofun) fun hfits => ?_
  have hnonneg : 0 ≤ amountA * amountB := mul_nonneg (by omega) (by omega)
  have hne : amountA * amountB ≠ i128.max := mul_ne_i128_max (by omega) (by omega)
  obtain ⟨root, hsqrt, -⟩ := sqrt_isRoot hnonneg (lt_of_le_of_ne hfits.2 hne)
  rw [hsqrt]
  exact .bind (.ok root) fun _ _ => .okOr fun _ => nofun

end CoralSwap
