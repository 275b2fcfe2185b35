import CoralSwap.Lib.Quadratic
import CoralSwap.Proof.SquareRoots

/-!
# The split of a single-sided deposit

The amount to swap first is the positive root of a quadratic, rounded down. The computation leaves
its 256 bits only where the discriminant itself does: no value on the way there is larger.
-/

namespace CoralSwap

open Host Host.Call NewtonSqrt Quadratic

/-- What a swap of `x` uses of the deposit, in basis points of the reserve. -/
def splitUse (reserveIn : ℤ) (feeBps : ℕ) (x : ℤ) : ℤ :=
  (10000 - feeBps) * x ^ 2 + reserveIn * (10000 + (10000 - feeBps)) * x

def splitDiscriminant (reserveIn amount : ℤ) (feeBps : ℕ) : ℤ :=
  reserveIn * (reserveIn * (10000 + (10000 - feeBps)) ^ 2 + 4 * (10000 - feeBps) * amount * 10000)

variable {reserveIn amount value root x : ℤ} {feeBps : ℕ}

theorem splitUse_eq (reserveIn : ℤ) (feeBps : ℕ) (x : ℤ) :
    splitUse reserveIn feeBps x =
      Quadratic.value (10000 - feeBps) (reserveIn * (10000 + (10000 - feeBps))) x := by
  unfold splitUse Quadratic.value
  ring

theorem splitDiscriminant_eq (reserveIn amount : ℤ) (feeBps : ℕ) :
    splitDiscriminant reserveIn amount feeBps =
      discriminant (10000 - feeBps) (reserveIn * (10000 + (10000 - feeBps))) (10000 * reserveIn * amount) := by
  unfold splitDiscriminant discriminant
  ring

/-! ### The 256-bit square root -/

theorem sqrtU256_isRoot (hvalue : 0 ≤ value) (hmax : value < u256.max) :
    ∃ root, sqrtU256 value = .ok root ∧ IsRoot value root := by
  unfold sqrtU256
  split
  · rename_i hzero
    exact ⟨0, rfl, le_rfl, by simpa using hvalue, by omega⟩
  · rename_i hzero
    exact newtonSqrt_isRoot (by decide) (by omega) hmax

theorem isRoot_of_sqrtU256 (hvalue : 0 ≤ value) (hsqrt : sqrtU256 value = .ok root) : IsRoot value root := by
  have hmax : value < u256.max := by
    unfold sqrtU256 at hsqrt
    split at hsqrt
    · rename_i hzero
      rw [hzero]
      decide
    · simp only [newtonSqrt, bind_eq_ok, orTrap_eq_ok, Word.checkedAdd_eq_some] at hsqrt
      obtain ⟨_, ⟨⟨-, hmax⟩, -⟩, -⟩ := hsqrt
      exact Int.lt_of_add_one_le hmax
  obtain ⟨root', hroot', hisRoot⟩ := sqrtU256_isRoot hvalue hmax
  obtain rfl : root' = root := Except.ok.inj (hroot'.symm.trans hsqrt)
  exact hisRoot

/-! ### The rounded root -/

theorem splitDiscriminant_nonneg (hreserve : 0 < reserveIn) (hamount : 0 < amount) (hfee : feeBps < 10000) :
    0 ≤ splitDiscriminant reserveIn amount feeBps := by
  have hf : 0 < 10000 - (feeBps : ℤ) := by omega
  unfold splitDiscriminant
  positivity

theorem quotient_isSplit (hreserve : 0 < reserveIn) (hamount : 0 < amount) (hfee : feeBps < 10000)
    (hroot : IsRoot (splitDiscriminant reserveIn amount feeBps) root)
    (hx : (root - reserveIn * (10000 + (10000 - feeBps))).tdiv (2 * (10000 - feeBps)) = x) :
    0 ≤ x ∧ x < amount ∧ splitUse reserveIn feeBps x ≤ 10000 * reserveIn * amount ∧
      10000 * reserveIn * amount < splitUse reserveIn feeBps (x + 1) := by
  have hf : 0 < 10000 - (feeBps : ℤ) := by omega
  set f : ℤ := 10000 - feeBps
  have hb : 0 ≤ reserveIn * (10000 + f) := mul_nonneg hreserve.le (by omega)
  rw [splitDiscriminant_eq] at hroot
  have hnumerator : 0 ≤ root - reserveIn * (10000 + f) :=
    sub_nonneg.mpr (le_root hf (by positivity) hb hroot)
  have hnonneg : 0 ≤ x := hx ▸ Int.tdiv_nonneg hnumerator (by omega)
  rw [Int.tdiv_eq_ediv_of_nonneg hnumerator] at hx
  have hle (y : ℤ) (hy : 0 ≤ y) : y ≤ x ↔ splitUse reserveIn feeBps y ≤ 10000 * reserveIn * amount := by
    rw [splitUse_eq, ← hx]
    exact le_quotient_iff hf hb hroot hy
  refine ⟨hnonneg, ?_, (hle x hnonneg).mp le_rfl, ?_⟩
  · by_contra hge
    have hwhole := (hle amount hamount.le).mp (not_lt.mp hge)
    have hsquare : 0 < f * amount ^ 2 := by positivity
    have hcross : 0 < reserveIn * f * amount := by positivity
    simp only [splitUse] at hwhole
    linarith
  · by_contra hge
    have hnext := (hle (x + 1) (by omega)).mpr (not_lt.mp hge)
    omega

theorem isSplit_of_ok (hreserve : 0 < reserveIn) (hamount : 0 < amount) (hfee : feeBps < 10000)
    (hsplit : computeSwapInForSingleSide reserveIn amount feeBps = .ok x) :
    0 ≤ x ∧ x < amount ∧ splitUse reserveIn feeBps x ≤ 10000 * reserveIn * amount ∧
      10000 * reserveIn * amount < splitUse reserveIn feeBps (x + 1) := by
  simp only [computeSwapInForSingleSide, bind_eq_ok, pure_eq_ok, failIf_eq_ok, okOr_eq_ok,
    Word.checkedMul_eq_some, Word.checkedAdd_eq_some] at hsplit
  obtain ⟨-, -, -, -, _, ⟨-, rfl⟩, _, ⟨-, rfl⟩, _, ⟨-, rfl⟩, _, ⟨-, rfl⟩, _, ⟨-, rfl⟩, _, ⟨-, rfl⟩, _,
    ⟨-, rfl⟩, _, ⟨⟨hlow, -⟩, rfl⟩, root, hroot, _, ⟨-, rfl⟩, -, -, _, ⟨-, rfl⟩, -, -, -, -, hx⟩ := hsplit
  have hdiscriminant : reserveIn * (reserveIn * ((10000 + (10000 - feeBps)) * (10000 + (10000 - feeBps))) +
      4 * (10000 - feeBps) * amount * 10000) = splitDiscriminant reserveIn amount feeBps := by
    unfold splitDiscriminant
    ring
  rw [hdiscriminant] at hlow hroot
  exact quotient_isSplit hreserve hamount hfee (isRoot_of_sqrtU256 hlow hroot) hx

/-! ### The only failure -/

/-- `2^256 - 1` is not a discriminant, so the square root of one that fits never overflows. -/
theorem splitDiscriminant_lt_max (hmax : splitDiscriminant reserveIn amount feeBps < 2 ^ 256) :
    splitDiscriminant reserveIn amount feeBps < u256.max := by
  have hmod := discriminant_emod_four (10000 - feeBps) (reserveIn * (10000 + (10000 - feeBps)))
    (10000 * reserveIn * amount)
  rw [← splitDiscriminant_eq] at hmod
  simp only [u256]
  omega

theorem exists_split (hreserve : 0 < reserveIn) (hamount : 0 < amount) (hamountMax : amount ≤ i128.max)
    (hfee : feeBps < 10000) (hmax : splitDiscriminant reserveIn amount feeBps < 2 ^ 256) :
    ∃ x, computeSwapInForSingleSide reserveIn amount feeBps = .ok x := by
  obtain ⟨root, hroot, hisRoot⟩ :=
    sqrtU256_isRoot (splitDiscriminant_nonneg hreserve hamount hfee) (splitDiscriminant_lt_max hmax)
  obtain ⟨hnonneg, hlt, -⟩ := quotient_isSplit hreserve hamount hfee hisRoot rfl
  have hf : 0 < 10000 - (feeBps : ℤ) := by omega
  have hf' : 10000 - (feeBps : ℤ) ≤ 10000 := by omega
  have hnumerator := le_root hf (by positivity) (mul_nonneg hreserve.le (by omega))
    (splitDiscriminant_eq reserveIn amount feeBps ▸ hisRoot)
  set f : ℤ := 10000 - feeBps with hfactorEq
  -- every value of the computation is at most the discriminant
  have hwhole : reserveIn * (reserveIn * ((10000 + f) * (10000 + f)) + 4 * f * amount * 10000) =
      splitDiscriminant reserveIn amount feeBps := by
    unfold splitDiscriminant
    ring
  have hsquare : 0 < reserveIn * ((10000 + f) * (10000 + f)) := by positivity
  have hscaled : 0 < 4 * f * amount := by positivity
  have hinner : reserveIn * ((10000 + f) * (10000 + f)) + 4 * f * amount * 10000 ≤
      splitDiscriminant reserveIn amount feeBps :=
    hwhole ▸ le_mul_of_one_le_left (by positivity) (by omega)
  have hlinear : reserveIn * (10000 + f) ≤ reserveIn * ((10000 + f) * (10000 + f)) :=
    mul_le_mul_of_nonneg_left (le_mul_of_one_le_left (by omega) (by omega)) hreserve.le
  have hlinearPos : 0 < reserveIn * (10000 + f) := by positivity
  have hfactorPos : 0 < (10000 + f) * (10000 + f) := by positivity
  have hfactor : (10000 + f) * (10000 + f) ≤ 20000 * 20000 :=
    mul_le_mul (by omega) (by omega) (by omega) (by norm_num)
  refine ⟨(root - reserveIn * (10000 + f)).tdiv (2 * f), ?_⟩
  simp only [computeSwapInForSingleSide, bind_eq_ok, pure_eq_ok, failIf_eq_ok, okOr_eq_ok,
    Word.checkedMul_eq_some, Word.checkedAdd_eq_some, ← hfactorEq]
  have hmin : u256.min = 0 := rfl
  have humax : u256.max = 2 ^ 256 - 1 := rfl
  refine ⟨(), by omega, (), by omega, _, ⟨⟨?_, ?_⟩, rfl⟩, _, ⟨⟨?_, ?_⟩, rfl⟩, _, ⟨⟨?_, ?_⟩, rfl⟩, _,
    ⟨⟨?_, ?_⟩, rfl⟩, _, ⟨⟨?_, ?_⟩, rfl⟩, _, ⟨⟨?_, ?_⟩, rfl⟩, _, ⟨⟨?_, ?_⟩, rfl⟩, _, ⟨⟨?_, ?_⟩, rfl⟩, root,
    hwhole.symm ▸ hroot, _, ⟨⟨?_, ?_⟩, rfl⟩, (), not_lt.mpr hnumerator, _, ⟨⟨?_, ?_⟩, rfl⟩, (), by omega, (), ?_, rfl⟩
  all_goals omega

/-- The split is the root of the quadratic rounded down. The computation fails only where the
discriminant leaves the 256 bits. -/
theorem computeSwapInForSingleSide_exact (hreserve : 0 < reserveIn) (hamount : 0 < amount)
    (hamountMax : amount ≤ i128.max) (hfee : feeBps < 10000) :
    (∀ x, computeSwapInForSingleSide reserveIn amount feeBps = .ok x →
      0 ≤ x ∧ x < amount ∧ splitUse reserveIn feeBps x ≤ 10000 * reserveIn * amount ∧
        10000 * reserveIn * amount < splitUse reserveIn feeBps (x + 1)) ∧
      ∀ fault, computeSwapInForSingleSide reserveIn amount feeBps = .error fault →
        2 ^ 256 ≤ splitDiscriminant reserveIn amount feeBps := by
  refine ⟨fun x hsplit => isSplit_of_ok hreserve hamount hfee hsplit, fun fault hfault => ?_⟩
  by_contra hlt
  obtain ⟨x, hsplit⟩ := exists_split hreserve hamount hamountMax hfee (not_le.mp hlt)
  rw [hfault] at hsplit
  cases hsplit

theorem split_of_thousand :
    computeSwapInForSingleSide 1000000 1000 30 = .ok 500 ∧
      splitUse 1000000 30 500 ≤ 10000 * 1000000 * 1000 ∧ 10000 * 1000000 * 1000 < splitUse 1000000 30 501 := by
  have hsplit : computeSwapInForSingleSide 1000000 1000 30 = .ok 500 := by decide +kernel
  exact ⟨hsplit, ((computeSwapInForSingleSide_exact (by decide) (by decide) (by decide) (by decide)).1 500
    hsplit).2.2⟩

end CoralSwap
