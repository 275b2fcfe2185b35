import CoralSwap.Proof.RouterSwaps
import CoralSwap.Router.Liquidity

/-!
# Deposits through the router

One of the two amounts of a deposit is what the caller desires, the other what the reserves make of it,
rounded down. Nothing depends on the order in which the caller names the tokens.
-/

namespace CoralSwap.Router

open Host Host.Call

/-! ### The amounts -/

section Amounts

variable {amountADesired amountBDesired amountAMin amountBMin reserveA reserveB amountA amountB v : ℤ}

theorem proportional_eq_ok {amount numerator denominator : ℤ}
    (hproportional : proportional amount numerator denominator = .ok v) :
    (amount * numerator).tdiv denominator = v := by
  simp only [proportional, bind_eq_ok, okOr_eq_ok, orTrap_eq_ok, Word.checkedMul_eq_some,
    Word.checkedDiv_eq_some] at hproportional
  obtain ⟨_, ⟨-, rfl⟩, -, -, hv⟩ := hproportional
  exact hv

/-- The amounts of a deposit: one as desired, the other its image under the ratio of the reserves. -/
structure KeepsRatio (amountADesired amountBDesired reserveA reserveB amountA amountB : ℤ) : Prop where
  desired : amountA = amountADesired ∨ amountB = amountBDesired
  ratio : 0 < reserveA → 0 < reserveB →
    (amountA = amountADesired ∧ amountB = amountADesired * reserveB / reserveA) ∨
      (amountB = amountBDesired ∧ amountA = amountBDesired * reserveA / reserveB)

/-- An image that is too large for the second amount leaves room for its own image in the first. -/
theorem image_le (hA : 0 < reserveA) (hB : 0 < reserveB) (ha : 0 ≤ amountADesired) (hb : 0 ≤ amountBDesired)
    (hlt : amountBDesired < (amountADesired * reserveB).tdiv reserveA) :
    (amountBDesired * reserveA).tdiv reserveB ≤ amountADesired := by
  have hcovered := (le_tdiv_iff (mul_nonneg ha hB.le) hA).mp (Int.add_one_le_of_lt hlt)
  rw [tdiv_le_iff (mul_nonneg hb hA.le) hB]
  linarith

theorem computeOptimalAmounts_bounds (ha : 0 < amountADesired) (hb : 0 < amountBDesired)
    (haMin : amountAMin ≤ amountADesired) (hbMin : amountBMin ≤ amountBDesired)
    (hreserves : (0 < reserveA ∧ 0 < reserveB) ∨ (reserveA = 0 ∧ reserveB = 0))
    (hoptimal : computeOptimalAmounts amountADesired amountBDesired amountAMin amountBMin reserveA reserveB =
      .ok (amountA, amountB)) :
    (amountAMin ≤ amountA ∧ amountA ≤ amountADesired) ∧ (amountBMin ≤ amountB ∧ amountB ≤ amountBDesired) ∧
      KeepsRatio amountADesired amountBDesired reserveA reserveB amountA amountB := by
  rcases hreserves with ⟨hA, hB⟩ | hempty
  · rw [computeOptimalAmounts, if_neg (fun hzero => hA.ne' hzero.1), bind_eq_ok] at hoptimal
    obtain ⟨image, himage, hoptimal⟩ := hoptimal
    obtain rfl := proportional_eq_ok himage
    split at hoptimal
    · rename_i hle
      simp only [bind_eq_ok, failIf_eq_ok, pure_eq_ok, exists_const, Prod.mk.injEq, not_lt] at hoptimal
      obtain ⟨hmin, rfl, rfl⟩ := hoptimal
      refine ⟨⟨haMin, le_rfl⟩, ⟨hmin, hle⟩, .inl rfl, fun _ _ => .inl ⟨rfl, ?_⟩⟩
      exact Int.tdiv_eq_ediv_of_nonneg (mul_nonneg ha.le hB.le)
    · rename_i hlt
      rw [bind_eq_ok] at hoptimal
      obtain ⟨image, himage, hoptimal⟩ := hoptimal
      obtain rfl := proportional_eq_ok himage
      simp only [bind_eq_ok, failIf_eq_ok, pure_eq_ok, exists_const, Prod.mk.injEq, not_lt] at hoptimal
      obtain ⟨hmin, rfl, rfl⟩ := hoptimal
      refine ⟨⟨hmin, image_le hA hB ha.le hb.le (not_le.mp hlt)⟩, ⟨hbMin, le_rfl⟩, .inr rfl,
        fun _ _ => .inr ⟨rfl, ?_⟩⟩
      exact Int.tdiv_eq_ediv_of_nonneg (mul_nonneg hb.le hA.le)
  · rw [computeOptimalAmounts, if_pos hempty] at hoptimal
    obtain ⟨rfl, rfl⟩ := Prod.mk.inj (pure_eq_ok.mp hoptimal)
    exact ⟨⟨haMin, le_rfl⟩, ⟨hbMin, le_rfl⟩, .inl rfl, fun hA => absurd hempty.1 hA.ne'⟩

end Amounts

/-! ### The order of the tokens -/

section Order

variable {Address χ : Type} [LinearOrder Address] {router : Address}

/-- The result of a deposit as the caller reads it who names the tokens the other way round. -/
def flipped (result : χ × ℤ × ℤ × ℤ) : χ × ℤ × ℤ × ℤ :=
  (result.1, result.2.2.1, result.2.1, result.2.2.2)

variable (env : RouterEnv router χ) (rest : χ) (storage : RouterStorage Address) {tokenA tokenB : Address}
variable (amountADesired amountBDesired amountAMin amountBMin : ℤ) (dst : Address) (deadline : ℕ)
variable (deadlineLedger : Option ℕ)

omit [LinearOrder Address] in
theorem failIf_congr {c d : Prop} [Decidable c] [Decidable d] (h : c ↔ d) (code : RouterError) :
    (failIf c code : Call RouterError Unit) = failIf d code := if_congr h rfl rfl

theorem addLiquidity_flipped_of_lt (hlt : tokenA < tokenB) :
    addLiquidity env rest storage tokenB tokenA amountBDesired amountADesired amountBMin amountAMin dst deadline
        deadlineLedger =
      flipped <$> addLiquidity env rest storage tokenA tokenB amountADesired amountBDesired amountAMin amountBMin
        dst deadline deadlineLedger := by
  have hsorted : sortTokens tokenA tokenB = pure (tokenA, tokenB) :=
    sortTokens_eq_ok.mpr ⟨hlt.ne, if_pos hlt⟩
  have hsorted' : sortTokens tokenB tokenA = pure (tokenA, tokenB) :=
    sortTokens_eq_ok.mpr ⟨hlt.ne', if_neg hlt.not_gt⟩
  have hkept : decide (tokenA ≠ tokenA) = false := decide_eq_false (not_not.mpr rfl)
  have hswapped : decide (tokenA ≠ tokenB) = true := decide_eq_true hlt.ne
  unfold addLiquidity
  simp only [hsorted, hsorted', map_bind, pure_bind, hkept, hswapped]
  rw [failIf_congr or_comm, failIf_congr eq_comm]
  refine bind_congr fun _ => bind_congr fun _ => bind_congr fun _ => bind_congr fun _ => bind_congr fun _ => ?_
  rfl

theorem addLiquidity_self (token : Address) :
    addLiquidity env rest storage token token amountBDesired amountADesired amountBMin amountAMin dst deadline
        deadlineLedger =
      flipped <$> addLiquidity env rest storage token token amountADesired amountBDesired amountAMin amountBMin
        dst deadline deadlineLedger := by
  unfold addLiquidity
  simp only [map_bind]
  rw [failIf_congr or_comm]
  refine bind_congr fun _ => bind_congr fun _ => ?_
  simp only [failIf, if_true]
  rfl

/-- **The order of the tokens** does not matter to a deposit. -/
theorem addLiquidity_flipped (tokenA tokenB : Address) :
    addLiquidity env rest storage tokenB tokenA amountBDesired amountADesired amountBMin amountAMin dst deadline
        deadlineLedger =
      flipped <$> addLiquidity env rest storage tokenA tokenB amountADesired amountBDesired amountAMin amountBMin
        dst deadline deadlineLedger := by
  rcases lt_trichotomy tokenA tokenB with hlt | rfl | hgt
  · exact addLiquidity_flipped_of_lt env rest storage _ _ _ _ dst deadline deadlineLedger hlt
  · exact addLiquidity_self env rest storage _ _ _ _ dst deadline deadlineLedger _
  · have hback := addLiquidity_flipped_of_lt env rest storage amountBDesired amountADesired amountBMin amountAMin dst
      deadline deadlineLedger hgt
    rw [hback, ← comp_map]
    exact (id_map _).symm

/-- What a deposit moves to the pair, `amounts` in the canonical order of the tokens. -/
def Deposits (rest' : χ) (pair token0 token1 : Address) (amounts : ℤ × ℤ) (liquidity : ℤ) : Prop :=
  ∃ sent0 sent1, env.chain.transfer rest token0 dst pair amounts.1 = some sent0 ∧
    env.chain.transfer sent0 token1 dst pair amounts.2 = some sent1 ∧
    env.chain.mint sent1 pair dst = some (rest', liquidity)

omit [LinearOrder Address] in
theorem reorder_reorder (swapped : Bool) (values : ℤ × ℤ) : reorder swapped (reorder swapped values) = values := by
  cases swapped <;> rfl

/-- A deposit moves the amounts computed from the reserves, and returns them. -/
theorem addLiquidity_ok {rest' : χ} {amountA amountB liquidity : ℤ}
    (hadd : addLiquidity env rest storage tokenA tokenB amountADesired amountBDesired amountAMin amountBMin dst
      deadline deadlineLedger = .ok (rest', amountA, amountB, liquidity)) :
    ∃ pair token0 token1 reserve0 reserve1, sortTokens tokenA tokenB = .ok (token0, token1) ∧
      env.chain.getReserves rest pair = some (reserve0, reserve1) ∧
      computeOptimalAmounts (reorder (decide (token0 ≠ tokenA)) (amountADesired, amountBDesired)).1
        (reorder (decide (token0 ≠ tokenA)) (amountADesired, amountBDesired)).2
        (reorder (decide (token0 ≠ tokenA)) (amountAMin, amountBMin)).1
        (reorder (decide (token0 ≠ tokenA)) (amountAMin, amountBMin)).2 reserve0 reserve1 =
          .ok (reorder (decide (token0 ≠ tokenA)) (amountA, amountB)) ∧
      Deposits env rest dst rest' pair token0 token1 (reorder (decide (token0 ≠ tokenA)) (amountA, amountB))
        liquidity := by
  simp only [addLiquidity, bind_eq_ok, orTrap_eq_ok, pure_eq_ok, Prod.exists, Prod.mk.injEq] at hadd
  obtain ⟨-, -, -, -, -, -, token0, token1, hsorted, -, -, pair, -, reserve0, reserve1, hreserves, amount0, amount1,
    hoptimal, -, -, sent0, hsent0, sent1, hsent1, _, _, hminted, rfl, rfl, rfl, rfl⟩ := hadd
  refine ⟨pair, token0, token1, reserve0, reserve1, hsorted, hreserves, ?_, sent0, sent1, ?_⟩
  · rw [Prod.mk.eta, reorder_reorder]
    exact hoptimal
  · rw [Prod.mk.eta, reorder_reorder]
    exact ⟨hsent0, hsent1, hminted⟩

end Order

/-- The amounts of a deposit stay within what the caller desires and accepts, one as desired and the other
its image under the ratio, and either order of the tokens moves the same ones. -/
theorem addLiquidity_within_bounds {Address χ : Type} [LinearOrder Address] {router : Address}
    (env : RouterEnv router χ) (rest : χ) (storage : RouterStorage Address) (tokenA tokenB : Address)
    (amountADesired amountBDesired amountAMin amountBMin : ℤ) (dst : Address) (deadline : ℕ)
    (deadlineLedger : Option ℕ) :
    (∀ reserveA reserveB amountA amountB, 0 < amountADesired → 0 < amountBDesired →
      amountAMin ≤ amountADesired → amountBMin ≤ amountBDesired →
      ((0 < reserveA ∧ 0 < reserveB) ∨ (reserveA = 0 ∧ reserveB = 0)) →
      computeOptimalAmounts amountADesired amountBDesired amountAMin amountBMin reserveA reserveB =
        .ok (amountA, amountB) →
      (amountAMin ≤ amountA ∧ amountA ≤ amountADesired) ∧ (amountBMin ≤ amountB ∧ amountB ≤ amountBDesired) ∧
        KeepsRatio amountADesired amountBDesired reserveA reserveB amountA amountB) ∧
    (∀ rest' amountA amountB liquidity,
      addLiquidity env rest storage tokenA tokenB amountADesired amountBDesired amountAMin amountBMin dst deadline
        deadlineLedger = .ok (rest', amountA, amountB, liquidity) →
      ∃ pair token0 token1 reserve0 reserve1, sortTokens tokenA tokenB = .ok (token0, token1) ∧
        env.chain.getReserves rest pair = some (reserve0, reserve1) ∧
        computeOptimalAmounts (reorder (decide (token0 ≠ tokenA)) (amountADesired, amountBDesired)).1
          (reorder (decide (token0 ≠ tokenA)) (amountADesired, amountBDesired)).2
          (reorder (decide (token0 ≠ tokenA)) (amountAMin, amountBMin)).1
          (reorder (decide (token0 ≠ tokenA)) (amountAMin, amountBMin)).2 reserve0 reserve1 =
            .ok (reorder (decide (token0 ≠ tokenA)) (amountA, amountB)) ∧
        Deposits env rest dst rest' pair token0 token1 (reorder (decide (token0 ≠ tokenA)) (amountA, amountB))
          liquidity) ∧
    addLiquidity env rest storage tokenB tokenA amountBDesired amountADesired amountBMin amountAMin dst deadline
        deadlineLedger =
      flipped <$> addLiquidity env rest storage tokenA tokenB amountADesired amountBDesired amountAMin amountBMin
        dst deadline deadlineLedger := by
  refine ⟨?_, ?_, addLiquidity_flipped env rest storage _ _ _ _ dst deadline deadlineLedger tokenA tokenB⟩
  · intro reserveA reserveB amountA amountB ha hb haMin hbMin hreserves hoptimal
    exact computeOptimalAmounts_bounds ha hb haMin hbMin hreserves hoptimal
  · intro rest' amountA amountB liquidity hadd
    exact addLiquidity_ok env rest storage _ _ _ _ dst deadline deadlineLedger hadd

/-- A deposit of 1000 of token 20 into the hub's pool, tokens named against their order. -/
theorem addLiquidity_within_bounds_hub :
    KeepsRatio 1500 1000 20000 20000 1000 1000 ∧
      addLiquidity hubEnv hubNetwork hubStorage 20 21 1000 1500 900 900 1 1 none =
        flipped <$> addLiquidity hubEnv hubNetwork hubStorage 21 20 1500 1000 900 900 1 1 none := by
  have hbounds := addLiquidity_within_bounds hubEnv hubNetwork hubStorage 21 20 1500 1000 900 900 1 1 none
  exact ⟨(hbounds.1 20000 20000 1000 1000 (by decide) (by decide) (by decide) (by decide) (by decide)
    (by decide +kernel)).2.2, hbounds.2.2⟩

end CoralSwap.Router
