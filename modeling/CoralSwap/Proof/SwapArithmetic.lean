import CoralSwap.Pair.Panicking
import CoralSwap.Proof.FeeBounds
import CoralSwap.Proof.SwapFaults

/-!
# No plain operator of a swap panics

Every plain operator of the swap stands behind a check of another quantity: the differences behind the
comparison of the outputs with the reserves, the charge behind the scaled balance it is taken from, the
divisions behind constants or lower bounds of their divisors. So the reading with panics ends as the
swap itself does.
-/

namespace CoralSwap

open Host Host.Call

variable {Address : Type} {contract : Address} {env : Env contract} {fs fs' : FeeState}

/-! ### The fee -/

namespace FeeState

/-- What the types of the fee's fields and of the ledger allow, with the accumulator within its cap. -/
structure InWords (env : Env contract) (fs : FeeState) : Prop where
  bounded : fs.Bounded
  lastFeeUpdate : fs.lastFeeUpdate < 2 ^ 63
  staleThreshold : (fs.staleThreshold : ℤ) ≤ u32.max
  sequence : (env.sequence : ℤ) ≤ u32.max

end FeeState

open Panicking

theorem vol_mem_of_bounded (hbounded : fs.Bounded) : i128.min ≤ fs.volAccumulator ∧ fs.volAccumulator ≤ i128.max := by
  have hlow : i128.min ≤ 0 := by decide
  have hhigh : fs.maxVol ≤ i128.max := by
    obtain ⟨_, _, _, rfl⟩ := hbounded.configured
    show FeeState.initial.maxVol ≤ i128.max
    decide
  exact ⟨hlow.trans hbounded.vol_nonneg, hbounded.vol_le.trans hhigh⟩

theorem decayLoop_agrees {divisor : ℤ} (hdivisor : 0 < divisor) (periods : ℕ) {vol : ℤ}
    (hvol : i128.min ≤ vol ∧ vol ≤ i128.max) :
    Panicking.decayLoop divisor periods vol = pure (FeeState.decayLoop divisor periods vol) := by
  induction periods generalizing vol with
  | zero => rfl
  | succ periods ih =>
      have hquotient := tdiv_mem (w := i128) (by decide) hvol hdivisor
      rw [Panicking.decayLoop, FeeState.decayLoop, Word.checkedDiv_eq (by decide) hvol hdivisor]
      by_cases hspent : vol.tdiv divisor ≤ 0
      · rw [if_pos hspent]
        exact if_pos hspent
      · rw [if_neg hspent, ← ih hquotient]
        exact if_neg hspent

theorem applyTimeDecay_agrees (hbounded : fs.Bounded) {currentLedger : ℕ} (hledger : (currentLedger : ℤ) ≤ u32.max) :
    Panicking.applyTimeDecay fs currentLedger = pure (fs.applyTimeDecay currentLedger) := by
  unfold Panicking.applyTimeDecay FeeState.applyTimeDecay
  dsimp only
  split
  · rfl
  · have helapsed : u64.min ≤ ((currentLedger - fs.lastFeeUpdate : ℕ) : ℤ) ∧
        ((currentLedger - fs.lastFeeUpdate : ℕ) : ℤ) ≤ u64.max := by
      simp only [u32, u64] at *
      omega
    have hthreshold : (0 : ℤ) < (max fs.decayThresholdBlocks 1 : ℕ) := by omega
    have hdivisor : (0 : ℤ) < (max fs.cooldownDivisor 2 : ℕ) := by omega
    have hquotient : (((currentLedger - fs.lastFeeUpdate : ℕ) : ℤ).tdiv (max fs.decayThresholdBlocks 1 : ℕ)).toNat =
        (currentLedger - fs.lastFeeUpdate) / max fs.decayThresholdBlocks 1 := by
      rw [← Int.ofNat_tdiv, Int.toNat_natCast]
    rw [Word.checkedDiv_eq (by decide) helapsed hthreshold]
    show (if min _ _ = 0 then _ else _) = _
    rw [hquotient]
    split
    · rfl
    · rw [decayLoop_agrees hdivisor _ (vol_mem_of_bounded hbounded)]
      rfl

theorem decayStaleEma_agrees (hwords : fs.InWords env) :
    Agrees (Panicking.decayStaleEma env fs) (fs.decayStaleEma env) := by
  refine .bind (.operator fun hnone => ?_) fun staleAt _ => ?_
  · have hlast := hwords.lastFeeUpdate
    have hthreshold := hwords.staleThreshold
    refine Word.checked_eq_none.mp hnone ⟨?_, ?_⟩
    · simp only [u64]
      omega
    · simp only [u64, u32] at *
      omega
  · rw [applyTimeDecay_agrees hwords.bounded hwords.sequence]
    split <;> exact .ret _

theorem computeFeeBps_agrees (fs : FeeState) :
    Panicking.computeFeeBps fs = pure fs.computeFeeBps := by
  unfold Panicking.computeFeeBps FeeState.computeFeeBps
  split
  · rfl
  · have hscale : Panicking.scaleToBps = pure FeeState.scaleToBps := rfl
    rw [hscale, pure_bind, checkedDiv_saturatingMul _ _ (by decide)]
    rfl

theorem updateVolatility_agrees (env : Env contract) (fs : FeeState) (priceDeltaAbs tradeSize totalReserve : ℤ) :
    Agrees (Panicking.updateVolatility env fs priceDeltaAbs tradeSize totalReserve)
      (fs.updateVolatility env priceDeltaAbs tradeSize totalReserve) := by
  unfold Panicking.updateVolatility FeeState.updateVolatility
  iterate 11 refine .bind (.lift _) fun _ _ => ?_
  have hscale : Panicking.scaleToBps = pure FeeState.scaleToBps := rfl
  split
  · rename_i hramp
    rw [hscale, pure_bind]
    exact .total (checkedDiv_saturatingMul _ _ (by omega)) (.ret _)
  · exact .ret _

/-! ### The swap -/

theorem protocolFee_agrees (env : Env contract) (amountIn fee : ℤ) :
    Panicking.protocolFee env amountIn fee = pure (env.protocolFee amountIn fee) := by
  unfold Panicking.protocolFee Env.protocolFee
  split
  · rw [checkedDiv_saturatingMul _ _ (by decide)]
    rfl
  · rfl

theorem trackVolatility_agrees (env : Env contract) (fs : FeeState) (before after : PairStorage Address)
    (amountAIn amountBIn : ℤ) :
    Agrees (Panicking.trackVolatility env fs before after amountAIn amountBIn)
      (trackVolatility env fs before after amountAIn amountBIn) := by
  unfold Panicking.trackVolatility trackVolatility
  split
  · rename_i hreserves
    obtain ⟨hbeforeA, hbeforeB, hafterA, hafterB⟩ := hreserves
    have hbefore := scaledPrice_bounds hbeforeA hbeforeB
    have hafter := scaledPrice_bounds hafterA hafterB
    refine .bind (.operator fun hnone => ?_) fun priceDeltaAbs _ => ?_
    · rw [checkedSub_of_prices hbefore hafter] at hnone
      cases hnone
    · dsimp only
      rw [updateVolatility_agrees]
      rcases FeeState.updateVolatility env fs priceDeltaAbs (max amountAIn amountBIn)
        (i128.saturatingAdd after.reserveA after.reserveB) with ⟨code | _⟩ | updated
      · exact .ret _
      · rfl
      · exact .ret _
  · exact .ret _

/-- The differences behind an output that leaves at least the floor in the reserve. -/
theorem inferInput_agrees {paid : Token Address} {reserve amountOut : ℤ}
    (hleft : i128.min ≤ reserve - amountOut ∧ reserve - amountOut ≤ i128.max)
    (hfloor : minimumReserve ≤ reserve - amountOut) :
    Agrees (Panicking.inferInput (paid.balance contract) reserve amountOut)
      (inferInput (paid.balance contract) reserve amountOut) := by
  have hnonneg : 0 ≤ reserve - amountOut := le_trans (by decide) hfloor
  refine .bind (.operator fun hnone => Word.checked_eq_none.mp hnone hleft) fun kept hkept => ?_
  obtain ⟨-, rfl⟩ := Word.checkedSub_eq_some.mp (orTrap_eq_ok.mp hkept)
  refine .bind (.operator fun hnone => ?_) fun _ _ => .ret _
  exact not_fits_of_checked hnone (sub_fits ⟨paid.nonneg contract, paid.bounded contract⟩ ⟨hnonneg, hleft.2⟩)

theorem input_mem {paid : Token Address} {reserve amountOut amountIn : ℤ}
    (hfloor : minimumReserve ≤ reserve - amountOut)
    (hinfer : inferInput (paid.balance contract) reserve amountOut = .ok amountIn) :
    0 ≤ amountIn ∧ amountIn ≤ paid.balance contract := by
  have hnonneg : 0 ≤ reserve - amountOut := le_trans (by decide) hfloor
  have hbalance := paid.nonneg contract
  rw [inferInput_ok hinfer]
  omega

/-- The charge is within the scaled balance it is taken from. -/
theorem feeAdjusted_agrees {balance amountIn : ℤ} {feeBps : ℕ} (hfee : (feeBps : ℤ) ≤ bpsDenominator)
    (hin : 0 ≤ amountIn) (hle : amountIn ≤ balance) :
    Agrees (Panicking.feeAdjusted balance amountIn feeBps) (feeAdjusted balance amountIn feeBps) := by
  refine .bind (.lift _) fun scaled hscaled => ?_
  obtain ⟨hfits, rfl⟩ := Word.checkedMul_eq_some.mp (okOr_eq_ok.mp hscaled)
  refine .bind (.operator fun hnone => ?_) fun _ _ => .lift _
  refine absurd (fits_of_le (mul_nonneg hin (Int.natCast_nonneg _)) ?_ hfits.2) (not_fits_of_checked hnone)
  exact mul_le_mul hle hfee (Int.natCast_nonneg _) (hin.trans hle)

theorem effectiveFeeBps_le (hoverride : ∀ overrideBps, env.Overrides overrideBps → overrideBps ≤ 10000)
    {dynamicFeeBps : ℕ} (hdynamic : dynamicFeeBps ≤ 10000) : env.effectiveFeeBps dynamicFeeBps ≤ 10000 := by
  by_cases hoverrides : ∃ overrideBps, env.Overrides overrideBps
  · obtain ⟨overrideBps, hoverrides⟩ := hoverrides
    rw [effectiveFeeBps_of_overrides hoverrides]
    exact hoverride overrideBps hoverrides
  · rw [effectiveFeeBps_of_not_overrides (not_exists.mp hoverrides)]
    exact hdynamic

variable [DecidableEq Address]

/-- **The plain operators of a swap** stay in their words. -/
theorem swapInner_agrees {w : World Address}
    (hwords : ∀ stored, w.pair.feeState = some stored → stored.InWords env)
    (hoverride : ∀ overrideBps, env.Overrides overrideBps → overrideBps ≤ 10000)
    (amountAOut amountBOut : ℤ) (dst : Address) :
    Agrees (Panicking.swapInner env w amountAOut amountBOut dst) (swapInner env w amountAOut amountBOut dst) := by
  -- the request
  refine .bind (.lift _) fun _ _ => .bind (.lift _) fun pair _ => .bind (.lift _) fun stored hstored => ?_
  have hinWords := hwords stored (World.getFeeState_eq_ok.mp hstored)
  refine .bind (.lift _) fun _ _ => ?_
  refine .bind (.lift _) fun leftA hleftA => .bind (.lift _) fun leftB hleftB => ?_
  obtain ⟨hfitsA, rfl⟩ := Word.checkedSub_eq_some.mp (okOr_eq_ok.mp hleftA)
  obtain ⟨hfitsB, rfl⟩ := Word.checkedSub_eq_some.mp (okOr_eq_ok.mp hleftB)
  refine .bind (.lift _) fun _ hfloor => ?_
  obtain ⟨hfloorA, hfloorB⟩ := not_or.mp (failIf_eq_ok.mp hfloor)
  -- the fee
  refine .bind (decayStaleEma_agrees hinWords) fun decayed hdecay => ?_
  rw [computeFeeBps_agrees, pure_bind]
  have hbounded := FeeState.bounded_of_decayStaleEma hinWords.bounded hdecay
  have hfee : ((env.effectiveFeeBps decayed.computeFeeBps : ℕ) : ℤ) ≤ bpsDenominator := by
    have hdynamic : decayed.computeFeeBps ≤ 10000 := by
      obtain ⟨_, _, _, hconfigured⟩ := hbounded.configured
      refine decayed.computeFeeBps_le_max.trans ?_
      rw [hconfigured]
      show FeeState.initial.maxFeeBps ≤ 10000
      decide
    have hrate := effectiveFeeBps_le hoverride hdynamic
    unfold bpsDenominator
    omega
  -- the payouts and the inputs
  refine .bind (.lift _) fun paidA _ => .bind (.lift _) fun paidB _ => ?_
  refine .bind (inferInput_agrees hfitsA (not_lt.mp hfloorA)) fun amountAIn hinA => ?_
  refine .bind (inferInput_agrees hfitsB (not_lt.mp hfloorB)) fun amountBIn hinB => ?_
  obtain ⟨hnonnegA, hleA⟩ := input_mem (not_lt.mp hfloorA) hinA
  obtain ⟨hnonnegB, hleB⟩ := input_mem (not_lt.mp hfloorB) hinB
  refine .bind (.lift _) fun _ _ => ?_
  refine .bind (feeAdjusted_agrees hfee hnonnegA hleA) fun _ _ => ?_
  refine .bind (feeAdjusted_agrees hfee hnonnegB hleB) fun _ _ => ?_
  -- the product check and the protocol fee
  iterate 4 refine .bind (.lift _) fun _ _ => ?_
  rw [protocolFee_agrees, pure_bind, protocolFee_agrees, pure_bind]
  iterate 5 refine .bind (.lift _) fun _ _ => ?_
  exact .bind (trackVolatility_agrees _ _ _ _ _ _) fun _ _ => .ret _

/-- No plain operator of a swap overflows or divides by zero: told apart from the refusals of the host, a
panic never ends it. The update of the volatility may fail, and the swap goes on. -/
theorem swapInner_never_panics {w : World Address}
    (hwords : ∀ stored, w.pair.feeState = some stored → stored.InWords env)
    (hoverride : ∀ overrideBps, env.Overrides overrideBps → overrideBps ≤ 10000)
    (amountAOut amountBOut : ℤ) (dst : Address) :
    Panicking.swapInner env w amountAOut amountBOut dst ≠ .error (.error .arithmetic) ∧
      Panicking.swapInner env w amountAOut amountBOut dst = typed (swapInner env w amountAOut amountBOut dst) ∧
      ∀ fs before after amountAIn amountBIn, ∃ tracked,
        trackVolatility env fs before after amountAIn amountBIn = .ok tracked := by
  have hagrees := swapInner_agrees hwords hoverride amountAOut amountBOut dst
  exact ⟨hagrees.ne_arithmetic, hagrees, fun fs before after amountAIn amountBIn =>
    (trackVolatility_failsWith env fs before after amountAIn amountBIn).returns⟩

theorem swapInner_never_panics_opened :
    let env : Env 0 := Env.quiet 0 1 1 (some 10000)
    Panicking.swapInner env (openedPool env 100000 100000) i128.min i128.max 1 ≠ .error (.error .arithmetic) := by
  intro env
  have hinitial : (openedPool env 100000 100000).pair.feeState = some FeeState.initial := by
    decide +kernel
  refine (swapInner_never_panics ?_ ?_ i128.min i128.max 1).1
  · intro stored hstored
    obtain rfl := Option.some.inj (hinitial.symm.trans hstored)
    exact ⟨FeeState.bounded_initial, by decide, by decide, by decide⟩
  · rintro overrideBps ⟨hanswer, -⟩
    obtain rfl : 10000 = overrideBps := Option.some.inj (Option.some.inj hanswer)
    exact le_rfl

end CoralSwap
