import CoralSwap.Lib.WeightedMean
import CoralSwap.Pair.InPlace
import CoralSwap.Proof.FeeDecay
import CoralSwap.Proof.SwapFaults

/-!
# The volatility update

An update moves the accumulator to a mean of itself and the size-weighted observation, and then under the
cap. Every step that can fail comes before the first write, so an error leaves the fee state alone, and the
swap that ignores it stores what it had.
-/

namespace CoralSwap

open Host Host.Call Host.Update WeightedMean

variable {Address : Type} {contract : Address} {env : Env contract} {fs fs' : FeeState}
variable {priceDeltaAbs tradeSize totalReserve : ℤ}

/-! ### Writes -/

theorem run_capAccumulator (fs : FeeState) :
    InPlace.capAccumulator.run fs = .ok ()
      { fs with
        volAccumulator := if 0 < fs.rampUpMultiplier then min fs.volAccumulator fs.maxVol
          else fs.volAccumulator } := by
  by_cases hramp : 0 < fs.rampUpMultiplier
  · have hdiv := checkedDiv_saturatingMul (i128.saturatingSub fs.maxFeeBps fs.baselineFeeBps)
      FeeState.scaleToBps (Int.natCast_pos.mpr hramp)
    simp only [InPlace.capAccumulator, EStateM.run_bind, EStateM.run_get, if_pos hramp, hdiv]
    rfl
  · simp only [InPlace.capAccumulator, EStateM.run_bind, EStateM.run_get, if_neg hramp]
    rfl

theorem updateVolatility_atomic (env : Env contract) (priceDeltaAbs tradeSize totalReserve : ℤ) :
    Atomic (InPlace.updateVolatility env priceDeltaAbs tradeSize totalReserve) := by
  unfold InPlace.updateVolatility
  refine .bind (readOnly_lift _) fun _ => .bind readOnly_get fun fs => ?_
  -- every check and every product, before the first write
  iterate 10 refine .bind (readOnly_lift _) fun _ => ?_
  have hcap : Total InPlace.capAccumulator := fun fs => ⟨(), _, run_capAccumulator fs⟩
  exact ((total_modify _).bind fun _ => hcap.bind fun _ => total_modify _).atomic

/-- Written in place or returned, the update is the same. -/
theorem byValue_updateVolatility (env : Env contract) (fs : FeeState) (priceDeltaAbs tradeSize totalReserve : ℤ) :
    (InPlace.updateVolatility env priceDeltaAbs tradeSize totalReserve).byValue fs =
      fs.updateVolatility env priceDeltaAbs tradeSize totalReserve := by
  unfold InPlace.updateVolatility FeeState.updateVolatility
  rw [byValue_lift_bind]
  refine bind_congr fun _ => ?_
  rw [byValue_bind (EStateM.run_get fs)]
  iterate 10
    rw [byValue_lift_bind]
    refine bind_congr fun _ => ?_
  rw [byValue_bind (EStateM.run_modify _ fs), byValue_bind (run_capAccumulator _), byValue_modify]
  rfl

/-- What an update whose error is ignored leaves: the updated state, or the one it found. -/
theorem left_updateVolatility (env : Env contract) (fs : FeeState) (priceDeltaAbs tradeSize totalReserve : ℤ) :
    (InPlace.updateVolatility env priceDeltaAbs tradeSize totalReserve).left fs =
      commit (fs.updateVolatility env priceDeltaAbs tradeSize totalReserve) fs := by
  rw [(updateVolatility_atomic env priceDeltaAbs tradeSize totalReserve).left_eq_commit,
    byValue_updateVolatility]

/-- The swap ignores the error of the update and stores what the update has left. -/
theorem trackVolatility_eq_left (env : Env contract) (fs : FeeState) {before after : PairStorage Address}
    (amountAIn amountBIn : ℤ) (hbeforeA : 0 < before.reserveA) (hbeforeB : 0 < before.reserveB)
    (hafterA : 0 < after.reserveA) (hafterB : 0 < after.reserveB) :
    trackVolatility env fs before after amountAIn amountBIn =
      .ok ((InPlace.updateVolatility env
        |scaledPrice after.reserveA after.reserveB - scaledPrice before.reserveA before.reserveB|
        (max amountAIn amountBIn) (i128.saturatingAdd after.reserveA after.reserveB)).left fs) := by
  unfold trackVolatility
  rw [if_pos ⟨hbeforeA, hbeforeB, hafterA, hafterB⟩, left_updateVolatility]
  have hbefore := scaledPrice_bounds hbeforeA hbeforeB
  have hafter := scaledPrice_bounds hafterA hafterB
  dsimp only
  rw [checkedSub_of_prices hbefore hafter, orTrap_some, pure_bind]
  rcases hupdate : fs.updateVolatility env
    |scaledPrice after.reserveA after.reserveB - scaledPrice before.reserveA before.reserveB|
    (max amountAIn amountBIn) (i128.saturatingAdd after.reserveA after.reserveB) with ⟨code | _⟩ | updated
  · rfl
  · exact absurd rfl (updateVolatility_failsWith _ _ _ _ _ _ hupdate)
  · rfl

/-! ### The average -/

namespace FeeState

/-- The price change, weighted by the trade's share of the reserves. -/
def observation (priceDeltaAbs tradeSize totalReserve : ℤ) : ℤ :=
  (priceDeltaAbs * (tradeSize * scale).tdiv totalReserve).tdiv scale

def average (fs : FeeState) (priceDeltaAbs tradeSize totalReserve : ℤ) : ℤ :=
  blend fs.emaAlpha scale (observation priceDeltaAbs tradeSize totalReserve) fs.volAccumulator

/-- What an accepted update has checked and what it returns. -/
structure Updated (env : Env contract) (fs : FeeState) (priceDeltaAbs tradeSize totalReserve : ℤ)
    (fs' : FeeState) : Prop where
  delta : 0 ≤ priceDeltaAbs
  size : 0 < tradeSize
  reserve : 0 < totalReserve
  alpha : 0 ≤ fs.emaAlpha ∧ fs.emaAlpha ≤ scale
  returned : fs' =
    { fs with
      volAccumulator :=
        if 0 < fs.rampUpMultiplier then min (fs.average priceDeltaAbs tradeSize totalReserve) fs.maxVol
        else fs.average priceDeltaAbs tradeSize totalReserve
      lastFeeUpdate := env.timestamp }

theorem updated_of_updateVolatility
    (hupdate : updateVolatility env fs priceDeltaAbs tradeSize totalReserve = .ok fs') :
    Updated env fs priceDeltaAbs tradeSize totalReserve fs' := by
  simp only [updateVolatility, bind_eq_ok, failIf_eq_ok, okOr_eq_ok, pure_eq_ok,
    Word.checkedMul_eq_some, Word.checkedSub_eq_some, Word.checkedAdd_eq_some,
    Word.checkedDiv_eq_some, not_or, not_lt, not_le] at hupdate
  obtain ⟨-, ⟨hdelta, hsize, hreserve⟩, -, halpha, _, ⟨-, rfl⟩, _, ⟨-, -, rfl⟩, _, ⟨-, rfl⟩, _,
    ⟨-, -, rfl⟩, _, ⟨-, rfl⟩, _, ⟨-, rfl⟩, _, ⟨-, rfl⟩, _, ⟨-, rfl⟩, _, ⟨-, -, rfl⟩, rfl⟩ := hupdate
  exact ⟨hdelta, hsize, hreserve, halpha, rfl⟩

theorem weight_nonneg (hsize : 0 ≤ tradeSize) (hreserve : 0 < totalReserve) :
    0 ≤ (tradeSize * scale).tdiv totalReserve :=
  Int.tdiv_nonneg (mul_nonneg hsize (by decide)) hreserve.le

theorem observation_nonneg (hdelta : 0 ≤ priceDeltaAbs) (hsize : 0 ≤ tradeSize) (hreserve : 0 < totalReserve) :
    0 ≤ observation priceDeltaAbs tradeSize totalReserve :=
  Int.tdiv_nonneg (mul_nonneg hdelta (weight_nonneg hsize hreserve)) (by decide)

theorem observation_mono {priceDeltaAbs' tradeSize' : ℤ} (hdelta : 0 ≤ priceDeltaAbs) (hsize : 0 ≤ tradeSize)
    (hreserve : 0 < totalReserve) (hdeltas : priceDeltaAbs ≤ priceDeltaAbs') (hsizes : tradeSize ≤ tradeSize') :
    observation priceDeltaAbs tradeSize totalReserve ≤ observation priceDeltaAbs' tradeSize' totalReserve := by
  have hweights : (tradeSize * scale).tdiv totalReserve ≤ (tradeSize' * scale).tdiv totalReserve :=
    Int.tdiv_le_tdiv hreserve (mul_le_mul_of_nonneg_right hsizes (by decide))
  apply Int.tdiv_le_tdiv (by decide)
  exact mul_le_mul hdeltas hweights (weight_nonneg hsize hreserve) (hdelta.trans hdeltas)

theorem Updated.average_mem_uIcc (hupdated : Updated env fs priceDeltaAbs tradeSize totalReserve fs')
    (hvol : 0 ≤ fs.volAccumulator) :
    fs.average priceDeltaAbs tradeSize totalReserve ∈
      Set.uIcc fs.volAccumulator (observation priceDeltaAbs tradeSize totalReserve) := by
  rw [Set.uIcc_comm]
  exact blend_mem_uIcc hupdated.alpha.1 hupdated.alpha.2 (by decide)
    (observation_nonneg hupdated.delta hupdated.size.le hupdated.reserve) hvol

theorem Updated.average_nonneg (hupdated : Updated env fs priceDeltaAbs tradeSize totalReserve fs')
    (hvol : 0 ≤ fs.volAccumulator) : 0 ≤ fs.average priceDeltaAbs tradeSize totalReserve := by
  have hobservation := observation_nonneg hupdated.delta hupdated.size.le hupdated.reserve
  exact (le_inf hvol hobservation).trans (hupdated.average_mem_uIcc hvol).1

theorem Updated.vol_mono {priceDeltaAbs' tradeSize' volAccumulator : ℤ} {fs₁ fs₂ : FeeState}
    (hupdated : Updated env fs priceDeltaAbs tradeSize totalReserve fs₁)
    (hupdated' : Updated env { fs with volAccumulator } priceDeltaAbs' tradeSize' totalReserve fs₂)
    (hdelta : priceDeltaAbs ≤ priceDeltaAbs') (hsize : tradeSize ≤ tradeSize')
    (hvol : fs.volAccumulator ≤ volAccumulator) : fs₁.volAccumulator ≤ fs₂.volAccumulator := by
  have hobservation := observation_mono hupdated.delta hupdated.size.le hupdated.reserve hdelta hsize
  have haverage : fs.average priceDeltaAbs tradeSize totalReserve ≤
      { fs with volAccumulator }.average priceDeltaAbs' tradeSize' totalReserve :=
    blend_mono hupdated.alpha.1 hupdated.alpha.2 (by decide) hobservation hvol
  rw [hupdated.returned, hupdated'.returned]
  -- the cap does not depend on the accumulator
  show (if 0 < fs.rampUpMultiplier then min _ fs.maxVol else _) ≤
    if 0 < fs.rampUpMultiplier then min _ fs.maxVol else _
  split
  · exact min_le_min_right _ haverage
  · exact haverage

end FeeState

/-! ### The update -/

/-- The update of a fee state, the fee computed from it and its decay. -/
structure AtomicAverage (env : Env contract) (fs : FeeState) : Prop where
  atomic : ∀ priceDeltaAbs tradeSize totalReserve fault fs',
    (InPlace.updateVolatility env priceDeltaAbs tradeSize totalReserve).run fs = .error fault fs' → fs' = fs
  bounded : ∀ priceDeltaAbs tradeSize totalReserve fs',
    (InPlace.updateVolatility env priceDeltaAbs tradeSize totalReserve).run fs = .ok () fs' →
      ∃ average ∈ Set.uIcc fs.volAccumulator (FeeState.observation priceDeltaAbs tradeSize totalReserve),
        fs'.volAccumulator = if 0 < fs.rampUpMultiplier then min average fs.maxVol else average
  monotone : ∀ priceDeltaAbs priceDeltaAbs' tradeSize tradeSize' totalReserve volAccumulator fs₁ fs₂,
    priceDeltaAbs ≤ priceDeltaAbs' → tradeSize ≤ tradeSize' → fs.volAccumulator ≤ volAccumulator →
    (InPlace.updateVolatility env priceDeltaAbs tradeSize totalReserve).run fs = .ok () fs₁ →
    (InPlace.updateVolatility env priceDeltaAbs' tradeSize' totalReserve).run { fs with volAccumulator } =
      .ok () fs₂ → fs₁.volAccumulator ≤ fs₂.volAccumulator
  fee : Monotone fun volAccumulator => { fs with volAccumulator }.computeFeeBps
  decay : ∀ currentLedger, (fs.applyTimeDecay currentLedger).computeFeeBps ≤ fs.computeFeeBps
  stale : ∀ fs', fs.decayStaleEma env = .ok fs' → fs'.computeFeeBps ≤ fs.computeFeeBps

theorem updated_of_run
    (hrun : (InPlace.updateVolatility env priceDeltaAbs tradeSize totalReserve).run fs = .ok () fs') :
    FeeState.Updated env fs priceDeltaAbs tradeSize totalReserve fs' := by
  rw [← byValue_eq_ok, byValue_updateVolatility] at hrun
  exact FeeState.updated_of_updateVolatility hrun

/-- **The volatility update.** It is all or nothing, averages within its bounds, and never loses the order of two
accumulators, trades or price changes; the fee follows the accumulator, and decay does not raise it. -/
theorem updateVolatility_atomicAverage (env : Env contract) (hvol : 0 ≤ fs.volAccumulator)
    (hbaseline : (fs.baselineFeeBps : ℤ) ≤ u32.max) : AtomicAverage env fs where
  atomic priceDeltaAbs tradeSize totalReserve fault fs' hrun :=
    updateVolatility_atomic env priceDeltaAbs tradeSize totalReserve fs fault fs' hrun
  bounded priceDeltaAbs tradeSize totalReserve fs' hrun := by
    have hupdated := updated_of_run hrun
    refine ⟨_, hupdated.average_mem_uIcc hvol, ?_⟩
    rw [hupdated.returned]
  monotone priceDeltaAbs priceDeltaAbs' tradeSize tradeSize' totalReserve volAccumulator fs₁ fs₂ hdelta hsize hle
      hrun hrun' :=
    (updated_of_run hrun).vol_mono (updated_of_run hrun') hdelta hsize hle
  fee := fun _ _ hle => FeeState.computeFeeBps_mono hbaseline rfl rfl ⟨rfl, rfl⟩ hle
  decay currentLedger :=
    FeeState.computeFeeBps_le_of_decayed hbaseline (FeeState.decayed_of_applyTimeDecay fs currentLedger)
  stale _ hdecay :=
    FeeState.computeFeeBps_le_of_decayed hbaseline (FeeState.decayed_of_decayStaleEma hdecay)

def warmFeeState : FeeState := { FeeState.initial with volAccumulator := 5000 }

/-- A tenth of the way from 5000 to an observation of 100000; a price change out of range leaves 5000. -/
theorem updateVolatility_atomicAverage_warm :
    (InPlace.updateVolatility (Env.quiet (0 : ℕ) 100 1000 none) 1000000 100000 1000000).run warmFeeState =
        .ok () { warmFeeState with volAccumulator := 14500, lastFeeUpdate := 1000 } ∧
      (InPlace.updateVolatility (Env.quiet (0 : ℕ) 100 1000 none) i128.max 1000 1).run warmFeeState =
        .error (.error .overflow) warmFeeState ∧
      AtomicAverage (Env.quiet (0 : ℕ) 100 1000 none) warmFeeState :=
  ⟨rfl, rfl, updateVolatility_atomicAverage _ (by decide) (by decide)⟩

end CoralSwap
