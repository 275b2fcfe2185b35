import CoralSwap.Proof.OneFee

/-!
# The decay of the dynamic fee

While a pool is idle its volatility only falls, and the fee falls with it. A rate read before the
decay is never below the one a swap then charges.
-/

namespace CoralSwap

open Host Host.Call

namespace FeeState

variable {fs fs' : FeeState}

/-! ### The accumulator -/

theorem decayLoop_bounds {divisor : ℤ} (hdivisor : 0 < divisor) (periods : ℕ) {vol : ℤ}
    (hvol : 0 ≤ vol) :
    0 ≤ decayLoop divisor periods vol ∧ decayLoop divisor periods vol ≤ vol := by
  induction periods generalizing vol with
  | zero => exact ⟨hvol, le_rfl⟩
  | succ periods ih =>
      rw [decayLoop]
      split
      · exact ⟨le_rfl, hvol⟩
      · obtain ⟨hnonneg, hle⟩ := ih (Int.tdiv_nonneg hvol hdivisor.le)
        exact ⟨hnonneg, hle.trans (Int.tdiv_le_self _ hvol)⟩

/-- A decay does nothing, or lowers a positive accumulator and moves the mark. -/
theorem applyTimeDecay_cases (fs : FeeState) (currentLedger : ℕ) :
    fs.applyTimeDecay currentLedger = fs ∨ ∃ vol, 0 ≤ vol ∧ vol ≤ fs.volAccumulator ∧
      fs.applyTimeDecay currentLedger = { fs with volAccumulator := vol, lastFeeUpdate := currentLedger } := by
  unfold applyTimeDecay
  dsimp only
  split
  · exact Or.inl rfl
  · rename_i hidle
    split
    · exact Or.inl rfl
    · have hvol : 0 ≤ fs.volAccumulator := by omega
      have hdivisor : (0 : ℤ) < (max fs.cooldownDivisor 2 : ℕ) := by omega
      obtain ⟨-, hle⟩ := decayLoop_bounds hdivisor
        (min ((currentLedger - fs.lastFeeUpdate) / max fs.decayThresholdBlocks 1) maxDecayPeriods) hvol
      exact Or.inr ⟨_, le_max_right _ _, max_le hle hvol, rfl⟩

/-- What a decay may change: it lowers a positive accumulator, but not below zero. -/
structure Decayed (fs fs' : FeeState) : Prop where
  same : fs'.volAccumulator = fs.volAccumulator ∨
    (0 ≤ fs'.volAccumulator ∧ fs'.volAccumulator ≤ fs.volAccumulator)
  baseline : fs'.baselineFeeBps = fs.baselineFeeBps
  rampUp : fs'.rampUpMultiplier = fs.rampUpMultiplier
  bounds : fs'.minFeeBps = fs.minFeeBps ∧ fs'.maxFeeBps = fs.maxFeeBps

theorem Decayed.refl (fs : FeeState) : Decayed fs fs := ⟨Or.inl rfl, rfl, rfl, rfl, rfl⟩

theorem decayed_of_applyTimeDecay (fs : FeeState) (currentLedger : ℕ) :
    Decayed fs (fs.applyTimeDecay currentLedger) := by
  rcases applyTimeDecay_cases fs currentLedger with hsame | ⟨vol, hnonneg, hle, hdecayed⟩
  · rw [hsame]
    exact .refl fs
  · rw [hdecayed]
    exact ⟨Or.inr ⟨hnonneg, hle⟩, rfl, rfl, rfl, rfl⟩

theorem decayed_of_decayStaleEma {Address : Type} {contract : Address} {env : Env contract}
    (hdecay : decayStaleEma env fs = .ok fs') : Decayed fs fs' := by
  rcases decayStaleEma_ok hdecay with rfl | rfl
  · exact .refl fs'
  · exact decayed_of_applyTimeDecay fs env.sequence

/-! ### The fee -/

def volBps (fs : FeeState) : ℤ :=
  (i128.saturatingMul fs.volAccumulator fs.rampUpMultiplier).tdiv scaleToBps

theorem scaleToBps_pos : 0 < scaleToBps := by decide

/-- The two branches of the fee are one formula where the accumulator is not negative. -/
theorem computeFeeBps_eq (hbaseline : (fs.baselineFeeBps : ℤ) ≤ u32.max) :
    fs.computeFeeBps =
      (clamp (i128.saturatingAdd fs.baselineFeeBps fs.volBps) fs.minFeeBps fs.maxFeeBps).toNat := by
  unfold computeFeeBps
  split
  · rename_i hzero
    have hvol : fs.volBps = 0 := by
      rw [volBps, hzero, Word.saturatingMul, zero_mul]
      decide
    have hsaturate : i128.saturatingAdd fs.baselineFeeBps 0 = fs.baselineFeeBps := by
      rw [Word.saturatingAdd, add_zero]
      refine Word.saturate_of_mem ?_ (hbaseline.trans (by decide))
      exact le_trans (by decide) (Int.natCast_nonneg fs.baselineFeeBps)
    rw [hvol, hsaturate]
  · rfl

theorem volBps_mono (hrampUp : fs'.rampUpMultiplier = fs.rampUpMultiplier)
    (hle : fs'.volAccumulator ≤ fs.volAccumulator) : fs'.volBps ≤ fs.volBps := by
  unfold volBps
  rw [hrampUp]
  refine Int.tdiv_le_tdiv scaleToBps_pos (Word.saturate_mono ?_)
  exact mul_le_mul_of_nonneg_right hle (Int.natCast_nonneg _)

theorem clamp_mono {a b low high : ℤ} (hle : a ≤ b) : clamp a low high ≤ clamp b low high := by
  unfold clamp
  omega

/-- The fee is monotone in the accumulator, whatever its sign. -/
theorem computeFeeBps_mono (hbaseline : (fs.baselineFeeBps : ℤ) ≤ u32.max)
    (hsame : fs'.baselineFeeBps = fs.baselineFeeBps) (hrampUp : fs'.rampUpMultiplier = fs.rampUpMultiplier)
    (hbounds : fs'.minFeeBps = fs.minFeeBps ∧ fs'.maxFeeBps = fs.maxFeeBps)
    (hle : fs'.volAccumulator ≤ fs.volAccumulator) : fs'.computeFeeBps ≤ fs.computeFeeBps := by
  rw [computeFeeBps_eq hbaseline, computeFeeBps_eq (by rw [hsame]; exact hbaseline), hsame, hbounds.1, hbounds.2]
  refine Int.toNat_le_toNat (clamp_mono ?_)
  exact Word.saturate_mono (add_le_add_right (volBps_mono hrampUp hle) _)

theorem Decayed.le (hdecayed : Decayed fs fs') : fs'.volAccumulator ≤ fs.volAccumulator := by
  rcases hdecayed.same with heq | ⟨-, hle⟩
  · exact heq.le
  · exact hle

/-- **Idling lowers the fee.** -/
theorem computeFeeBps_le_of_decayed (hbaseline : (fs.baselineFeeBps : ℤ) ≤ u32.max)
    (hdecayed : Decayed fs fs') : fs'.computeFeeBps ≤ fs.computeFeeBps :=
  computeFeeBps_mono hbaseline hdecayed.baseline hdecayed.rampUp hdecayed.bounds hdecayed.le

end FeeState

theorem effectiveFeeBps_mono {Address : Type} {contract : Address} (env : Env contract) {a b : ℕ}
    (hle : a ≤ b) : env.effectiveFeeBps a ≤ env.effectiveFeeBps b := by
  unfold Env.effectiveFeeBps
  split
  · split
    · exact le_rfl
    · exact hle
  · exact hle

/-- The rate a swap charges is at most the one the view reports. -/
theorem effectiveFeeBps_le_of_view {Address : Type} {contract : Address} {env : Env contract}
    {w : World Address} {fs decayed : FeeState} {feeBps : ℕ} {isOverride : Bool}
    (hbaseline : (fs.baselineFeeBps : ℤ) ≤ u32.max) (hfs : w.pair.feeState = some fs)
    (hview : getEffectiveFeeBps env w = .ok (feeBps, isOverride))
    (hdecay : fs.decayStaleEma env = .ok decayed) :
    env.effectiveFeeBps decayed.computeFeeBps ≤ feeBps := by
  have hinit : w.pair.pairState.isSome = true := by
    simp only [getEffectiveFeeBps, bind_eq_ok, World.getPairState_eq_ok] at hview
    obtain ⟨state, hstate, -⟩ := hview
    rw [hstate]
    rfl
  obtain ⟨isOverride', hview'⟩ := getEffectiveFeeBps_eq env hinit hfs
  obtain rfl : env.effectiveFeeBps fs.computeFeeBps = feeBps := by
    rw [hview'] at hview
    exact congrArg Prod.fst (Except.ok.inj hview)
  exact effectiveFeeBps_mono env
    (FeeState.computeFeeBps_le_of_decayed hbaseline (FeeState.decayed_of_decayStaleEma hdecay))

end CoralSwap
