import CoralSwap.Pair.Types

/-!
# The dynamic fee

The volatility accumulator, its decay while the pool is idle, and the fee computed from it. The two
clocks are independent: the update stamps the ledger timestamp, the decay compares the stamp with
the ledger sequence.
-/

namespace CoralSwap

open Host Host.Call

namespace FeeState

def scale : ℤ := 100000000000000

def scaleToBps : ℤ := scale.tdiv 10000

def maxDecayPeriods : ℕ := 64

def clamp (value low high : ℤ) : ℤ := max low (min value high)

def computeFeeBps (fs : FeeState) : ℕ :=
  if fs.volAccumulator = 0 then
    (clamp fs.baselineFeeBps fs.minFeeBps fs.maxFeeBps).toNat
  else
    let volBps := (i128.saturatingMul fs.volAccumulator fs.rampUpMultiplier).tdiv scaleToBps
    let fee := i128.saturatingAdd fs.baselineFeeBps volBps
    (clamp fee fs.minFeeBps fs.maxFeeBps).toNat

/-- One division per decay period, stopping once the accumulator is spent. -/
def decayLoop (divisor : ℤ) : ℕ → ℤ → ℤ
  | 0, vol => vol
  | periods + 1, vol =>
      if vol.tdiv divisor ≤ 0 then 0 else decayLoop divisor periods (vol.tdiv divisor)

def applyTimeDecay (fs : FeeState) (currentLedger : ℕ) : FeeState :=
  let elapsed := currentLedger - fs.lastFeeUpdate
  if elapsed = 0 ∨ fs.volAccumulator ≤ 0 then fs
  else
    let divisor : ℕ := max fs.cooldownDivisor 2
    let threshold := max fs.decayThresholdBlocks 1
    let decayPeriods := min (elapsed / threshold) maxDecayPeriods
    if decayPeriods = 0 then fs
    else
      { fs with
        volAccumulator := max (decayLoop divisor decayPeriods fs.volAccumulator) 0
        lastFeeUpdate := currentLedger }

variable {Address : Type} {contract : Address}

def decayStaleEma (env : Env contract) (fs : FeeState) : Call PairError FeeState := do
  let staleAt ← orTrap (u64.checkedAdd fs.lastFeeUpdate fs.staleThreshold)
  pure (if staleAt < env.sequence then fs.applyTimeDecay env.sequence else fs)

def maxVol (fs : FeeState) : ℤ :=
  (i128.saturatingMul (i128.saturatingSub fs.maxFeeBps fs.baselineFeeBps) scaleToBps).tdiv
    fs.rampUpMultiplier

def updateVolatility (env : Env contract) (fs : FeeState) (priceDeltaAbs tradeSize totalReserve : ℤ) :
    Call PairError FeeState := do
  failIf (priceDeltaAbs < 0 ∨ tradeSize ≤ 0 ∨ totalReserve ≤ 0) .invalidInput
  failIf (fs.emaAlpha < 0 ∨ scale < fs.emaAlpha) .invalidEmaAlpha
  let scaledSize ← okOr (i128.checkedMul tradeSize scale) .overflow
  let weight ← okOr (i128.checkedDiv scaledSize totalReserve) .overflow
  let weighted ← okOr (i128.checkedMul priceDeltaAbs weight) .overflow
  let observation ← okOr (i128.checkedDiv weighted scale) .overflow
  let alphaTerm ← okOr (i128.checkedMul fs.emaAlpha observation) .overflow
  let complement ← okOr (i128.checkedSub scale fs.emaAlpha) .overflow
  let prevTerm ← okOr (i128.checkedMul complement fs.volAccumulator) .overflow
  let sum ← okOr (i128.checkedAdd alphaTerm prevTerm) .overflow
  let average ← okOr (i128.checkedDiv sum scale) .overflow
  pure
    { fs with
      volAccumulator := if 0 < fs.rampUpMultiplier then min average fs.maxVol else average
      lastFeeUpdate := env.timestamp }

theorem computeFeeBps_le_max (fs : FeeState) : fs.computeFeeBps ≤ fs.maxFeeBps := by
  have hbounds := fs.minFeeBps_le_maxFeeBps
  unfold computeFeeBps clamp
  split
  · omega
  · dsimp only
    omega

theorem decayStaleEma_ok {env : Env contract} {fs fs' : FeeState} (hdecay : decayStaleEma env fs = .ok fs') :
    fs' = fs ∨ fs' = fs.applyTimeDecay env.sequence := by
  simp only [decayStaleEma, bind_eq_ok, pure_eq_ok] at hdecay
  obtain ⟨_, -, rfl⟩ := hdecay
  split
  · exact Or.inr rfl
  · exact Or.inl rfl

theorem maxFeeBps_of_decayStaleEma {env : Env contract} {fs fs' : FeeState}
    (hdecay : decayStaleEma env fs = .ok fs') : fs'.maxFeeBps = fs.maxFeeBps := by
  rcases decayStaleEma_ok hdecay with rfl | rfl
  · rfl
  · unfold applyTimeDecay
    dsimp only
    split_ifs <;> rfl

theorem maxFeeBps_of_updateVolatility {env : Env contract} {fs fs' : FeeState}
    {priceDeltaAbs tradeSize totalReserve : ℤ}
    (hupdate : updateVolatility env fs priceDeltaAbs tradeSize totalReserve = .ok fs') :
    fs'.maxFeeBps = fs.maxFeeBps := by
  simp only [updateVolatility, bind_eq_ok, pure_eq_ok] at hupdate
  obtain ⟨_, -, _, -, _, -, _, -, _, -, _, -, _, -, _, -, _, -, _, -, _, -, rfl⟩ := hupdate
  rfl

end FeeState

end CoralSwap
