import CoralSwap.Lib.Panics
import CoralSwap.Pair.Swap

/-!
# The plain operators of a swap

The swap and the fee functions it calls once more, with every `+`, `-`, `*` and `/` of the source that
is neither checked nor saturating as a step that can panic.
-/

namespace CoralSwap.Panicking

open Host Host.Call

/-! ### The fee -/

def scaleToBps : Call (Outcome PairError) ℤ := plain (i128.checkedDiv FeeState.scale 10000)

def decayLoop (divisor : ℤ) : ℕ → ℤ → Call (Outcome PairError) ℤ
  | 0, vol => pure vol
  | periods + 1, vol => do
      let quotient ← plain (i128.checkedDiv vol divisor)
      if quotient ≤ 0 then pure 0 else decayLoop divisor periods quotient

def applyTimeDecay (fs : FeeState) (currentLedger : ℕ) : Call (Outcome PairError) FeeState :=
  let elapsed := currentLedger - fs.lastFeeUpdate
  if elapsed = 0 ∨ fs.volAccumulator ≤ 0 then pure fs
  else do
    let divisor : ℕ := max fs.cooldownDivisor 2
    let threshold : ℕ := max fs.decayThresholdBlocks 1
    let quotient ← plain (u64.checkedDiv elapsed threshold)
    let decayPeriods := min quotient.toNat FeeState.maxDecayPeriods
    if decayPeriods = 0 then pure fs
    else do
      let vol ← decayLoop divisor decayPeriods fs.volAccumulator
      pure { fs with volAccumulator := max vol 0, lastFeeUpdate := currentLedger }

def computeFeeBps (fs : FeeState) : Call (Outcome PairError) ℕ :=
  if fs.volAccumulator = 0 then
    pure (FeeState.clamp fs.baselineFeeBps fs.minFeeBps fs.maxFeeBps).toNat
  else do
    let scaleToBps ← scaleToBps
    let volBps ← plain (i128.checkedDiv (i128.saturatingMul fs.volAccumulator fs.rampUpMultiplier) scaleToBps)
    let fee := i128.saturatingAdd fs.baselineFeeBps volBps
    pure (FeeState.clamp fee fs.minFeeBps fs.maxFeeBps).toNat

variable {Address : Type} {contract : Address}

def decayStaleEma (env : Env contract) (fs : FeeState) : Call (Outcome PairError) FeeState := do
  let staleAt ← plain (u64.checkedAdd fs.lastFeeUpdate fs.staleThreshold)
  if staleAt < env.sequence then applyTimeDecay fs env.sequence else pure fs

def updateVolatility (env : Env contract) (fs : FeeState) (priceDeltaAbs tradeSize totalReserve : ℤ) :
    Call (Outcome PairError) FeeState := do
  typed (failIf (priceDeltaAbs < 0 ∨ tradeSize ≤ 0 ∨ totalReserve ≤ 0) .invalidInput)
  typed (failIf (fs.emaAlpha < 0 ∨ FeeState.scale < fs.emaAlpha) .invalidEmaAlpha)
  let scaledSize ← typed (okOr (i128.checkedMul tradeSize FeeState.scale) .overflow)
  let weight ← typed (okOr (i128.checkedDiv scaledSize totalReserve) .overflow)
  let weighted ← typed (okOr (i128.checkedMul priceDeltaAbs weight) .overflow)
  let observation ← typed (okOr (i128.checkedDiv weighted FeeState.scale) .overflow)
  let alphaTerm ← typed (okOr (i128.checkedMul fs.emaAlpha observation) .overflow)
  let complement ← typed (okOr (i128.checkedSub FeeState.scale fs.emaAlpha) .overflow)
  let prevTerm ← typed (okOr (i128.checkedMul complement fs.volAccumulator) .overflow)
  let sum ← typed (okOr (i128.checkedAdd alphaTerm prevTerm) .overflow)
  let average ← typed (okOr (i128.checkedDiv sum FeeState.scale) .overflow)
  if 0 < fs.rampUpMultiplier then do
    let scaleToBps ← scaleToBps
    let feeHeadroom := i128.saturatingSub fs.maxFeeBps fs.baselineFeeBps
    let maxVol ← plain (i128.checkedDiv (i128.saturatingMul feeHeadroom scaleToBps) fs.rampUpMultiplier)
    pure { fs with volAccumulator := min average maxVol, lastFeeUpdate := env.timestamp }
  else pure { fs with volAccumulator := average, lastFeeUpdate := env.timestamp }

/-! ### The swap -/

def inferInput (balance reserve amountOut : ℤ) : Call (Outcome PairError) ℤ := do
  let kept ← plain (i128.checkedSub reserve amountOut)
  let surplus ← plain (i128.checkedSub balance kept)
  pure (max surplus 0)

def feeAdjusted (balance amountIn fee : ℤ) : Call (Outcome PairError) ℤ := do
  let scaled ← typed (okOr (i128.checkedMul balance bpsDenominator) .overflow)
  let charged ← plain (i128.checkedMul amountIn fee)
  typed (okOr (i128.checkedSub scaled charged) .overflow)

def protocolFee (env : Env contract) (amountIn fee : ℤ) : Call (Outcome PairError) ℤ :=
  if env.protocolFeeTo.isSome = true ∧ 0 < env.protocolFeeBps ∧ 0 < amountIn then
    plain (i128.checkedDiv (i128.saturatingMul (i128.saturatingMul amountIn fee) env.protocolFeeBps) 100000000)
  else pure 0

def trackVolatility (env : Env contract) (fs : FeeState) (before after : PairStorage Address)
    (amountAIn amountBIn : ℤ) : Call (Outcome PairError) FeeState :=
  if 0 < before.reserveA ∧ 0 < before.reserveB ∧ 0 < after.reserveA ∧ 0 < after.reserveB then do
    let priceBefore := scaledPrice before.reserveA before.reserveB
    let priceAfter := scaledPrice after.reserveA after.reserveB
    let priceDeltaAbs ← plain
      (if priceBefore < priceAfter then i128.checkedSub priceAfter priceBefore
        else i128.checkedSub priceBefore priceAfter)
    let tradeSize := max amountAIn amountBIn
    let totalReserve := i128.saturatingAdd after.reserveA after.reserveB
    match updateVolatility env fs priceDeltaAbs tradeSize totalReserve with
    | .ok updated => pure updated
    | .error (.error (.typed _)) => pure fs
    | .error (.error .arithmetic) => fail .arithmetic
    | .error .trap => trap
  else pure fs

variable [DecidableEq Address]

def swapInner (env : Env contract) (w : World Address) (amountAOut amountBOut : ℤ)
    (dst : Address) : Call (Outcome PairError) (World Address × SwapEvent) := do
  typed (failIf (amountAOut ≤ 0 ∧ amountBOut ≤ 0) .insufficientOutputAmount)
  let pair ← typed w.getPairState
  let feeState ← typed w.getFeeState
  typed (failIf (pair.reserveA ≤ amountAOut ∨ pair.reserveB ≤ amountBOut) .insufficientLiquidity)
  let reserveALeft ← typed (okOr (i128.checkedSub pair.reserveA amountAOut) .overflow)
  let reserveBLeft ← typed (okOr (i128.checkedSub pair.reserveB amountBOut) .overflow)
  typed (failIf (reserveALeft < minimumReserve ∨ reserveBLeft < minimumReserve) .dustAmount)
  let decayed ← decayStaleEma env feeState
  let dynamicFeeBps ← computeFeeBps decayed
  let feeBps := env.effectiveFeeBps dynamicFeeBps
  let paidA ← typed (payOut w.tokenA contract dst amountAOut)
  let paidB ← typed (payOut w.tokenB contract dst amountBOut)
  let balanceA := paidA.balance contract
  let balanceB := paidB.balance contract
  let amountAIn ← inferInput balanceA pair.reserveA amountAOut
  let amountBIn ← inferInput balanceB pair.reserveB amountBOut
  typed (failIf (amountAIn ≤ 0 ∧ amountBIn ≤ 0) .insufficientInputAmount)
  let balanceAAdj ← feeAdjusted balanceA amountAIn feeBps
  let balanceBAdj ← feeAdjusted balanceB amountBIn feeBps
  let product ← typed (okOr (i128.checkedMul pair.reserveA pair.reserveB) .overflow)
  let kBefore ← typed (okOr (i128.checkedMul product 100000000) .overflow)
  let kAfter ← typed (okOr (i128.checkedMul balanceAAdj balanceBAdj) .overflow)
  typed (failIf (kAfter < kBefore) .invalidK)
  let protocolFeeA ← protocolFee env amountAIn feeBps
  let protocolFeeB ← protocolFee env amountBIn feeBps
  let tokenA ← typed (env.collectProtocolFee paidA protocolFeeA)
  let tokenB ← typed (env.collectProtocolFee paidB protocolFeeB)
  let collected := 0 < protocolFeeA ∨ 0 < protocolFeeB
  let reserveA ← typed (okOr (i128.checkedSub balanceA protocolFeeA) .overflow)
  let reserveB ← typed (okOr (i128.checkedSub balanceB protocolFeeB) .overflow)
  let kLast ← typed (okOr (i128.checkedMul reserveA reserveB) .overflow)
  let settled : PairStorage Address :=
    { pair with reserveA, reserveB, kLast, blockTimestampLast := env.timestamp }
  let tracked ← trackVolatility env decayed pair settled amountAIn amountBIn
  let w' : World Address :=
    { w with
      tokenA, tokenB
      pair :=
        { w.pair with
          pairState := some settled
          feeState := some tracked
          protocolFeeA :=
            if collected then i128.saturatingAdd w.pair.protocolFeeA protocolFeeA
            else w.pair.protocolFeeA
          protocolFeeB :=
            if collected then i128.saturatingAdd w.pair.protocolFeeB protocolFeeB
            else w.pair.protocolFeeB } }
  pure (w', ⟨amountAIn, amountBIn, amountAOut, amountBOut, feeBps⟩)

end CoralSwap.Panicking
