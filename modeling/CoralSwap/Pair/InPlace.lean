import CoralSwap.Lib.InPlace
import CoralSwap.Pair.DynamicFee

/-!
# The volatility update, write by write

`update_volatility` is lent the fee state and writes to it three times: the average, the average once more
under its cap, and the mark. `swap` ignores its error and stores what it has left.
-/

namespace CoralSwap.InPlace

open Host Host.Call Host.Update

/-- The accumulator under the value at which the fee reaches its upper bound. -/
def capAccumulator : Update FeeState PairError Unit := do
  let fs ← get
  if 0 < fs.rampUpMultiplier then do
    let feeHeadroom := i128.saturatingSub fs.maxFeeBps fs.baselineFeeBps
    let scaledHeadroom := i128.saturatingMul feeHeadroom FeeState.scaleToBps
    let maxVol ← lift (orTrap (i128.checkedDiv scaledHeadroom fs.rampUpMultiplier))
    modify fun fs => { fs with volAccumulator := min fs.volAccumulator maxVol }
  else pure ()

variable {Address : Type} {contract : Address}

def updateVolatility (env : Env contract) (priceDeltaAbs tradeSize totalReserve : ℤ) :
    Update FeeState PairError Unit := do
  lift (failIf (priceDeltaAbs < 0 ∨ tradeSize ≤ 0 ∨ totalReserve ≤ 0) .invalidInput)
  let fs ← get
  lift (failIf (fs.emaAlpha < 0 ∨ FeeState.scale < fs.emaAlpha) .invalidEmaAlpha)
  let scaledSize ← lift (okOr (i128.checkedMul tradeSize FeeState.scale) .overflow)
  let weight ← lift (okOr (i128.checkedDiv scaledSize totalReserve) .overflow)
  let weighted ← lift (okOr (i128.checkedMul priceDeltaAbs weight) .overflow)
  let observation ← lift (okOr (i128.checkedDiv weighted FeeState.scale) .overflow)
  let alphaTerm ← lift (okOr (i128.checkedMul fs.emaAlpha observation) .overflow)
  let complement ← lift (okOr (i128.checkedSub FeeState.scale fs.emaAlpha) .overflow)
  let prevTerm ← lift (okOr (i128.checkedMul complement fs.volAccumulator) .overflow)
  let sum ← lift (okOr (i128.checkedAdd alphaTerm prevTerm) .overflow)
  let average ← lift (okOr (i128.checkedDiv sum FeeState.scale) .overflow)
  modify fun fs => { fs with volAccumulator := average }
  capAccumulator
  modify fun fs => { fs with lastFeeUpdate := env.timestamp }

end CoralSwap.InPlace
