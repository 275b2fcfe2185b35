import CoralSwap.Lib.Program
import CoralSwap.Pair.Machine

/-!
# The pair's code and its callees

The entry points a user can call, as programs that hand control over at each token transfer and at the
callback of a flash loan. The host is taken to permit calls back. The lock is written to storage and
released by a guard that drops on every exit, as in the source; on a trap the host discards the frame.
-/

namespace CoralSwap.Reentrant

open Host Host.Call Host.Program

variable {Address : Type} [DecidableEq Address] {contract : Address}

abbrev Code (Address α : Type) := Program (World Address) PairError α

/-- `ReentrancyGuard::acquire`, the body, and the guard's `drop`. A failed acquire creates no guard. -/
def withGuard {α : Type} (body : Code Address α) : Code Address α := do
  let w ← read
  let held ← lift w.acquireLock
  write held
  body.onExit World.releaseLock

/-- A callee that fails takes the call down with it. -/
def callToken : Code Address Unit := do
  let returns ← handOver
  lift (require (returns = true))

def transferA (src dst : Address) (amount : ℤ) : Code Address Unit := do
  let w ← read
  let tokenA ← lift (orTrap (w.tokenA.transfer src dst amount))
  write { w with tokenA }
  callToken

def transferB (src dst : Address) (amount : ℤ) : Code Address Unit := do
  let w ← read
  let tokenB ← lift (orTrap (w.tokenB.transfer src dst amount))
  write { w with tokenB }
  callToken

def payA (src dst : Address) (amount : ℤ) : Code Address Unit :=
  if 0 < amount then transferA src dst amount else pure ()

def payB (src dst : Address) (amount : ℤ) : Code Address Unit :=
  if 0 < amount then transferB src dst amount else pure ()

def transferSide (isA : Bool) (src dst : Address) (amount : ℤ) : Code Address Unit :=
  if isA then transferA src dst amount else transferB src dst amount

def mint (env : Env contract) (dst : Address) : Code Address Unit := do
  lift (require (env.auth dst = true))
  withGuard do
    let w ← read
    lift w.ensureNotFrozen
    let state ← lift w.getPairState
    lift w.ensureLpTokenNotPaused
    let balanceA := w.tokenA.balance contract
    let balanceB := w.tokenB.balance contract
    let amountA ← lift (okOr (i128.checkedSub balanceA state.reserveA) .invalidInput)
    let amountB ← lift (okOr (i128.checkedSub balanceB state.reserveB) .invalidInput)
    lift (failIf (amountA < minimumReserve ∨ amountB < minimumReserve) .dustAmount)
    let (liquidity, seeded) ← lift (mintedLiquidity env w.lp state amountA amountB)
    write { w with lp := seeded }
    lift (failIf (liquidity ≤ 0) .insufficientLiquidityMinted)
    lift (failIf (liquidity < minLiquidityForUser) .dustAmount)
    let w ← read
    let lp ← lift (nested (w.lp.mint env.lpEnv dst liquidity))
    write { w with lp }
    let kLast ← lift (okOr (i128.checkedMul balanceA balanceB) .overflow)
    let w ← read
    write (w.setPairState
      { state with
        reserveA := balanceA, reserveB := balanceB, kLast, blockTimestampLast := env.timestamp })

def depositLp (env : Env contract) (src : Address) (amount : ℤ) : Code Address Unit := do
  lift (require (env.auth src = true))
  withGuard do
    let w ← read
    let _ ← lift w.getPairState
    lift w.ensureLpTokenNotPaused
    lift (failIf (amount ≤ 0 ∨ src = contract) .invalidInput)
    let lp ← lift (nested (w.lp.transfer env.lpEnv src contract amount))
    write { w with lp }
    callToken
    let w ← read
    let pending ← lift (okOr (i128.checkedAdd (w.pair.pendingLp src) amount) .overflow)
    let total ← lift (okOr (i128.checkedAdd w.pair.pendingLpTotal amount) .overflow)
    write ((w.setPendingLp src pending).setPendingLpTotal total)

def burn (env : Env contract) (dst : Address) : Code Address Unit := do
  lift (require (env.auth dst = true))
  withGuard do
    let w ← read
    let state ← lift w.getPairState
    lift w.ensureLpTokenNotPaused
    let lpBalance := w.lp.balance contract
    let totalSupply := w.lp.totalSupply
    lift (failIf (totalSupply = 0) .insufficientLiquidityBurned)
    let burnableSupply ← lift (okOr (i128.checkedSub totalSupply minimumLiquidity) .overflow)
    lift (failIf (burnableSupply = 0) .insufficientLiquidityBurned)
    let burnLp ← lift (burnableLp w lpBalance dst)
    lift (failIf (burnLp ≤ 0) .insufficientLiquidityBurned)
    let (amountA, amountB) ← lift (burnAmounts burnLp state.reserveA state.reserveB burnableSupply)
    lift (failIf (amountA ≤ 0 ∨ amountB ≤ 0) .insufficientLiquidityBurned)
    lift (failIf (amountA < minimumReserve ∨ amountB < minimumReserve) .dustAmount)
    let reserveAAfter ← lift (okOr (i128.checkedSub state.reserveA amountA) .overflow)
    let reserveBAfter ← lift (okOr (i128.checkedSub state.reserveB amountB) .overflow)
    lift (failIf ((0 < reserveAAfter ∧ reserveAAfter < minimumReserve) ∨
      (0 < reserveBAfter ∧ reserveBAfter < minimumReserve)) .dustAmount)
    let lp ← lift (nested (w.lp.burn env.lpEnv contract burnLp))
    let cleared ← lift (clearPending w dst)
    write { cleared with lp }
    transferA contract dst amountA
    transferB contract dst amountB
    let kLast ← lift (okOr (i128.checkedMul reserveAAfter reserveBAfter) .overflow)
    let w ← read
    write (w.setPairState
      { state with
        reserveA := reserveAAfter, reserveB := reserveBAfter, kLast
        blockTimestampLast := env.timestamp })

def burnSingleSide (env : Env contract) (dst : Address) (lpAmount : ℤ) (preferredToken : Address)
    (minAmountOut : ℤ) : Code Address Unit := do
  lift (require (env.auth dst = true))
  withGuard do
    let w ← read
    lift w.ensureNotFrozen
    let state ← lift w.getPairState
    let feeState ← lift w.getFeeState
    lift w.ensureLpTokenNotPaused
    lift (failIf (lpAmount ≤ 0 ∨ minAmountOut ≤ 0) .invalidInput)
    let preferA ← lift (tokenSide state preferredToken)
    let totalSupply := w.lp.totalSupply
    lift (failIf (totalSupply = 0) .insufficientLiquidityBurned)
    let lp ← lift (nested (w.lp.burn env.lpEnv dst lpAmount))
    write { w with lp }
    let burnableSupply ← lift (okOr (i128.checkedSub totalSupply minimumLiquidity) .overflow)
    lift (failIf (burnableSupply = 0) .insufficientLiquidityBurned)
    let shareA ← lift (share lpAmount state.reserveA burnableSupply)
    let shareB ← lift (share lpAmount state.reserveB burnableSupply)
    lift (failIf (shareA ≤ 0 ∨ shareB ≤ 0) .insufficientLiquidityBurned)
    let sharePreferred := if preferA then shareA else shareB
    let shareUnwanted := if preferA then shareB else shareA
    let reservePreferred := if preferA then state.reserveA else state.reserveB
    let reserveUnwanted := if preferA then state.reserveB else state.reserveA
    let reservePreferredPostBurn ←
      lift (okOr (i128.checkedSub reservePreferred sharePreferred) .overflow)
    let reserveUnwantedPostBurn ←
      lift (okOr (i128.checkedSub reserveUnwanted shareUnwanted) .overflow)
    let feeBps := burnSingleSideFeeBps feeState
    let swapOut ← lift (singleSideSwapOut shareUnwanted reserveUnwantedPostBurn
      reservePreferredPostBurn feeBps)
    let totalOut ← lift (okOr (i128.checkedAdd sharePreferred swapOut) .overflow)
    lift (failIf (totalOut < minAmountOut) .slippageExceeded)
    let reservePreferredFinal ←
      lift (okOr (i128.checkedSub reservePreferredPostBurn swapOut) .overflow)
    let reserveUnwantedFinal := reserveUnwanted
    let product ←
      lift (okOr (i128.checkedMul reservePreferredPostBurn reserveUnwantedPostBurn) .overflow)
    let kBefore ← lift (okOr (i128.checkedMul product 100000000) .overflow)
    let balancePreferredAdj ←
      lift (okOr (i128.checkedMul reservePreferredFinal bpsDenominator) .overflow)
    let scaledUnwanted ←
      lift (okOr (i128.checkedMul reserveUnwantedFinal bpsDenominator) .overflow)
    let charged ← lift (okOr (i128.checkedMul shareUnwanted feeBps) .overflow)
    let balanceUnwantedAdj ← lift (okOr (i128.checkedSub scaledUnwanted charged) .overflow)
    let kAfter ← lift (okOr (i128.checkedMul balancePreferredAdj balanceUnwantedAdj) .overflow)
    lift (failIf (kAfter < kBefore) .invalidK)
    transferSide preferA contract dst totalOut
    let reserveA := if preferA then reservePreferredFinal else reserveUnwantedFinal
    let reserveB := if preferA then reserveUnwantedFinal else reservePreferredFinal
    let kLast ← lift (okOr (i128.checkedMul reserveA reserveB) .overflow)
    let w ← read
    write (w.setPairState
      { state with reserveA, reserveB, kLast, blockTimestampLast := env.timestamp })

def collectProtocolFees (env : Env contract) (feeA feeB : ℤ) : Code Address Unit :=
  match env.protocolFeeTo with
  | some feeTo => do
      payA contract feeTo feeA
      payB contract feeTo feeB
  | none => pure ()

def swapInner (env : Env contract) (amountAOut amountBOut : ℤ) (dst : Address) :
    Code Address Unit := do
  lift (failIf (amountAOut ≤ 0 ∧ amountBOut ≤ 0) .insufficientOutputAmount)
  let w ← read
  let pair ← lift w.getPairState
  let feeState ← lift w.getFeeState
  lift (failIf (pair.reserveA ≤ amountAOut ∨ pair.reserveB ≤ amountBOut) .insufficientLiquidity)
  let reserveALeft ← lift (okOr (i128.checkedSub pair.reserveA amountAOut) .overflow)
  let reserveBLeft ← lift (okOr (i128.checkedSub pair.reserveB amountBOut) .overflow)
  lift (failIf (reserveALeft < minimumReserve ∨ reserveBLeft < minimumReserve) .dustAmount)
  let decayed ← lift (feeState.decayStaleEma env)
  let feeBps := env.effectiveFeeBps decayed.computeFeeBps
  payA contract dst amountAOut
  payB contract dst amountBOut
  let w ← read
  let balanceA := w.tokenA.balance contract
  let balanceB := w.tokenB.balance contract
  let amountAIn ← lift (inferInput balanceA pair.reserveA amountAOut)
  let amountBIn ← lift (inferInput balanceB pair.reserveB amountBOut)
  lift (failIf (amountAIn ≤ 0 ∧ amountBIn ≤ 0) .insufficientInputAmount)
  let balanceAAdj ← lift (feeAdjusted balanceA amountAIn feeBps)
  let balanceBAdj ← lift (feeAdjusted balanceB amountBIn feeBps)
  let product ← lift (okOr (i128.checkedMul pair.reserveA pair.reserveB) .overflow)
  let kBefore ← lift (okOr (i128.checkedMul product 100000000) .overflow)
  let kAfter ← lift (okOr (i128.checkedMul balanceAAdj balanceBAdj) .overflow)
  lift (failIf (kAfter < kBefore) .invalidK)
  let protocolFeeA := env.protocolFee amountAIn feeBps
  let protocolFeeB := env.protocolFee amountBIn feeBps
  collectProtocolFees env protocolFeeA protocolFeeB
  let collected := 0 < protocolFeeA ∨ 0 < protocolFeeB
  let reserveA ← lift (okOr (i128.checkedSub balanceA protocolFeeA) .overflow)
  let reserveB ← lift (okOr (i128.checkedSub balanceB protocolFeeB) .overflow)
  let kLast ← lift (okOr (i128.checkedMul reserveA reserveB) .overflow)
  let settled : PairStorage Address :=
    { pair with reserveA, reserveB, kLast, blockTimestampLast := env.timestamp }
  let tracked ← lift (trackVolatility env decayed pair settled amountAIn amountBIn)
  let w ← read
  write
    { w with
      pair :=
        { w.pair with
          pairState := some settled
          feeState := some tracked
          protocolFeeA :=
            if collected then i128.saturatingAdd w.pair.protocolFeeA protocolFeeA
            else w.pair.protocolFeeA
          protocolFeeB :=
            if collected then i128.saturatingAdd w.pair.protocolFeeB protocolFeeB
            else w.pair.protocolFeeB } }

def swap (env : Env contract) (amountAOut amountBOut : ℤ) (dst : Address) : Code Address Unit :=
  withGuard do
    let w ← read
    lift w.ensureNotFrozen
    swapInner env amountAOut amountBOut dst

def swapIntoPair (env : Env contract) (tokenInIsA : Bool) (swapOut : ℤ) : Code Address Unit :=
  if tokenInIsA then swapInner env 0 swapOut contract else swapInner env swapOut 0 contract

def mintWithOneToken (env : Env contract) (dst tokenIn : Address) (amount minLpOut : ℤ) :
    Code Address Unit := do
  lift (require (env.auth dst = true))
  withGuard do
    let w ← read
    lift w.ensureNotFrozen
    let state ← lift w.getPairState
    let feeState ← lift w.getFeeState
    lift w.ensureLpTokenNotPaused
    lift (failIf (amount ≤ 0) .invalidInput)
    lift (failIf (minLpOut ≤ 0) .invalidInput)
    let tokenInIsA ← lift (tokenSide state tokenIn)
    let reserveIn := if tokenInIsA then state.reserveA else state.reserveB
    let reserveOut := if tokenInIsA then state.reserveB else state.reserveA
    lift (failIf (reserveIn ≤ 0 ∨ reserveOut ≤ 0) .insufficientLiquidity)
    let feeBps := mintWithOneTokenFeeBps feeState
    let swapIn ← lift (computeSwapInForSingleSide reserveIn amount feeBps)
    lift (failIf (swapIn ≤ 0 ∨ amount ≤ swapIn) .invalidInput)
    transferSide tokenInIsA dst contract amount
    let swapOut ← lift (getAmountOut swapIn reserveIn reserveOut feeBps)
    lift (failIf (swapOut ≤ 0) .insufficientLiquidity)
    let depositIn ← lift (okOr (i128.checkedSub amount swapIn) .overflow)
    let depositOut := swapOut
    lift (failIf (depositIn ≤ 0 ∨ depositOut ≤ 0) .insufficientLiquidityMinted)
    swapIntoPair env tokenInIsA swapOut
    let w ← read
    let postSwap ← lift w.getPairState
    let depositA := if tokenInIsA then depositIn else depositOut
    let depositB := if tokenInIsA then depositOut else depositIn
    let totalSupply := w.lp.totalSupply
    lift (failIf (totalSupply = 0) .insufficientLiquidityMinted)
    let lpMinted ←
      lift (subsequentLiquidity depositA depositB postSwap.reserveA postSwap.reserveB totalSupply)
    lift (failIf (lpMinted ≤ 0) .insufficientLiquidityMinted)
    lift (failIf (lpMinted < minLiquidityForUser) .dustAmount)
    lift (failIf (lpMinted < minLpOut) .slippageExceeded)
    let lp ← lift (nested (w.lp.mint env.lpEnv dst lpMinted))
    write { w with lp }
    let newReserveA ← lift (okOr (i128.checkedAdd postSwap.reserveA depositA) .overflow)
    let newReserveB ← lift (okOr (i128.checkedAdd postSwap.reserveB depositB) .overflow)
    let kLast ← lift (okOr (i128.checkedMul newReserveA newReserveB) .overflow)
    let w ← read
    write (w.setPairState
      { postSwap with
        reserveA := newReserveA, reserveB := newReserveB, kLast
        blockTimestampLast := env.timestamp })

/-- The callback: the actions the receiver is known to take, and whatever else its callee does. -/
def onFlashLoan (contract : Address) (callback : Callback Address) : Code Address Unit := do
  let w ← read
  write ((externalMachine contract).run w callback.actions)
  let returns ← handOver
  lift (failIf (callback.succeeds = false ∨ returns = false) .flashCallbackFailed)

def executeFlashLoan (contract receiver : Address) (amountA amountB : ℤ) (dataLen : ℕ)
    (callback : Callback Address) : Code Address Unit := do
  lift (failIf (maxPayloadSize < dataLen) .flashPayloadTooLarge)
  lift (failIf (amountA < 0 ∨ amountB < 0) .insufficientInputAmount)
  let w ← read
  let state ← lift w.getPairState
  if amountA = 0 ∧ amountB = 0 then pure ()
  else do
    lift (failIf (state.reserveA < amountA ∨ state.reserveB < amountB) .insufficientLiquidity)
    let preK ← lift (okOr (i128.checkedMul state.reserveA state.reserveB) .overflow)
    withGuard do
      let w ← read
      let poolFeeBps := (w.pair.feeState.map FeeState.baselineFeeBps).getD flashFeeFloorBps
      let feeA ← lift (flashFee amountA poolFeeBps)
      let feeB ← lift (flashFee amountB poolFeeBps)
      payA contract receiver amountA
      payB contract receiver amountB
      onFlashLoan contract callback
      let w ← read
      let newBalanceA := w.tokenA.balance contract
      let newBalanceB := w.tokenB.balance contract
      lift (checkRepaid amountA state.reserveA feeA newBalanceA)
      lift (checkRepaid amountB state.reserveB feeB newBalanceB)
      let postK ← lift (okOr (i128.checkedMul newBalanceA newBalanceB) .overflow)
      lift (failIf (postK < preK) .invalidK)
      write (w.setPairState
        { state with reserveA := newBalanceA, reserveB := newBalanceB, kLast := postK })

def flashLoan (contract receiver : Address) (amountA amountB : ℤ) (dataLen : ℕ)
    (callback : Callback Address) : Code Address Unit := do
  let w ← read
  lift w.ensureNotFrozen
  executeFlashLoan contract receiver amountA amountB dataLen callback

omit [DecidableEq Address] in
def sync (env : Env contract) : Code Address Unit :=
  withGuard do
    let w ← read
    let state ← lift w.getPairState
    let balanceA := w.tokenA.balance contract
    let balanceB := w.tokenB.balance contract
    let kLast ← lift (okOr (i128.checkedMul balanceA balanceB) .overflow)
    write (w.setPairState
      { state with
        reserveA := balanceA, reserveB := balanceB, kLast, blockTimestampLast := env.timestamp })

/-- The state-changing entry points of users. -/
inductive Entry (Address : Type) where
  | mint (dst : Address)
  | mintWithOneToken (dst tokenIn : Address) (amount minLpOut : ℤ)
  | depositLp (src : Address) (amount : ℤ)
  | burn (dst : Address)
  | burnSingleSide (dst : Address) (lpAmount : ℤ) (preferredToken : Address) (minAmountOut : ℤ)
  | swap (amountAOut amountBOut : ℤ) (dst : Address)
  | flashLoan (receiver : Address) (amountA amountB : ℤ) (dataLen : ℕ) (callback : Callback Address)
  | sync

namespace Entry

def code (env : Env contract) : Entry Address → Code Address Unit
  | .mint dst => Reentrant.mint env dst
  | .mintWithOneToken dst tokenIn amount minLpOut =>
      Reentrant.mintWithOneToken env dst tokenIn amount minLpOut
  | .depositLp src amount => Reentrant.depositLp env src amount
  | .burn dst => Reentrant.burn env dst
  | .burnSingleSide dst lpAmount preferredToken minAmountOut =>
      Reentrant.burnSingleSide env dst lpAmount preferredToken minAmountOut
  | .swap amountAOut amountBOut dst => Reentrant.swap env amountAOut amountBOut dst
  | .flashLoan receiver amountA amountB dataLen callback =>
      Reentrant.flashLoan contract receiver amountA amountB dataLen callback
  | .sync => Reentrant.sync env

omit [DecidableEq Address] in
def toOp : Entry Address → Op Address
  | .mint dst => .mint dst
  | .mintWithOneToken dst tokenIn amount minLpOut => .mintWithOneToken dst tokenIn amount minLpOut
  | .depositLp src amount => .depositLp src amount
  | .burn dst => .burn dst
  | .burnSingleSide dst lpAmount preferredToken minAmountOut =>
      .burnSingleSide dst lpAmount preferredToken minAmountOut
  | .swap amountAOut amountBOut dst => .swap amountAOut amountBOut dst
  | .flashLoan receiver amountA amountB dataLen callback =>
      .flashLoan receiver amountA amountB dataLen callback
  | .sync => .sync

end Entry

/-- The pair, and what can happen outside it while it runs. -/
def pairContract (contract : Address) :
    Program.Contract (World Address) (Env contract × Entry Address) (External Address) PairError where
  code := fun call => call.2.code call.1
  outside := externalMachine contract

end CoralSwap.Reentrant
