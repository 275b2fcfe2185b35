import CoralSwap.Pair.Math

/-!
# Two-sided liquidity

`mint` turns the surplus of the balances over the reserves into shares, `deposit_lp` stages shares
for a withdrawal, and `burn` redeems staged or unattributed shares. The seed of `minimumLiquidity`
shares is part of the supply a mint divides by and not of the supply a burn divides by.
-/

namespace CoralSwap

open Host Host.Call

variable {Address : Type} [DecidableEq Address] {contract : Address}

/-- The shares a deposit is worth, and the LP token once a first mint has locked the seed. -/
def mintedLiquidity (env : Env contract) (lp : LpToken Address) (state : PairStorage Address)
    (amountA amountB : ℤ) : Call PairError (ℤ × LpToken Address) :=
  if lp.totalSupply = 0 then do
    let liquidity ← initialLiquidity amountA amountB
    let seeded ← nested (lp.mint env.lpEnv contract minimumLiquidity)
    pure (liquidity, seeded)
  else do
    let liquidity ←
      subsequentLiquidity amountA amountB state.reserveA state.reserveB lp.totalSupply
    pure (liquidity, lp)

def mint (env : Env contract) (w : World Address) (dst : Address) :
    Call PairError (World Address × ℤ) := do
  require (env.auth dst = true)
  let held ← w.acquireLock
  held.ensureNotFrozen
  let state ← held.getPairState
  held.ensureLpTokenNotPaused
  let balanceA := held.tokenA.balance contract
  let balanceB := held.tokenB.balance contract
  let amountA ← okOr (i128.checkedSub balanceA state.reserveA) .invalidInput
  let amountB ← okOr (i128.checkedSub balanceB state.reserveB) .invalidInput
  failIf (amountA < minimumReserve ∨ amountB < minimumReserve) .dustAmount
  let (liquidity, seeded) ← mintedLiquidity env held.lp state amountA amountB
  failIf (liquidity ≤ 0) .insufficientLiquidityMinted
  failIf (liquidity < minLiquidityForUser) .dustAmount
  let lp ← nested (seeded.mint env.lpEnv dst liquidity)
  let kLast ← okOr (i128.checkedMul balanceA balanceB) .overflow
  let funded := held.setPairState
    { state with
      reserveA := balanceA, reserveB := balanceB, kLast, blockTimestampLast := env.timestamp }
  pure ({ funded with lp }.releaseLock, liquidity)

def depositLp (env : Env contract) (w : World Address) (src : Address) (amount : ℤ) :
    Call PairError (World Address) := do
  require (env.auth src = true)
  let held ← w.acquireLock
  let _ ← held.getPairState
  held.ensureLpTokenNotPaused
  failIf (amount ≤ 0 ∨ src = contract) .invalidInput
  let lp ← nested (held.lp.transfer env.lpEnv src contract amount)
  let pending ← okOr (i128.checkedAdd (held.pair.pendingLp src) amount) .overflow
  let total ← okOr (i128.checkedAdd held.pair.pendingLpTotal amount) .overflow
  let staged := (held.setPendingLp src pending).setPendingLpTotal total
  pure { staged with lp }.releaseLock

/-- The shares a burn by `dst` redeems: everything it has staged, else the unattributed rest. -/
def burnableLp (w : World Address) (lpBalance : ℤ) (dst : Address) : Call PairError ℤ :=
  let pending := w.pair.pendingLp dst
  if 0 < pending then pure pending
  else
    okOr ((i128.checkedSub lpBalance minimumLiquidity).bind
      fun v => i128.checkedSub v w.pair.pendingLpTotal) .insufficientLiquidityBurned

def clearPending (w : World Address) (dst : Address) : Call PairError (World Address) :=
  let pending := w.pair.pendingLp dst
  if 0 < pending then do
    let total ← orTrap (i128.checkedSub w.pair.pendingLpTotal pending)
    pure ((w.setPendingLp dst 0).setPendingLpTotal total)
  else pure w

def burn (env : Env contract) (w : World Address) (dst : Address) :
    Call PairError (World Address × ℤ × ℤ) := do
  require (env.auth dst = true)
  let held ← w.acquireLock
  let state ← held.getPairState
  held.ensureLpTokenNotPaused
  let lpBalance := held.lp.balance contract
  let totalSupply := held.lp.totalSupply
  failIf (totalSupply = 0) .insufficientLiquidityBurned
  let burnableSupply ← okOr (i128.checkedSub totalSupply minimumLiquidity) .overflow
  failIf (burnableSupply = 0) .insufficientLiquidityBurned
  let burnLp ← burnableLp held lpBalance dst
  failIf (burnLp ≤ 0) .insufficientLiquidityBurned
  let (amountA, amountB) ← burnAmounts burnLp state.reserveA state.reserveB burnableSupply
  failIf (amountA ≤ 0 ∨ amountB ≤ 0) .insufficientLiquidityBurned
  failIf (amountA < minimumReserve ∨ amountB < minimumReserve) .dustAmount
  let reserveAAfter ← okOr (i128.checkedSub state.reserveA amountA) .overflow
  let reserveBAfter ← okOr (i128.checkedSub state.reserveB amountB) .overflow
  failIf ((0 < reserveAAfter ∧ reserveAAfter < minimumReserve) ∨
    (0 < reserveBAfter ∧ reserveBAfter < minimumReserve)) .dustAmount
  let lp ← nested (held.lp.burn env.lpEnv contract burnLp)
  let cleared ← clearPending held dst
  let tokenA ← orTrap (cleared.tokenA.transfer contract dst amountA)
  let tokenB ← orTrap (cleared.tokenB.transfer contract dst amountB)
  let kLast ← okOr (i128.checkedMul reserveAAfter reserveBAfter) .overflow
  let redeemed := cleared.setPairState
    { state with
      reserveA := reserveAAfter, reserveB := reserveBAfter, kLast
      blockTimestampLast := env.timestamp }
  pure ({ redeemed with lp, tokenA, tokenB }.releaseLock, amountA, amountB)

end CoralSwap
