import CoralSwap.Pair.Liquidity
import CoralSwap.Pair.Swap

/-!
# Single-sided liquidity

`mint_with_one_token` swaps part of a one-token deposit inside the pool and mints on the rest;
`burn_single_side` redeems shares into one token. Both price their internal swap with the dynamic
fee as it is stored.
-/

namespace CoralSwap

open Host Host.Call

variable {Address : Type} [DecidableEq Address] {contract : Address}

def tokenSide (state : PairStorage Address) (token : Address) : Call PairError Bool :=
  if token = state.tokenA then pure true
  else if token = state.tokenB then pure false
  else fail .invalidInput

def moveToken (w : World Address) (isA : Bool) (src dst : Address) (amount : ℤ) :
    Call PairError (World Address) :=
  if isA then do
    let tokenA ← orTrap (w.tokenA.transfer src dst amount)
    pure { w with tokenA }
  else do
    let tokenB ← orTrap (w.tokenB.transfer src dst amount)
    pure { w with tokenB }

/-- The rate `mint_with_one_token` sizes and quotes its internal swap with. -/
def mintWithOneTokenFeeBps (fs : FeeState) : ℕ := fs.computeFeeBps

def burnSingleSideFeeBps (fs : FeeState) : ℕ := fs.computeFeeBps

structure MintSingleSideEvent where
  swapIn : ℤ
  swapOut : ℤ
  lpMinted : ℤ
  deriving DecidableEq, Repr

/-- The internal swap of a one-token mint. Its recipient is the pair itself. -/
def swapIntoPair (env : Env contract) (w : World Address) (tokenInIsA : Bool) (swapOut : ℤ) :
    Call PairError (World Address × SwapEvent) :=
  if tokenInIsA then swapInner env w 0 swapOut contract else swapInner env w swapOut 0 contract

def mintWithOneToken (env : Env contract) (w : World Address) (dst tokenIn : Address)
    (amount minLpOut : ℤ) : Call PairError (World Address × MintSingleSideEvent) := do
  require (env.auth dst = true)
  let held ← w.acquireLock
  held.ensureNotFrozen
  let state ← held.getPairState
  let feeState ← held.getFeeState
  held.ensureLpTokenNotPaused
  failIf (amount ≤ 0) .invalidInput
  failIf (minLpOut ≤ 0) .invalidInput
  let tokenInIsA ← tokenSide state tokenIn
  let reserveIn := if tokenInIsA then state.reserveA else state.reserveB
  let reserveOut := if tokenInIsA then state.reserveB else state.reserveA
  failIf (reserveIn ≤ 0 ∨ reserveOut ≤ 0) .insufficientLiquidity
  let feeBps := mintWithOneTokenFeeBps feeState
  let swapIn ← computeSwapInForSingleSide reserveIn amount feeBps
  failIf (swapIn ≤ 0 ∨ amount ≤ swapIn) .invalidInput
  let pulled ← moveToken held tokenInIsA dst contract amount
  let swapOut ← getAmountOut swapIn reserveIn reserveOut feeBps
  failIf (swapOut ≤ 0) .insufficientLiquidity
  let depositIn ← okOr (i128.checkedSub amount swapIn) .overflow
  let depositOut := swapOut
  failIf (depositIn ≤ 0 ∨ depositOut ≤ 0) .insufficientLiquidityMinted
  let (swapped, _) ← swapIntoPair env pulled tokenInIsA swapOut
  let postSwap ← swapped.getPairState
  let depositA := if tokenInIsA then depositIn else depositOut
  let depositB := if tokenInIsA then depositOut else depositIn
  let totalSupply := swapped.lp.totalSupply
  failIf (totalSupply = 0) .insufficientLiquidityMinted
  let lpMinted ←
    subsequentLiquidity depositA depositB postSwap.reserveA postSwap.reserveB totalSupply
  failIf (lpMinted ≤ 0) .insufficientLiquidityMinted
  failIf (lpMinted < minLiquidityForUser) .dustAmount
  failIf (lpMinted < minLpOut) .slippageExceeded
  let lp ← nested (swapped.lp.mint env.lpEnv dst lpMinted)
  let newReserveA ← okOr (i128.checkedAdd postSwap.reserveA depositA) .overflow
  let newReserveB ← okOr (i128.checkedAdd postSwap.reserveB depositB) .overflow
  let kLast ← okOr (i128.checkedMul newReserveA newReserveB) .overflow
  let funded := swapped.setPairState
    { postSwap with
      reserveA := newReserveA, reserveB := newReserveB, kLast
      blockTimestampLast := env.timestamp }
  pure ({ funded with lp }.releaseLock, ⟨swapIn, swapOut, lpMinted⟩)

/-- The output of the internal swap of `burn_single_side`: nothing from a drained reserve, and a
quote that truncates to dust is tolerated. -/
def singleSideSwapOut (shareUnwanted reserveUnwanted reservePreferred : ℤ) (feeBps : ℕ) :
    Call PairError ℤ :=
  if reservePreferred = 0 then pure 0
  else
    match getAmountOut shareUnwanted reserveUnwanted reservePreferred feeBps with
    | .ok out => pure out
    | .error (.error .dustAmount) => pure 0
    | .error fault => .error fault

def burnSingleSide (env : Env contract) (w : World Address) (dst : Address) (lpAmount : ℤ)
    (preferredToken : Address) (minAmountOut : ℤ) : Call PairError (World Address × ℤ) := do
  require (env.auth dst = true)
  let held ← w.acquireLock
  held.ensureNotFrozen
  let state ← held.getPairState
  let feeState ← held.getFeeState
  held.ensureLpTokenNotPaused
  failIf (lpAmount ≤ 0 ∨ minAmountOut ≤ 0) .invalidInput
  let preferA ← tokenSide state preferredToken
  let totalSupply := held.lp.totalSupply
  failIf (totalSupply = 0) .insufficientLiquidityBurned
  let lp ← nested (held.lp.burn env.lpEnv dst lpAmount)
  let burnableSupply ← okOr (i128.checkedSub totalSupply minimumLiquidity) .overflow
  failIf (burnableSupply = 0) .insufficientLiquidityBurned
  let shareA ← share lpAmount state.reserveA burnableSupply
  let shareB ← share lpAmount state.reserveB burnableSupply
  failIf (shareA ≤ 0 ∨ shareB ≤ 0) .insufficientLiquidityBurned
  let sharePreferred := if preferA then shareA else shareB
  let shareUnwanted := if preferA then shareB else shareA
  let reservePreferred := if preferA then state.reserveA else state.reserveB
  let reserveUnwanted := if preferA then state.reserveB else state.reserveA
  let reservePreferredPostBurn ←
    okOr (i128.checkedSub reservePreferred sharePreferred) .overflow
  let reserveUnwantedPostBurn ← okOr (i128.checkedSub reserveUnwanted shareUnwanted) .overflow
  let feeBps := burnSingleSideFeeBps feeState
  let swapOut ← singleSideSwapOut shareUnwanted reserveUnwantedPostBurn reservePreferredPostBurn
    feeBps
  let totalOut ← okOr (i128.checkedAdd sharePreferred swapOut) .overflow
  failIf (totalOut < minAmountOut) .slippageExceeded
  let reservePreferredFinal ← okOr (i128.checkedSub reservePreferredPostBurn swapOut) .overflow
  let reserveUnwantedFinal := reserveUnwanted
  let product ←
    okOr (i128.checkedMul reservePreferredPostBurn reserveUnwantedPostBurn) .overflow
  let kBefore ← okOr (i128.checkedMul product 100000000) .overflow
  let balancePreferredAdj ← okOr (i128.checkedMul reservePreferredFinal bpsDenominator) .overflow
  let scaledUnwanted ← okOr (i128.checkedMul reserveUnwantedFinal bpsDenominator) .overflow
  let charged ← okOr (i128.checkedMul shareUnwanted feeBps) .overflow
  let balanceUnwantedAdj ← okOr (i128.checkedSub scaledUnwanted charged) .overflow
  let kAfter ← okOr (i128.checkedMul balancePreferredAdj balanceUnwantedAdj) .overflow
  failIf (kAfter < kBefore) .invalidK
  let paid ← moveToken held preferA contract dst totalOut
  let reserveA := if preferA then reservePreferredFinal else reserveUnwantedFinal
  let reserveB := if preferA then reserveUnwantedFinal else reservePreferredFinal
  let kLast ← okOr (i128.checkedMul reserveA reserveB) .overflow
  let redeemed := paid.setPairState
    { state with reserveA, reserveB, kLast, blockTimestampLast := env.timestamp }
  pure ({ redeemed with lp }.releaseLock, totalOut)

end CoralSwap
