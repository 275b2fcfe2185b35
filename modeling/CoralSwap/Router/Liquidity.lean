import CoralSwap.Router.Swap

/-!
# Liquidity through the router

The pair stores its tokens in canonical order; amounts are swapped on the way in and on the way out
when the caller names the tokens the other way round.
-/

namespace CoralSwap.Router

open Host Host.Call

variable {Address χ : Type} [LinearOrder Address] {router : Address}
variable (env : RouterEnv router χ) (rest : χ)

/-- The two values in canonical order, or back in the caller's. -/
def reorder (swapped : Bool) (values : ℤ × ℤ) : ℤ × ℤ := if swapped then values.swap else values

def addLiquidity (storage : RouterStorage Address) (tokenA tokenB : Address)
    (amountADesired amountBDesired amountAMin amountBMin : ℤ) (dst : Address) (deadline : ℕ)
    (deadlineLedger : Option ℕ) : Call RouterError (χ × ℤ × ℤ × ℤ) := do
  checkDeadline env deadline deadlineLedger
  failIf (amountADesired ≤ 0 ∨ amountBDesired ≤ 0) .zeroAmount
  failIf (tokenA = tokenB) .identicalTokens
  let (token0, token1) ← sortTokens tokenA tokenB
  let swapped := decide (token0 ≠ tokenA)
  let (amount0Desired, amount1Desired) := reorder swapped (amountADesired, amountBDesired)
  let (amount0Min, amount1Min) := reorder swapped (amountAMin, amountBMin)
  let factory ← storage.getFactory
  let pair ← getPairAddress env rest factory token0 token1
  let (reserve0, reserve1) ← orTrap (env.chain.getReserves rest pair)
  let (amount0, amount1) ← computeOptimalAmounts amount0Desired amount1Desired amount0Min amount1Min
    reserve0 reserve1
  require (env.auth dst = true)
  let sent0 ← orTrap (env.chain.transfer rest token0 dst pair amount0)
  let sent1 ← orTrap (env.chain.transfer sent0 token1 dst pair amount1)
  let (minted, liquidity) ← orTrap (env.chain.mint sent1 pair dst)
  let (amountA, amountB) := reorder swapped (amount0, amount1)
  pure (minted, amountA, amountB, liquidity)

def removeLiquidity (storage : RouterStorage Address) (tokenA tokenB : Address)
    (liquidity amountAMin amountBMin : ℤ) (dst : Address) (deadline : ℕ)
    (deadlineLedger : Option ℕ) : Call RouterError (χ × ℤ × ℤ) := do
  checkDeadline env deadline deadlineLedger
  failIf (liquidity ≤ 0) .zeroAmount
  failIf (tokenA = tokenB) .identicalTokens
  let (token0, token1) ← sortTokens tokenA tokenB
  let swapped := decide (token0 ≠ tokenA)
  let (amount0Min, amount1Min) := reorder swapped (amountAMin, amountBMin)
  let factory ← storage.getFactory
  let pair ← getPairAddress env rest factory token0 token1
  require (env.auth dst = true)
  let staged ← orTrap (env.chain.depositLp rest pair dst liquidity)
  let (burned, amount0, amount1) ← orTrap (env.chain.burn staged pair dst)
  failIf (amount0 < amount0Min ∨ amount1 < amount1Min) .insufficientOutputAmount
  let (amountA, amountB) := reorder swapped (amount0, amount1)
  pure (burned, amountA, amountB)

end CoralSwap.Router
