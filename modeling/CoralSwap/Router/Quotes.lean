import CoralSwap.Router.Types

/-!
# The router's quotes

Pairs are looked up at the factory the router stores, and priced with the quotes the pair shares. A
failed lookup or price is a typed error, except where a factory call fails: that traps.
-/

namespace CoralSwap.Router

open Host Host.Call

variable {Address χ : Type} [LinearOrder Address] {router : Address}

def mapQuoteError : QuoteError → RouterError
  | .zeroAmount => .zeroAmount
  | .dust => .dustAmount
  | .insufficientLiquidity | .overflow | .invalidFee => .insufficientLiquidity

def mapQuote (quote : Call QuoteError ℤ) : Call RouterError ℤ :=
  match quote with
  | .ok amount => .ok amount
  | .error (.error code) => fail (mapQuoteError code)
  | .error .trap => trap

@[simp]
theorem mapQuote_eq_ok {quote : Call QuoteError ℤ} {amount : ℤ} :
    mapQuote quote = .ok amount ↔ quote = .ok amount := by
  rcases quote with ⟨code | _⟩ | quoted <;> simp [mapQuote]

def getAmountOut (amountIn reserveIn reserveOut : ℤ) (feeBps : ℕ) : Call RouterError ℤ :=
  mapQuote (quoteOutputAmount amountIn reserveIn reserveOut feeBps)

def getAmountIn (amountOut reserveIn reserveOut : ℤ) (feeBps : ℕ) : Call RouterError ℤ :=
  mapQuote (quoteInputAmount amountOut reserveIn reserveOut feeBps)

def sortTokens (tokenA tokenB : Address) : Call RouterError (Address × Address) := do
  failIf (tokenA = tokenB) .identicalTokens
  pure (if tokenA < tokenB then (tokenA, tokenB) else (tokenB, tokenA))

/-- `amount * numerator / denominator`, which traps on a zero denominator. -/
def proportional (amount numerator denominator : ℤ) : Call RouterError ℤ := do
  let product ← okOr (i128.checkedMul amount numerator) .insufficientLiquidity
  orTrap (i128.checkedDiv product denominator)

def computeOptimalAmounts (amountADesired amountBDesired amountAMin amountBMin reserveA reserveB : ℤ) :
    Call RouterError (ℤ × ℤ) :=
  if reserveA = 0 ∧ reserveB = 0 then pure (amountADesired, amountBDesired)
  else do
    let amountBOptimal ← proportional amountADesired reserveB reserveA
    if amountBOptimal ≤ amountBDesired then do
      failIf (amountBOptimal < amountBMin) .slippageExceeded
      pure (amountADesired, amountBOptimal)
    else do
      let amountAOptimal ← proportional amountBDesired reserveA reserveB
      failIf (amountAOptimal < amountAMin) .slippageExceeded
      pure (amountAOptimal, amountBDesired)

variable (env : RouterEnv router χ) (rest : χ)

def getPairAddress (factory tokenA tokenB : Address) : Call RouterError Address := do
  let found ← orTrap (env.chain.getPair rest factory tokenA tokenB)
  let pair ← okOr found .pairNotFound
  let registered ← orTrap (env.chain.isPair rest factory pair)
  failIf (registered = false) .pairNotFound
  pure pair

def maxQuotedFeeBps : ℕ := 100

def getPairReservesAndFee (pair tokenIn tokenOut : Address) : Call RouterError (ℤ × ℤ × ℕ) := do
  let (reserveA, reserveB) ← okOr (env.chain.getReserves rest pair) .pairNotFound
  failIf (reserveA ≤ 0 ∨ reserveB ≤ 0 ∨ (i128.checkedMul reserveA reserveB).isNone = true)
    .insufficientLiquidity
  let (feeBps, _) ← okOr (env.chain.getEffectiveFeeBps rest pair) .pairNotFound
  failIf (maxQuotedFeeBps < feeBps) .pairNotFound
  let (token0, _) ← sortTokens tokenIn tokenOut
  pure (if tokenIn = token0 then (reserveA, reserveB, feeBps) else (reserveB, reserveA, feeBps))

def getHop (factory tokenIn tokenOut : Address) : Call RouterError (ℤ × ℤ × ℕ) := do
  let pair ← getPairAddress env rest factory tokenIn tokenOut
  getPairReservesAndFee env rest pair tokenIn tokenOut

/-- The loop of `get_path_amounts_out`, from the token it stands at. -/
def pathAmountsOut (factory : Address) : Address → List Address → ℤ → Call RouterError (List ℤ)
  | _, [], _ => pure []
  | token, next :: path, amountIn => do
      let (reserveIn, reserveOut, feeBps) ← getHop env rest factory token next
      let amountOut ← getAmountOut amountIn reserveIn reserveOut feeBps
      let amounts ← pathAmountsOut factory next path amountOut
      pure (amountOut :: amounts)

def getPathAmountsOut (factory : Address) (path : List Address) (amountIn : ℤ) :
    Call RouterError (List ℤ) :=
  match path with
  | token :: next :: path => pathAmountsOut env rest factory token (next :: path) amountIn
  | _ => fail .invalidPath

/-- The loop of `get_path_minimums`: the minimum of every hop, and the input the first one needs. A
minimum that is not positive constrains no earlier hop. -/
def pathMinimums (factory : Address) : Address → List Address → ℤ → Call RouterError (List ℤ × ℤ)
  | _, [], amountOutMin => pure ([], amountOutMin)
  | token, next :: path, amountOutMin => do
      let (minimums, minimum) ← pathMinimums factory next path amountOutMin
      let (reserveIn, reserveOut, feeBps) ← getHop env rest factory token next
      let needed ← if minimum ≤ 0 then pure 0 else getAmountIn minimum reserveIn reserveOut feeBps
      pure (minimum :: minimums, needed)

def getPathMinimums (factory : Address) (path : List Address) (amountOutMin : ℤ) :
    Call RouterError (List ℤ) :=
  match path with
  | token :: next :: path => do
      let (minimums, _) ← pathMinimums env rest factory token (next :: path) amountOutMin
      pure minimums
  | _ => fail .invalidPath

end CoralSwap.Router
