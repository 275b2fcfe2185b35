import CoralSwap.Router.Quotes

/-!
# The router's swaps

A path is quoted hop by hop and then executed hop by hop: each pair sends its output to the router,
which forwards it to the next pair, and the last one sends it to the recipient.
-/

namespace CoralSwap.Router

open Host Host.Call

variable {Address χ : Type} [LinearOrder Address] {router : Address}
variable (env : RouterEnv router χ) (rest : χ)

omit [LinearOrder Address] in
def checkDeadline (deadline : ℕ) (deadlineLedger : Option ℕ) : Call RouterError Unit := do
  failIf (deadline < env.timestamp) .expired
  failIf (deadlineLedger.any (· < env.sequence) = true) .expired

/-- The number of hops of a path of one to three; an empty path underflows. -/
def countHops (path : List Address) : Call RouterError ℕ := do
  let hops ← orTrap (u32.checkedSub path.length 1)
  failIf (¬(1 ≤ hops ∧ hops ≤ 3)) .invalidPath
  pure hops.toNat

def swapHop (pair tokenFrom tokenTo : Address) (amountOut : ℤ) (dst : Address) :
    Call RouterError χ := do
  let (token0, _) ← sortTokens tokenFrom tokenTo
  if tokenFrom = token0 then orTrap (env.chain.swap rest pair 0 amountOut dst)
  else orTrap (env.chain.swap rest pair amountOut 0 dst)

/-- The loop that executes a path, from the token it stands at: `amounts` are the outputs of its
hops. -/
def executeHops (factory dst : Address) : χ → Address → List Address → List ℤ → Call RouterError χ
  | rest, tokenFrom, tokenTo :: [], amountOut :: _ => do
      let pair ← getPairAddress env rest factory tokenFrom tokenTo
      swapHop env rest pair tokenFrom tokenTo amountOut dst
  | rest, tokenFrom, tokenTo :: next :: path, amountOut :: amounts => do
      let pair ← getPairAddress env rest factory tokenFrom tokenTo
      let swapped ← swapHop env rest pair tokenFrom tokenTo amountOut router
      let nextPair ← getPairAddress env swapped factory tokenTo next
      let forwarded ← orTrap (env.chain.transfer swapped tokenTo router nextPair amountOut)
      executeHops factory dst forwarded tokenTo (next :: path) amounts
  -- a path of at least one hop comes with an output for each
  | _, _, _, _ => trap

def executePath (factory dst : Address) (path : List Address) (amountIn : ℤ) (amounts : List ℤ) :
    Call RouterError χ := do
  require (env.auth dst = true)
  match path with
  | tokenIn :: next :: path => do
      let firstPair ← getPairAddress env rest factory tokenIn next
      let paid ← orTrap (env.chain.transfer rest tokenIn dst firstPair amountIn)
      executeHops env factory dst paid tokenIn (next :: path) amounts
  | _ => trap

/-- The router's whole balance of the input token goes to the recipient of a swap. -/
def sweepDust (dst : Address) (path : List Address) : Call RouterError χ := do
  let tokenIn ← orTrap path.head?
  let dust ← orTrap (env.chain.balance rest tokenIn router)
  if 0 < dust then orTrap (env.chain.transfer rest tokenIn router dst dust) else pure rest

def swapExactTokensMultiHop (storage : RouterStorage Address) (path : List Address)
    (amountIn amountOutMin : ℤ) (dst : Address) (deadline : ℕ) (deadlineLedger : Option ℕ) :
    Call RouterError (χ × ℤ) := do
  checkDeadline env deadline deadlineLedger
  failIf (amountIn ≤ 0) .zeroAmount
  let _ ← countHops path
  let factory ← storage.getFactory
  let amounts ← getPathAmountsOut env rest factory path amountIn
  let finalOut ← orTrap amounts.getLast?
  failIf (finalOut < amountOutMin) .insufficientOutputAmount
  let minimums ← getPathMinimums env rest factory path amountOutMin
  failIf ((amounts.zip minimums).any (fun hop => hop.1 < hop.2) = true) .insufficientOutputAmount
  let executed ← executePath env rest factory dst path amountIn amounts
  let swept ← sweepDust env executed dst path
  pure (swept, finalOut)

def swapExactTokensForTokens (storage : RouterStorage Address) (amountIn amountOutMin : ℤ)
    (path : List Address) (dst : Address) (deadline : ℕ) (deadlineLedger : Option ℕ) :
    Call RouterError (χ × List ℤ) := do
  let (executed, finalOut) ← swapExactTokensMultiHop env rest storage path amountIn amountOutMin dst
    deadline deadlineLedger
  pure (executed, [finalOut])

/-- The backward loop of an exact-output swap: the input of every hop. -/
def pathAmountsIn (factory : Address) : Address → List Address → ℤ → Call RouterError (List ℤ × ℤ)
  | _, [], amountOut => pure ([], amountOut)
  | token, next :: path, amountOut => do
      let (required, current) ← pathAmountsIn factory next path amountOut
      let (reserveIn, reserveOut, feeBps) ← getHop env rest factory token next
      let needed ← getAmountIn current reserveIn reserveOut feeBps
      pure (needed :: required, needed)

def swapTokensForExactTokens (storage : RouterStorage Address) (amountOut amountInMax : ℤ)
    (path : List Address) (dst : Address) (deadline : ℕ) (deadlineLedger : Option ℕ) :
    Call RouterError (χ × List ℤ) := do
  checkDeadline env deadline deadlineLedger
  failIf (amountOut ≤ 0) .zeroAmount
  let _ ← countHops path
  let factory ← storage.getFactory
  let token ← orTrap path.head?
  let (required, amountInNeeded) ← pathAmountsIn env rest factory token path.tail amountOut
  failIf (amountInMax < amountInNeeded) .excessiveInputAmount
  -- what a hop pays out is what the next one requires
  let executed ← executePath env rest factory dst path amountInNeeded (required.tail ++ [amountOut])
  pure (executed, [amountInNeeded])

end CoralSwap.Router
