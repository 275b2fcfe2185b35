import CoralSwap.Router.Quotes

/-!
# The search for the best path

The candidates are the direct path, the paths over one hub and the paths over two, in this order. A
candidate that cannot be quoted is skipped; of the rest the first with the highest output wins.
-/

namespace CoralSwap.Router

open Host Host.Call

variable {Address χ : Type} [LinearOrder Address] {router : Address}
variable (env : RouterEnv router χ) (rest : χ)

/-- The output of a candidate, if all its pairs are found, all are priced, and all hops are quoted. -/
def quoteCandidate (factory : Address) (path : List Address) (amountIn : ℤ) :
    Call RouterError (Option ℤ) := do
  let hops := path.zip path.tail
  let pairs ← hops.mapM fun hop => attempt (getPairAddress env rest factory hop.1 hop.2)
  match pairs.mapM id with
  | none => pure none
  | some pairs => do
      let priced ← (pairs.zip hops).mapM fun (pair, hop) =>
        attempt (getPairReservesAndFee env rest pair hop.1 hop.2)
      match priced.mapM id with
      | none => pure none
      | some priced =>
          attempt (priced.foldlM (fun amount (reserveIn, reserveOut, feeBps) =>
            getAmountOut amount reserveIn reserveOut feeBps) amountIn)

def oneHubPaths (hubs : List Address) (tokenIn tokenOut : Address) : List (List Address) :=
  (hubs.filter fun hub => hub ≠ tokenIn ∧ hub ≠ tokenOut).map fun hub => [tokenIn, hub, tokenOut]

/-- The paths over two hubs at different places of the hub list. -/
def twoHubPaths (hubs : List Address) (tokenIn tokenOut : Address) : List (List Address) :=
  hubs.zipIdx.flatMap fun (hubI, i) =>
    (hubs.zipIdx.filter fun (hubJ, j) =>
      i ≠ j ∧ hubI ≠ tokenIn ∧ hubI ≠ tokenOut ∧ hubJ ≠ tokenIn ∧ hubJ ≠ tokenOut).map
      fun (hubJ, _) => [tokenIn, hubI, hubJ, tokenOut]

def improve (factory : Address) (amountIn : ℤ) (best : List Address × ℤ) (path : List Address) :
    Call RouterError (List Address × ℤ) := do
  let quoted ← quoteCandidate env rest factory path amountIn
  match quoted with
  | some out => pure (if best.2 < out then (path, out) else best)
  | none => pure best

def getBestPath (storage : RouterStorage Address) (tokenIn tokenOut : Address) (amountIn : ℤ) :
    Call RouterError (List Address × ℤ) := do
  failIf (tokenIn = tokenOut) .identicalTokens
  failIf (amountIn ≤ 0) .zeroAmount
  let factory ← storage.getFactory
  -- a quote is positive, so the direct path replaces the initial `-1` like any other improvement
  let best ← ([tokenIn, tokenOut] :: (oneHubPaths storage.hubs tokenIn tokenOut ++
    twoHubPaths storage.hubs tokenIn tokenOut)).foldlM (improve env rest factory amountIn) ([], -1)
  failIf (best.2 < 0) .pairNotFound
  pure best

end CoralSwap.Router
