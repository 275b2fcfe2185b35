import CoralSwap.Lib.Machine
import CoralSwap.Router.Commit
import CoralSwap.Router.Liquidity

/-!
# Runs of the router

The calls that configure the router, and every call it answers as one machine. Between the router's
calls, the contracts it uses may change in any way.
-/

namespace CoralSwap.Router

open Host Host.Call

variable {Address χ : Type} [LinearOrder Address] {router : Address}

omit [LinearOrder Address] in
/-- Neither a guard against a second call nor an authorisation. -/
def initializeRouter (storage : RouterStorage Address) (factory : Address) (hubs : List Address) :
    RouterStorage Address :=
  { storage with factory := some factory, hubs }

omit [LinearOrder Address] in
def setHubs (storage : RouterStorage Address) (hubs : List Address) : RouterStorage Address :=
  { storage with hubs }

omit [LinearOrder Address] in
def requireGovernance (env : RouterEnv router χ) (w : RouterWorld Address χ) :
    Call RouterError Unit := do
  let factory ← w.storage.getFactory
  let setter ← orTrap (env.chain.feeToSetter w.rest factory)
  let governance ← okOr setter .internalError
  require (env.auth governance = true)

omit [LinearOrder Address] in
def sweep (env : RouterEnv router χ) (w : RouterWorld Address χ) (token recipient : Address) :
    Call RouterError (RouterWorld Address χ × ℤ) := do
  requireGovernance env w
  let amount ← orTrap (env.chain.balance w.rest token router)
  failIf (amount ≤ 0) .zeroAmount
  let rest ← orTrap (env.chain.transfer w.rest token router recipient amount)
  pure ({ w with rest }, amount)

omit [LinearOrder Address] in
def setCommitConfig (env : RouterEnv router χ) (w : RouterWorld Address χ)
    (maxCommits expiryLedgers : ℕ) : Call RouterError (RouterWorld Address χ) := do
  requireGovernance env w
  failIf (maxCommits = 0 ∨ maxCommitsHardCap < maxCommits ∨ expiryLedgers = 0 ∨
    commitExpiryHardCap < expiryLedgers) .invalidCommitConfig
  pure { w with storage := { w.storage with commitConfig := ⟨maxCommits, expiryLedgers⟩ } }

/-- The calls of a run: the router's entry points, and what happens elsewhere in between. -/
inductive Op (Address χ : Type) where
  | initializeRouter (factory : Address) (hubs : List Address)
  | setHubs (hubs : List Address)
  | sweep (token recipient : Address)
  | getBestPath (tokenIn tokenOut : Address) (amountIn : ℤ)
  | swapExactTokensMultiHop (path : List Address) (amountIn amountOutMin : ℤ) (dst : Address)
      (deadline : ℕ) (deadlineLedger : Option ℕ)
  | swapExactTokensForTokens (amountIn amountOutMin : ℤ) (path : List Address) (dst : Address)
      (deadline : ℕ) (deadlineLedger : Option ℕ)
  | swapTokensForExactTokens (amountOut amountInMax : ℤ) (path : List Address) (dst : Address)
      (deadline : ℕ) (deadlineLedger : Option ℕ)
  | addLiquidity (tokenA tokenB : Address)
      (amountADesired amountBDesired amountAMin amountBMin : ℤ) (dst : Address) (deadline : ℕ)
      (deadlineLedger : Option ℕ)
  | removeLiquidity (tokenA tokenB : Address) (liquidity amountAMin amountBMin : ℤ) (dst : Address)
      (deadline : ℕ) (deadlineLedger : Option ℕ)
  | commitSwap (sender : Address) (hash : Bytes32)
  | setCommitConfig (maxCommits expiryLedgers : ℕ)
  | pruneExpiredCommit (sender : Address)
  | revealSwap (sender tokenIn tokenOut : Address) (amountIn minOut : ℤ) (nonce : ℕ)
      (salt : Bytes32)
  | elsewhere (rest : χ)

abbrev RouterCall {Address : Type} (router : Address) (χ : Type) := RouterEnv router χ × Op Address χ

def exec (w : RouterWorld Address χ) :
    RouterCall router χ → Call RouterError (RouterWorld Address χ)
  | (_, .initializeRouter factory hubs) =>
      pure { w with storage := initializeRouter w.storage factory hubs }
  | (_, .setHubs hubs) => pure { w with storage := setHubs w.storage hubs }
  | (env, .sweep token recipient) => do return (← sweep env w token recipient).1
  | (env, .getBestPath tokenIn tokenOut amountIn) => do
      let _ ← getBestPath env w.rest w.storage tokenIn tokenOut amountIn
      pure w
  | (env, .swapExactTokensMultiHop path amountIn amountOutMin dst deadline deadlineLedger) => do
      let (rest, _) ← swapExactTokensMultiHop env w.rest w.storage path amountIn amountOutMin dst
        deadline deadlineLedger
      pure { w with rest }
  | (env, .swapExactTokensForTokens amountIn amountOutMin path dst deadline deadlineLedger) => do
      let (rest, _) ← swapExactTokensForTokens env w.rest w.storage amountIn amountOutMin path dst
        deadline deadlineLedger
      pure { w with rest }
  | (env, .swapTokensForExactTokens amountOut amountInMax path dst deadline deadlineLedger) => do
      let (rest, _) ← swapTokensForExactTokens env w.rest w.storage amountOut amountInMax path dst
        deadline deadlineLedger
      pure { w with rest }
  | (env, .addLiquidity tokenA tokenB amountADesired amountBDesired amountAMin amountBMin dst
      deadline deadlineLedger) => do
      let (rest, _) ← addLiquidity env w.rest w.storage tokenA tokenB amountADesired amountBDesired
        amountAMin amountBMin dst deadline deadlineLedger
      pure { w with rest }
  | (env, .removeLiquidity tokenA tokenB liquidity amountAMin amountBMin dst deadline
      deadlineLedger) => do
      let (rest, _) ← removeLiquidity env w.rest w.storage tokenA tokenB liquidity amountAMin
        amountBMin dst deadline deadlineLedger
      pure { w with rest }
  | (env, .commitSwap sender hash) => do
      let storage ← commitSwap env w.storage sender hash
      pure { w with storage }
  | (env, .setCommitConfig maxCommits expiryLedgers) => setCommitConfig env w maxCommits expiryLedgers
  | (env, .pruneExpiredCommit sender) =>
      pure { w with storage := (pruneExpiredCommit env w.storage sender).1 }
  | (env, .revealSwap sender tokenIn tokenOut amountIn minOut nonce salt) => do
      let (storage, rest, _) ← revealSwap env w.storage w.rest sender tokenIn tokenOut amountIn minOut
        nonce salt
      pure { storage, rest }
  | (_, .elsewhere rest) => pure { w with rest }

def machine (router : Address) (χ : Type) :
    Machine (RouterWorld Address χ) (RouterCall router χ) RouterError :=
  ⟨exec⟩

end CoralSwap.Router
