import CoralSwap.Lib.Journal
import CoralSwap.Pair.Machine

/-!
# The events of a pair

A swap publishes the fee it forwarded before the swap itself, and so does the swap inside a one-token mint,
which publishes its own event last. Staging LP and the factory's flags publish nothing, and neither does an
empty flash loan.
-/

namespace CoralSwap

open Host Host.Call

variable {Address : Type} {contract : Address}

inductive PairEvent (Address : Type) where
  | swap (sender tokenA tokenB : Address) (amounts : SwapEvent) (dst : Address)
  | mint (sender : Address) (amountA amountB : ℤ)
  | burn (sender : Address) (amountA amountB : ℤ) (dst : Address)
  | sync (reserveA reserveB : ℤ)
  /-- `burn_ss` -/
  | burnSingleSide (dst : Address) (lpAmount : ℤ) (preferredToken : Address) (totalOut : ℤ)
  /-- `mint_1t` -/
  | mintSingleSide (sender tokenIn : Address) (amountIn swapAmount lpMinted : ℤ)
  /-- `stl_thrsh` -/
  | staleThresholdUpdated (newThreshold : ℕ)
  | protocolFeeCollected (feeTo : Address) (amountA amountB : ℤ) (feeBps : ℕ)
  | flashLoan (receiver : Address) (amountA amountB feeA feeB : ℤ) (feeBps : ℕ)
  deriving DecidableEq, Repr

namespace PairEvent

/-- What a swap forwarded of its two inputs, where it forwarded anything. -/
def ofProtocolFee (env : Env contract) (event : SwapEvent) : List (PairEvent Address) :=
  let feeA := env.protocolFee event.amountAIn event.feeBps
  let feeB := env.protocolFee event.amountBIn event.feeBps
  match env.protocolFeeTo with
  | some feeTo => if 0 < feeA ∨ 0 < feeB then [.protocolFeeCollected feeTo feeA feeB event.feeBps] else []
  | none => []

/-- The events of a swap. The recipient is named as the sender too. -/
def ofSwap (env : Env contract) (state : PairStorage Address) (dst : Address) (event : SwapEvent) :
    List (PairEvent Address) :=
  ofProtocolFee env event ++ [.swap dst state.tokenA state.tokenB event dst]

def ofMint (w : World Address) (state : PairStorage Address) (contract dst : Address) : PairEvent Address :=
  .mint dst (w.tokenA.balance contract - state.reserveA) (w.tokenB.balance contract - state.reserveB)

/-- The loan of nothing returns before it publishes. -/
def ofFlashLoan (fs : Option FeeState) (receiver : Address) (amountA amountB : ℤ) : List (PairEvent Address) :=
  if amountA = 0 ∧ amountB = 0 then []
  else
    let poolFeeBps := (fs.map FeeState.baselineFeeBps).getD flashFeeFloorBps
    match flashFee amountA poolFeeBps, flashFee amountB poolFeeBps with
    | .ok feeA, .ok feeB => [.flashLoan receiver amountA amountB feeA feeB poolFeeBps]
    -- no loan is granted without both fees
    | _, _ => []

end PairEvent

variable [DecidableEq Address]

/-- What the swap inside a one-token mint reports. -/
def internalSwap (env : Env contract) (w : World Address) (dst tokenIn : Address) (amount swapOut : ℤ) :
    Call PairError SwapEvent := do
  let held ← w.acquireLock
  let state ← held.getPairState
  let tokenInIsA ← tokenSide state tokenIn
  let pulled ← moveToken held tokenInIsA dst contract amount
  let (_, event) ← swapIntoPair env pulled tokenInIsA swapOut
  pure event

namespace PairEvent

/-- The events of a one-token mint: those of its internal swap, into the pair itself, and its own. -/
def ofMintSingleSide (env : Env contract) (w : World Address) (state : PairStorage Address)
    (dst tokenIn : Address) (amount : ℤ) (event : MintSingleSideEvent) : List (PairEvent Address) :=
  match internalSwap env w dst tokenIn amount event.swapOut with
  | .ok swapped =>
      ofSwap env state contract swapped ++ [.mintSingleSide dst tokenIn amount event.swapIn event.lpMinted]
  | .error _ => []

end PairEvent

omit [DecidableEq Address] in
/-- Events that name what is stored. A pair that accepts a call that publishes them is initialised. -/
def World.publishes (w : World Address) (events : PairStorage Address → List (PairEvent Address)) :
    List (PairEvent Address) :=
  match w.pair.pairState with
  | some state => events state
  | none => []

def publishPair (w : World Address) :
    PairCall contract → Call PairError (World Address × List (PairEvent Address))
  | (env, .mint dst) =>
      (mint env w dst).reporting fun _ => w.publishes fun state => [.ofMint w state contract dst]
  | (env, .mintWithOneToken dst tokenIn amount minLpOut) =>
      (mintWithOneToken env w dst tokenIn amount minLpOut).reporting fun event =>
        w.publishes fun state => PairEvent.ofMintSingleSide env w state dst tokenIn amount event
  | (env, .burn dst) =>
      (burn env w dst).reporting fun (amountA, amountB) => [.burn dst amountA amountB dst]
  | (env, .burnSingleSide dst lpAmount preferredToken minAmountOut) =>
      (burnSingleSide env w dst lpAmount preferredToken minAmountOut).reporting fun totalOut =>
        [.burnSingleSide dst lpAmount preferredToken totalOut]
  | (env, .swap amountAOut amountBOut dst) =>
      (swap env w amountAOut amountBOut dst).reporting fun event =>
        w.publishes fun state => PairEvent.ofSwap env state dst event
  | (env, .flashLoan receiver amountA amountB dataLen callback) =>
      (flashLoan env w receiver amountA amountB dataLen callback).publishing
        (PairEvent.ofFlashLoan w.pair.feeState receiver amountA amountB)
  | (env, .sync) =>
      (sync env w).publishing [.sync (w.tokenA.balance contract) (w.tokenB.balance contract)]
  | (env, .setStaleThreshold newThreshold) =>
      (setStaleThreshold env w newThreshold).publishing [.staleThresholdUpdated newThreshold]
  -- these publish nothing under the pair's address
  | (env, .initializePair factory tokenA tokenB lpToken) =>
      (initializePair env w factory tokenA tokenB lpToken).publishing []
  | (env, .depositLp src amount) => (depositLp env w src amount).publishing []
  | (env, .setLpTokenPaused paused) => (setLpTokenPaused env w paused).publishing []
  | (env, .setFrozen frozen) => (setFrozen env w frozen).publishing []
  | (_, .external action) => (action.exec contract w).publishing []

/-- The log of a pair. -/
def pairJournal (contract : Address) : Journal (pairMachine contract) (PairEvent Address) where
  publish := publishPair
  exec_eq := by
    rintro w ⟨env, op⟩
    cases op <;> simp [publishPair, pairMachine, exec]

end CoralSwap
