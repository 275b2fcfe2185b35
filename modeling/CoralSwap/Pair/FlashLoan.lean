import CoralSwap.Pair.DynamicFee

/-!
# Flash loans

A loan sends reserves to a receiver, calls it, and checks the balances it leaves. The host refuses
a second call of a contract that is already running, so what a receiver can do is act outside the
pair: transfer tokens that are not the pair's and call the LP token without the pair's signature, in
any number and order, and report success or failure.
-/

namespace CoralSwap

open Host Host.Call

variable {Address : Type} [DecidableEq Address] {contract : Address}

/-- What a third party can do outside the pair: transfer tokens of its own, or call the LP token. -/
inductive External (Address : Type) where
  | transferA (src dst : Address) (amount : ℤ)
  | transferB (src dst : Address) (amount : ℤ)
  | lpCall (env : LpEnv Address) (op : LpToken.Op Address)

namespace External

/-- One third-party action. The pair signs none of them. -/
def exec (contract : Address) (w : World Address) :
    External Address → Call PairError (World Address)
  | .transferA src dst amount => do
      require (src ≠ contract)
      let tokenA ← orTrap (w.tokenA.transfer src dst amount)
      pure { w with tokenA }
  | .transferB src dst amount => do
      require (src ≠ contract)
      let tokenB ← orTrap (w.tokenB.transfer src dst amount)
      pure { w with tokenB }
  | .lpCall env op => do
      require (env.auth contract = false)
      let lp ← nested (w.lp.exec (env, op))
      pure { w with lp }

end External

def externalMachine (contract : Address) :
    Machine (World Address) (External Address) PairError :=
  ⟨External.exec contract⟩

structure Callback (Address : Type) where
  actions : List (External Address)
  succeeds : Bool

def flashFeeFloorBps : ℕ := 5

def maxPayloadSize : ℕ := 256

def computeFlashFee (amount : ℤ) (currentFeeBps : ℕ) : Call PairError ℤ := do
  failIf (10000 < currentFeeBps) .flashLoanFeeTooHigh
  if currentFeeBps = 0 then pure 0
  else do
    let effectiveBps : ℕ := max currentFeeBps flashFeeFloorBps
    let product ← okOr (i128.checkedMul amount effectiveBps) .feeOverflow
    pure (max (product.tdiv 10000) 1)

/-- The fee on one side of a loan, zero for a side that is not borrowed. -/
def flashFee (amount : ℤ) (poolFeeBps : ℕ) : Call PairError ℤ :=
  if 0 < amount then computeFlashFee amount poolFeeBps else pure 0

def lend (t : Token Address) (contract receiver : Address) (amount : ℤ) :
    Call PairError (Token Address) :=
  if 0 < amount then orTrap (t.transfer contract receiver amount) else pure t

def checkRepaid (amount reserve fee newBalance : ℤ) : Call PairError Unit :=
  if 0 < amount then do
    let required ← okOr (i128.checkedAdd reserve fee) .overflow
    failIf (newBalance < required) .flashLoanNotRepaid
  else pure ()

def executeFlashLoan (_env : Env contract) (w : World Address) (receiver : Address)
    (amountA amountB : ℤ) (dataLen : ℕ) (callback : Callback Address) :
    Call PairError (World Address) := do
  failIf (maxPayloadSize < dataLen) .flashPayloadTooLarge
  failIf (amountA < 0 ∨ amountB < 0) .insufficientInputAmount
  let state ← w.getPairState
  if amountA = 0 ∧ amountB = 0 then pure w
  else do
    failIf (state.reserveA < amountA ∨ state.reserveB < amountB) .insufficientLiquidity
    let preK ← okOr (i128.checkedMul state.reserveA state.reserveB) .overflow
    let held ← w.acquireLock
    let poolFeeBps := (held.pair.feeState.map FeeState.baselineFeeBps).getD flashFeeFloorBps
    let feeA ← flashFee amountA poolFeeBps
    let feeB ← flashFee amountB poolFeeBps
    let tokenA ← lend held.tokenA contract receiver amountA
    let tokenB ← lend held.tokenB contract receiver amountB
    let called := (externalMachine contract).run { held with tokenA, tokenB } callback.actions
    failIf (callback.succeeds = false) .flashCallbackFailed
    let newBalanceA := called.tokenA.balance contract
    let newBalanceB := called.tokenB.balance contract
    checkRepaid amountA state.reserveA feeA newBalanceA
    checkRepaid amountB state.reserveB feeB newBalanceB
    let postK ← okOr (i128.checkedMul newBalanceA newBalanceB) .overflow
    failIf (postK < preK) .invalidK
    let repaid := called.setPairState
      { state with reserveA := newBalanceA, reserveB := newBalanceB, kLast := postK }
    pure repaid.releaseLock

def flashLoan (env : Env contract) (w : World Address) (receiver : Address)
    (amountA amountB : ℤ) (dataLen : ℕ) (callback : Callback Address) :
    Call PairError (World Address) := do
  w.ensureNotFrozen
  executeFlashLoan env w receiver amountA amountB dataLen callback

end CoralSwap
