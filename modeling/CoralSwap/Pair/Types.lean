import CoralSwap.Lib.Token
import CoralSwap.LpToken
import CoralSwap.Shared

/-!
# The pair's world

What an entry point of the pair reads and writes: the pair's own storage, the ledgers of its two
tokens, and its LP token. What it only reads (the ledger clock, who authorised the call, what the
factory answers) is the environment of the call.
-/

namespace CoralSwap

open Host Host.Call

inductive PairError where
  | alreadyInitialized
  | notInitialized
  | insufficientLiquidity
  | insufficientInputAmount
  | insufficientOutputAmount
  | invalidK
  | locked
  | flashLoanNotRepaid
  | flashPayloadTooLarge
  | contractPaused
  | overflow
  | zeroAddress
  | insufficientLiquidityMinted
  | insufficientLiquidityBurned
  | invalidInput
  | invalidEmaAlpha
  | feeOverflow
  | flashCallbackFailed
  | flashLoanFeeTooHigh
  | slippageExceeded
  | invalidStaleThreshold
  | dustAmount
  | lpTokenPaused
  | lpTokenUnavailable
  | lpTokenRejected
  | contractFrozen
  deriving DecidableEq, Repr

structure PairStorage (Address : Type) where
  factory : Address
  tokenA : Address
  tokenB : Address
  lpToken : Address
  reserveA : ℤ
  reserveB : ℤ
  blockTimestampLast : ℕ
  kLast : ℤ

/-- The dynamic fee. The bounds are ordered, as `initialize` sets them and nothing changes them, so
clamping a fee to them never panics. -/
structure FeeState where
  volAccumulator : ℤ
  emaAlpha : ℤ
  baselineFeeBps : ℕ
  minFeeBps : ℕ
  maxFeeBps : ℕ
  rampUpMultiplier : ℕ
  cooldownDivisor : ℕ
  lastFeeUpdate : ℕ
  decayThresholdBlocks : ℕ
  staleThreshold : ℕ
  minFeeBps_le_maxFeeBps : minFeeBps ≤ maxFeeBps
  deriving DecidableEq

/-- The pair's storage entries; an absent entry has the default its reader uses. -/
structure Pair (Address : Type) where
  pairState : Option (PairStorage Address)
  feeState : Option FeeState
  locked : Bool
  lpTokenPaused : Bool
  frozen : Bool
  pendingLp : Address → ℤ
  pendingLpTotal : ℤ
  protocolFeeA : ℤ
  protocolFeeB : ℤ

structure World (Address : Type) where
  pair : Pair Address
  tokenA : Token Address
  tokenB : Token Address
  lp : LpToken Address

/-- What the factory answers to the pair's `try_` calls; `none` is a call that failed. -/
structure FactoryAnswers (Address : Type) where
  getPairFeeOverride : Option (Option ℕ)
  getFeeTo : Option (Option Address)
  getFeeBps : Option ℕ
  isPair : Address → Option Bool
  isLpToken : Address → Option Bool

/-- The environment of a top-level call of the pair at address `contract`. The host lets a contract
authorise only the calls it makes itself, so the pair never signs a call made to it. -/
structure Env {Address : Type} (contract : Address) where
  sequence : ℕ
  timestamp : ℕ
  auth : Address → Bool
  crypto : Crypto Address
  factory : FactoryAnswers Address
  auth_contract : auth contract = false

variable {Address : Type} {contract : Address}

def Env.lpEnv [DecidableEq Address] (env : Env contract) : LpEnv Address where
  sequence := env.sequence
  auth := fun who => who = contract || env.auth who
  crypto := env.crypto

theorem Env.ne_contract_of_auth {env : Env contract} {who : Address} (hauth : env.auth who = true) :
    who ≠ contract := by
  rintro rfl
  rw [env.auth_contract] at hauth
  cases hauth

namespace World

variable (w : World Address)

def reserveA : ℤ := (w.pair.pairState.map PairStorage.reserveA).getD 0

def reserveB : ℤ := (w.pair.pairState.map PairStorage.reserveB).getD 0

def setPairState (state : PairStorage Address) : World Address :=
  { w with pair := { w.pair with pairState := some state } }

def setFeeState (state : FeeState) : World Address :=
  { w with pair := { w.pair with feeState := some state } }

def setPendingLp [DecidableEq Address] (who : Address) (amount : ℤ) : World Address :=
  { w with pair := { w.pair with pendingLp := Function.update w.pair.pendingLp who amount } }

def setPendingLpTotal (amount : ℤ) : World Address :=
  { w with pair := { w.pair with pendingLpTotal := amount } }

/-- `ReentrancyGuard::acquire`. The guard drops on every exit, and a failing call is rolled back,
so only a successful body is followed by `releaseLock`. -/
def acquireLock : Call PairError (World Address) := do
  failIf (w.pair.locked = true) .locked
  pure { w with pair := { w.pair with locked := true } }

def releaseLock : World Address := { w with pair := { w.pair with locked := false } }

def ensureNotFrozen : Call PairError Unit := failIf (w.pair.frozen = true) .contractFrozen

def ensureLpTokenNotPaused : Call PairError Unit :=
  failIf (w.pair.lpTokenPaused = true) .lpTokenPaused

def getPairState : Call PairError (PairStorage Address) := okOr w.pair.pairState .notInitialized

def getFeeState : Call PairError FeeState := okOr w.pair.feeState .notInitialized

variable {w}

@[simp]
theorem getPairState_eq_ok {state : PairStorage Address} :
    w.getPairState = .ok state ↔ w.pair.pairState = some state := by
  simp [getPairState]

@[simp]
theorem getFeeState_eq_ok {state : FeeState} :
    w.getFeeState = .ok state ↔ w.pair.feeState = some state := by
  simp [getFeeState]

@[simp]
theorem acquireLock_eq_ok {w' : World Address} :
    w.acquireLock = .ok w' ↔
      w.pair.locked = false ∧ { w with pair := { w.pair with locked := true } } = w' := by
  simp only [acquireLock, bind_eq_ok, failIf_eq_ok, pure_eq_ok, Bool.not_eq_true, exists_const]

@[simp]
theorem ensureNotFrozen_eq_ok {u : Unit} : w.ensureNotFrozen = .ok u ↔ w.pair.frozen = false := by
  simp [ensureNotFrozen]

@[simp]
theorem ensureLpTokenNotPaused_eq_ok {u : Unit} :
    w.ensureLpTokenNotPaused = .ok u ↔ w.pair.lpTokenPaused = false := by
  simp [ensureLpTokenNotPaused]

theorem reserveA_of_pairState {state : PairStorage Address}
    (hstate : w.pair.pairState = some state) : w.reserveA = state.reserveA := by
  simp [reserveA, hstate]

theorem reserveB_of_pairState {state : PairStorage Address}
    (hstate : w.pair.pairState = some state) : w.reserveB = state.reserveB := by
  simp [reserveB, hstate]

end World

end CoralSwap
