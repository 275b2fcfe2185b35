import CoralSwap.Pair.FlashLoan
import CoralSwap.Pair.SingleSided

/-!
# Runs of a pair

Every call the pair answers, as one machine whose steps are interleaved with whatever third parties
do to the tokens and the LP token in between.
-/

namespace CoralSwap

open Host Host.Call

variable {Address : Type} [DecidableEq Address] {contract : Address}

def FeeState.initial : FeeState where
  volAccumulator := 0
  emaAlpha := 10000000000000
  baselineFeeBps := 30
  minFeeBps := 10
  maxFeeBps := 100
  rampUpMultiplier := 2
  cooldownDivisor := 2
  lastFeeUpdate := 0
  decayThresholdBlocks := 100
  staleThreshold := 100
  minFeeBps_le_maxFeeBps := by decide

omit [DecidableEq Address] in
/-- A pair or LP token of the same factory; a failed query counts as neither. -/
def Env.isKnownContract (env : Env contract) (token : Address) : Bool :=
  (env.factory.isPair token).getD false || (env.factory.isLpToken token).getD false

def initializePair (env : Env contract) (w : World Address)
    (factory tokenA tokenB lpToken : Address) : Call PairError (World Address) := do
  failIf (w.pair.pairState.isSome = true) .alreadyInitialized
  failIf (tokenA = tokenB) .invalidInput
  failIf (tokenA = factory ∨ tokenB = factory ∨ tokenA = contract ∨ tokenB = contract ∨
    tokenA = lpToken ∨ tokenB = lpToken) .invalidInput
  failIf (env.isKnownContract tokenA = true ∨ env.isKnownContract tokenB = true) .invalidInput
  let state : PairStorage Address :=
    { factory, tokenA, tokenB, lpToken
      reserveA := 0, reserveB := 0, blockTimestampLast := env.timestamp, kLast := 0 }
  let stored := (w.setPairState state).setFeeState FeeState.initial
  pure stored.releaseLock

def setStaleThreshold (env : Env contract) (w : World Address) (newThreshold : ℕ) :
    Call PairError (World Address) := do
  let pair ← w.getPairState
  let feeState ← w.getFeeState
  require (env.auth pair.factory = true)
  failIf (newThreshold = 0 ∨ 100000 < newThreshold) .invalidStaleThreshold
  pure (w.setFeeState { feeState with staleThreshold := newThreshold })

def setLpTokenPaused (env : Env contract) (w : World Address) (paused : Bool) :
    Call PairError (World Address) := do
  let pair ← w.getPairState
  require (env.auth pair.factory = true)
  match w.lp.setPaused env.lpEnv paused with
  | .ok lp => pure { w with lp, pair := { w.pair with lpTokenPaused := paused } }
  | .error (.error _) => fail .lpTokenRejected
  | .error .trap => fail .lpTokenUnavailable

def setFrozen (env : Env contract) (w : World Address) (frozen : Bool) :
    Call PairError (World Address) := do
  let pair ← w.getPairState
  require (env.auth pair.factory = true)
  pure { w with pair := { w.pair with frozen } }

/-- The calls of a run: the pair's entry points, and third-party actions between them. -/
inductive Op (Address : Type) where
  | initializePair (factory tokenA tokenB lpToken : Address)
  | mint (dst : Address)
  | mintWithOneToken (dst tokenIn : Address) (amount minLpOut : ℤ)
  | depositLp (src : Address) (amount : ℤ)
  | burn (dst : Address)
  | burnSingleSide (dst : Address) (lpAmount : ℤ) (preferredToken : Address) (minAmountOut : ℤ)
  | swap (amountAOut amountBOut : ℤ) (dst : Address)
  | flashLoan (receiver : Address) (amountA amountB : ℤ) (dataLen : ℕ) (callback : Callback Address)
  | sync
  | setStaleThreshold (newThreshold : ℕ)
  | setLpTokenPaused (paused : Bool)
  | setFrozen (frozen : Bool)
  | external (action : External Address)

abbrev PairCall {Address : Type} (contract : Address) := Env contract × Op Address

def exec (w : World Address) : PairCall contract → Call PairError (World Address)
  | (env, .initializePair factory tokenA tokenB lpToken) =>
      initializePair env w factory tokenA tokenB lpToken
  | (env, .mint dst) => do return (← mint env w dst).1
  | (env, .mintWithOneToken dst tokenIn amount minLpOut) => do
      return (← mintWithOneToken env w dst tokenIn amount minLpOut).1
  | (env, .depositLp src amount) => depositLp env w src amount
  | (env, .burn dst) => do return (← burn env w dst).1
  | (env, .burnSingleSide dst lpAmount preferredToken minAmountOut) => do
      return (← burnSingleSide env w dst lpAmount preferredToken minAmountOut).1
  | (env, .swap amountAOut amountBOut dst) => do
      return (← swap env w amountAOut amountBOut dst).1
  | (env, .flashLoan receiver amountA amountB dataLen callback) =>
      flashLoan env w receiver amountA amountB dataLen callback
  | (env, .sync) => sync env w
  | (env, .setStaleThreshold newThreshold) => setStaleThreshold env w newThreshold
  | (env, .setLpTokenPaused paused) => setLpTokenPaused env w paused
  | (env, .setFrozen frozen) => setFrozen env w frozen
  | (_, .external action) => action.exec contract w

def pairMachine (contract : Address) :
    Machine (World Address) (PairCall contract) PairError :=
  ⟨exec⟩

/-- A pair as it is deployed: nothing stored, and an LP token it administers. The two tokens may
have any holders. -/
def World.deployed (contract : Address) (tokenA tokenB : Token Address) : World Address where
  pair :=
    { pairState := none, feeState := none, locked := false, lpTokenPaused := false, frozen := false
      pendingLp := fun _ => 0, pendingLpTotal := 0, protocolFeeA := 0, protocolFeeB := 0 }
  tokenA := tokenA
  tokenB := tokenB
  lp := LpToken.fresh contract

def Reachable (contract : Address) (w : World Address) : Prop :=
  ∃ (tokenA tokenB : Token Address) (calls : List (PairCall contract)),
    w = (pairMachine contract).run (World.deployed contract tokenA tokenB) calls

theorem Reachable.induction {Inv : World Address → Prop}
    (hdeployed : ∀ tokenA tokenB, Inv (World.deployed contract tokenA tokenB))
    (hstep : ∀ w (call : PairCall contract) w', Inv w → exec w call = .ok w' → Inv w')
    {w : World Address} (hreach : Reachable contract w) : Inv w := by
  obtain ⟨tokenA, tokenB, calls, rfl⟩ := hreach
  exact Machine.run_invariant_all hstep (hdeployed tokenA tokenB) calls

/-! ### Opening a pool -/

/-- Everyone but the pair signs, the factory collects nothing, and knows no other pair. -/
def Env.quiet (contract : Address) (sequence timestamp : ℕ) (feeOverride : Option ℕ) :
    Env contract where
  sequence := sequence
  timestamp := timestamp
  auth := fun who => who ≠ contract
  crypto := Crypto.rejecting Address
  factory :=
    { getPairFeeOverride := some feeOverride
      getFeeTo := some none
      getFeeBps := some 0
      isPair := fun _ => some false
      isLpToken := fun _ => some false }
  auth_contract := by simp

def depositCalls (env : Env contract) (provider : Address) (amountA amountB : ℤ) :
    List (PairCall contract) :=
  [(env, .external (.transferA provider contract amountA)),
    (env, .external (.transferB provider contract amountB)),
    (env, .mint provider)]

def openingCalls (env : Env contract) (factory tokenA tokenB lpToken provider : Address)
    (amountA amountB : ℤ) : List (PairCall contract) :=
  (env, .initializePair factory tokenA tokenB lpToken) :: depositCalls env provider amountA amountB

/-- A pool at address 0 that address 1, who holds both tokens, has opened with a first deposit. -/
def openedPool (env : Env 0) (amountA amountB : ℤ) : World ℕ :=
  (pairMachine 0).run
    (World.deployed 0 (.issued 1 1000000000000 (by decide)) (.issued 1 1000000000000 (by decide)))
    (openingCalls env 9 10 11 12 1 amountA amountB)

theorem openedPool_reachable (env : Env 0) (amountA amountB : ℤ) :
    Reachable 0 (openedPool env amountA amountB) :=
  ⟨_, _, _, rfl⟩

end CoralSwap
