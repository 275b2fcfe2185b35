import CoralSwap.Pair.Machine
import CoralSwap.Router.Machine
import CoralSwap.Router.Network

/-!
# The whole exchange

The router, the pairs and the tokens they share, as one machine. Users call the router, the pairs and the LP tokens
and transfer tokens, in any order, and the receiver of a flash loan does any of these while the pair waits for it.
A contract signs nothing, and the host refuses a second call of a pair that is already running.
-/

namespace CoralSwap

open Host Host.Call

/-- A flash loan inside a larger state `σ`, of which the pair sees its own world: the receiver acts on all of it. -/
def flashLoanVia {Address σ : Type} [DecidableEq Address] (view : σ → World Address) (put : σ → World Address → σ)
    (callback : σ → σ) (s : σ) (contract receiver : Address) (amountA amountB : ℤ) (dataLen : ℕ)
    (succeeds : Bool) : Call PairError σ := do
  (view s).ensureNotFrozen
  failIf (maxPayloadSize < dataLen) .flashPayloadTooLarge
  failIf (amountA < 0 ∨ amountB < 0) .insufficientInputAmount
  let state ← (view s).getPairState
  if amountA = 0 ∧ amountB = 0 then pure s
  else do
    failIf (state.reserveA < amountA ∨ state.reserveB < amountB) .insufficientLiquidity
    let preK ← okOr (i128.checkedMul state.reserveA state.reserveB) .overflow
    let held ← (view s).acquireLock
    let poolFeeBps := (held.pair.feeState.map FeeState.baselineFeeBps).getD flashFeeFloorBps
    let feeA ← flashFee amountA poolFeeBps
    let feeB ← flashFee amountB poolFeeBps
    let tokenA ← lend held.tokenA contract receiver amountA
    let tokenB ← lend held.tokenB contract receiver amountB
    let called := callback (put s { held with tokenA, tokenB })
    failIf (succeeds = false) .flashCallbackFailed
    let newBalanceA := (view called).tokenA.balance contract
    let newBalanceB := (view called).tokenB.balance contract
    checkRepaid amountA state.reserveA feeA newBalanceA
    checkRepaid amountB state.reserveB feeB newBalanceB
    let postK ← okOr (i128.checkedMul newBalanceA newBalanceB) .overflow
    failIf (postK < preK) .invalidK
    let repaid := (view called).setPairState
      { state with reserveA := newBalanceA, reserveB := newBalanceB, kLast := postK }
    pure (put called repaid.releaseLock)

/-- The flash loan of a pair on its own is the one whose larger state is the pair's world. -/
theorem flashLoan_eq_via {Address : Type} [DecidableEq Address] {contract : Address} (env : Env contract)
    (w : World Address) (receiver : Address) (amountA amountB : ℤ) (dataLen : ℕ) (callback : Callback Address) :
    flashLoan env w receiver amountA amountB dataLen callback =
      flashLoanVia id (fun _ w => w) (fun w => (externalMachine contract).run w callback.actions) w contract
        receiver amountA amountB dataLen callback.succeeds := rfl

namespace System

variable {Address : Type} [LinearOrder Address]

/-- What a transaction sees of the host, and who has signed it. -/
structure SystemEnv (Address : Type) where
  sequence : ℕ
  timestamp : ℕ
  auth : Address → Bool
  crypto : Crypto Address
  factory : (pair : Address) → FactoryAnswers Address

inductive Action (Address : Type) where
  | router (op : Router.Op Address (Network Address))
  | pair (pair : Address) (op : CoralSwap.Op Address)
  | flashLoan (pair receiver : Address) (amountA amountB : ℤ) (dataLen : ℕ) (actions : List (Action Address))
      (succeeds : Bool)
  | lpToken (pair : Address) (op : LpToken.Op Address)
  | transfer (token src dst : Address) (amount : ℤ)

abbrev SystemWorld (Address : Type) := RouterWorld Address (Network Address)

variable (router : Address)

def isPool (s : SystemWorld Address) (who : Address) : Bool := (s.rest.pair who).pairState.isSome

def isContract (s : SystemWorld Address) (who : Address) : Bool := who = router || isPool s who

variable (env : SystemEnv Address) (s : SystemWorld Address)

/-- The host lets a contract authorise only the calls it makes itself. -/
def signs (who : Address) : Bool := env.auth who && !isContract router s who

def pairEnv (pair : Address) : Env pair where
  sequence := env.sequence
  timestamp := env.timestamp
  auth := fun who => decide (who ≠ pair) && signs router env s who
  crypto := env.crypto
  factory := env.factory pair
  auth_contract := by simp

def routerEnv : RouterEnv router (Network Address) where
  sequence := env.sequence
  timestamp := env.timestamp
  auth := signs router env s
  crypto := env.crypto
  chain := networkChain (pairEnv router env s)

def lpEnv : LpEnv Address where
  sequence := env.sequence
  auth := signs router env s
  crypto := env.crypto

omit [LinearOrder Address] in
/-- The entry points of a pair other than its flash loans. -/
def isEntry : CoralSwap.Op Address → Bool
  | .external _ => false
  | .flashLoan .. => false
  | _ => true

/-- The state in which a pair has left its world. -/
def settle (pair : Address) (state : PairStorage Address) (w : World Address) : SystemWorld Address :=
  { s with rest := s.rest.settle pair state w }

mutual

/-- One action, while the pairs `running` wait for the receivers of their flash loans. -/
def exec (running : List Address) (s : SystemWorld Address) :
    Action Address → Call RouterError (SystemWorld Address)
  -- the state of the other contracts changes by the other actions alone
  | .router (.elsewhere _) => trap
  | .router op => Router.exec s (routerEnv router env s, op)
  | .pair pair op => do
      require (pair ∉ running)
      require (isEntry op = true)
      let (rest, _) ← orTrap (s.rest.callPair pair fun w => do
        let w' ← CoralSwap.exec w (pairEnv router env s pair, op)
        pure (w', ()))
      pure { s with rest }
  | .flashLoan pair receiver amountA amountB dataLen actions succeeds => do
      require (pair ∉ running)
      let state ← orTrap (s.rest.pair pair).pairState
      orTrap (flashLoanVia (fun s => s.rest.world pair state) (fun s w => settle s pair state w)
        (fun s => execAll (pair :: running) s actions) s pair receiver amountA amountB dataLen succeeds).toOption
  | .lpToken pair op => do
      require (isPool s pair = true)
      let lp ← orTrap ((s.rest.lp pair).exec (lpEnv router env s, op)).toOption
      pure { s with rest := { s.rest with lp := Function.update s.rest.lp pair lp } }
  | .transfer token src dst amount => do
      require (signs router env s src = true)
      let rest ← orTrap (s.rest.transfer token src dst amount)
      pure { s with rest }

/-- Actions one after the other; those that fail change nothing. -/
def execAll (running : List Address) (s : SystemWorld Address) : List (Action Address) → SystemWorld Address
  | [] => s
  | action :: rest => execAll running (commit (exec running s action) s) rest

end

end System

/-- The machine of the whole exchange, with the router at `router`. -/
def systemMachine {Address : Type} [LinearOrder Address] (router : Address) :
    Machine (System.SystemWorld Address) (System.SystemEnv Address × System.Action Address) RouterError :=
  ⟨fun s (env, action) => System.exec router env [] s action⟩

end CoralSwap
