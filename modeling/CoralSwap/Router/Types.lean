import CoralSwap.LpToken
import CoralSwap.Shared

/-!
# The router's world

The router keeps its configuration and the commits of its users. Everything else it reads or moves
belongs to other contracts: factories, pairs and tokens. They are a parameter, a state and the calls
the router makes into it, each of which may fail. The host refuses a call back into the router, so
none of these calls touches the router's own storage.
-/

namespace CoralSwap

open Host Host.Call

inductive RouterError where
  | expired
  | insufficientOutputAmount
  | excessiveInputAmount
  | invalidPath
  | pairNotFound
  | identicalTokens
  | zeroAmount
  | insufficientLiquidity
  | slippageExceeded
  | internalError
  | commitNotFound
  | commitRevealTooEarly
  | commitHashMismatch
  | nonceAlreadyUsed
  | dustAmount
  | commitExpired
  | tooManyCommits
  | invalidCommitConfig
  | invalidTokenOrder
  deriving DecidableEq, Repr

structure CommitEntry where
  hash : Bytes32
  ledger : ℕ
  deriving DecidableEq

structure RouterCommitConfig where
  maxCommits : ℕ
  expiryLedgers : ℕ
  deriving DecidableEq, Repr

def defaultCommitConfig : RouterCommitConfig where
  maxCommits := 32
  expiryLedgers := 1000

/-- The router's storage entries; an absent entry has the default its reader uses. -/
structure RouterStorage (Address : Type) where
  factory : Option Address
  hubs : List Address
  commit : Address → Option CommitEntry
  nonceUsed : Address → ℕ → Bool
  commitCount : ℕ
  commitConfig : RouterCommitConfig

def RouterStorage.deployed {Address : Type} : RouterStorage Address where
  factory := none
  hubs := []
  commit := fun _ => none
  nonceUsed := fun _ _ => false
  commitCount := 0
  commitConfig := defaultCommitConfig

/-- The calls the router makes to other contracts, whose state is `χ`. The contract called comes
first; a call that fails has no result. -/
structure Chain (Address χ : Type) where
  getPair : χ → Address → Address → Address → Option (Option Address)
  isPair : χ → Address → Address → Option Bool
  feeToSetter : χ → Address → Option (Option Address)
  getReserves : χ → Address → Option (ℤ × ℤ)
  getEffectiveFeeBps : χ → Address → Option (ℕ × Bool)
  swap : χ → Address → ℤ → ℤ → Address → Option χ
  mint : χ → Address → Address → Option (χ × ℤ)
  depositLp : χ → Address → Address → ℤ → Option χ
  burn : χ → Address → Address → Option (χ × ℤ × ℤ)
  transfer : χ → Address → Address → Address → ℤ → Option χ
  balance : χ → Address → Address → Option ℤ

structure RouterEnv {Address : Type} (router : Address) (χ : Type) where
  sequence : ℕ
  timestamp : ℕ
  auth : Address → Bool
  crypto : Crypto Address
  chain : Chain Address χ

structure RouterWorld (Address χ : Type) where
  storage : RouterStorage Address
  rest : χ

namespace RouterStorage

variable {Address : Type} (s : RouterStorage Address)

def getFactory : Call RouterError Address := okOr s.factory .pairNotFound

def setCommit [DecidableEq Address] (sender : Address) (entry : Option CommitEntry) :
    RouterStorage Address :=
  { s with commit := Function.update s.commit sender entry }

def setCommitCount (count : ℕ) : RouterStorage Address := { s with commitCount := count }

def setNonceUsed [DecidableEq Address] (sender : Address) (nonce : ℕ) : RouterStorage Address :=
  { s with
    nonceUsed := Function.update s.nonceUsed sender
      (Function.update (s.nonceUsed sender) nonce true) }

end RouterStorage

end CoralSwap
