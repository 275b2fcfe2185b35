import CoralSwap.Factory.Governance
import CoralSwap.Lib.Token
import CoralSwap.LpToken

/-!
# The factory's registry

All storage entries of the factory: its record, and beside it which pair there is for two tokens, the list of the
pairs in the order of their creation and its length, the membership and freeze flags, the protocol fees collected,
and the upgrade that waits for its timelock. An absent entry has the default its reader uses.
-/

namespace CoralSwap

open Host Host.Call

structure PendingUpgrade where
  newWasmHash : Bytes32
  proposedAtLedger : ℕ
  deriving DecidableEq, Repr

structure FactoryContract (Address : Type) extends Factory Address where
  pairEntry : Address → Address → Option Address
  pairList : List Address
  totalPairs : ℕ
  isPairEntry : Address → Option Bool
  isLpTokenEntry : Address → Option Bool
  pairFrozen : Address → Bool
  protocolFeeBalance : Address → ℤ
  pendingUpgrade : Option PendingUpgrade
  /-- The code the last executed upgrade installed. -/
  installedWasm : Option Bytes32

/-- What a top-level call sees of the host: who authorised it, the clock, the code uploaded so far, the ledgers of
the tokens, and which contracts outside the protocol accept a call made to them. -/
structure ProtocolEnv (Address : Type) extends FactoryEnv Address where
  sequence : ℕ
  timestamp : ℕ
  uploaded : Bytes32 → Bool
  token : Address → Token Address
  accepts : Address → Bool

namespace FactoryContract

variable {Address : Type} [DecidableEq Address]

def deployed : FactoryContract Address where
  toFactory := Factory.deployed
  pairEntry := fun _ _ => none
  pairList := []
  totalPairs := 0
  isPairEntry := fun _ => none
  isLpTokenEntry := fun _ => none
  pairFrozen := fun _ => false
  protocolFeeBalance := fun _ => 0
  pendingUpgrade := none
  installedWasm := none

variable (env : ProtocolEnv Address) (f : FactoryContract Address)

def setStorage (storage : FactoryStorage Address) : FactoryContract Address :=
  { f with storage := some storage }

def getPair (tokenA tokenB : Address) : Option Address := f.pairEntry tokenA tokenB

def setPair (tokenA tokenB pair : Address) : FactoryContract Address :=
  { f with
    pairEntry := Function.update f.pairEntry tokenA
      (Function.update (f.pairEntry tokenA) tokenB (some pair)) }

/-- The membership flag, or a search of the list where there is none. -/
def isPair (pair : Address) : Bool :=
  match f.isPairEntry pair with
  | some registered => registered
  | none => decide (pair ∈ f.pairList)

def isLpToken (token : Address) : Bool := (f.isLpTokenEntry token).getD false

def isPairFrozen (pair : Address) : Bool := f.pairFrozen pair

def setPairFrozen (pair : Address) (frozen : Bool) : FactoryContract Address :=
  { f with pairFrozen := Function.update f.pairFrozen pair frozen }

def getPairCount : ℕ := (f.storage.map FactoryStorage.pairCount).getD 0

def isPaused : Bool := (f.storage.map FactoryStorage.paused).getD false

def feeToSetter : Option Address := f.storage.map FactoryStorage.feeToSetter

def getProtocolVersion : Call FactoryError ℕ := do
  let storage ← f.getStorage
  pure storage.protocolVersion

/-- `for i in first..last { result.push_back(list.get(i).unwrap()) }` -/
def collectPairs (list : List Address) (first last : ℕ) : Call FactoryError (List Address) :=
  (List.range' first (last - first)).foldlM (fun result i => do
    let pair ← orTrap list[i]?
    pure (result ++ [pair])) []

def getAllPairs (offset limit : ℕ) : Call FactoryError (List Address) := do
  failIf (50 < limit) .limitTooHigh
  let total := f.pairList.length
  let last ← orTrap (u32.checkedAdd offset limit)
  if offset < total then collectPairs f.pairList offset (min last.toNat total) else pure []

/-- Step 4 of `create_pair`: the pair under both orders of its tokens, the flags of the pair and of its LP token,
the counter, the list, and the total. -/
def storePair (storage : FactoryStorage Address) (pairCount : ℕ) (token0 token1 pair lpToken : Address) :
    FactoryContract Address :=
  let keyed := (f.setPair token0 token1 pair).setPair token1 token0 pair
  let pairList := f.pairList ++ [pair]
  { keyed with
    isPairEntry := Function.update f.isPairEntry pair (some true)
    isLpTokenEntry := Function.update f.isLpTokenEntry lpToken (some true)
    storage := some { storage with pairCount }
    pairList
    totalPairs := pairList.length }

def depositProtocolFee (pair token : Address) (amount : ℤ) :
    Call FactoryError (FactoryContract Address) := do
  require (env.auth pair = true)
  let storage ← f.getStorage
  failIf (storage.feeTo = none ∨ storage.feeBps = 0) .invalidFeeRecipient
  failIf (f.isPair pair = false) .unauthorized
  failIf (amount ≤ 0) .unauthorized
  let balance ← orTrap (i128.checkedAdd (f.protocolFeeBalance token) amount)
  pure { f with protocolFeeBalance := Function.update f.protocolFeeBalance token balance }

omit [DecidableEq Address] in
def getProtocolFeeBalance (token : Address) : ℤ := f.protocolFeeBalance token

/-- The heartbeat: nothing but an event. -/
def sync : Call FactoryError (FactoryContract Address) := do
  let _ ← f.getStorage
  pure f

/-! ### Upgrades -/

def upgradeDelayLedgers : ℕ := 51840

def proposeUpgrade (signers : List Address) (newWasmHash : Bytes32) :
    Call FactoryError (FactoryContract Address) := do
  let storage ← f.getStorage
  Factory.verifyMultisig env.toFactoryEnv storage.signers signers
  failIf (f.pendingUpgrade.isSome = true) .upgradeAlreadyPending
  pure { f with pendingUpgrade := some { newWasmHash, proposedAtLedger := env.sequence } }

/-- Anyone may execute. The new code runs from the next call on. -/
def executeUpgrade : Call FactoryError (FactoryContract Address) := do
  let proposal ← okOr f.pendingUpgrade .noPendingUpgrade
  let elapsed := env.sequence - proposal.proposedAtLedger
  failIf (elapsed < upgradeDelayLedgers) .upgradeTimelockNotExpired
  require (env.uploaded proposal.newWasmHash = true)
  let upgraded : FactoryContract Address :=
    { f with installedWasm := some proposal.newWasmHash, pendingUpgrade := none }
  match f.storage with
  | none => pure upgraded
  | some storage => do
      let protocolVersion ← orTrap (u32.checkedAdd storage.protocolVersion 1)
      pure (upgraded.setStorage { storage with protocolVersion := protocolVersion.toNat })

def cancelUpgrade (signers : List Address) : Call FactoryError (FactoryContract Address) := do
  let storage ← f.getStorage
  Factory.verifyMultisig env.toFactoryEnv storage.signers signers
  failIf (f.pendingUpgrade = none) .noPendingUpgrade
  pure { f with pendingUpgrade := none }

end FactoryContract

end CoralSwap
