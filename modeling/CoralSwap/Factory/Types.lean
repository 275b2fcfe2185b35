import CoralSwap.Lib.Machine
import CoralSwap.Shared

/-!
# The factory's storage

The factory's own record and the fee overrides it keeps for single pairs. An override is a `u32` of
its own storage entry, absent where the pair charges its dynamic fee.
-/

namespace CoralSwap

inductive FactoryError where
  | alreadyInitialized
  | notInitialized
  | pairExists
  | invalidSignerCount
  | insufficientSignatures
  | timelockNotExpired
  | protocolPaused
  | identicalTokens
  | upgradeTimelockNotExpired
  | unauthorized
  | upgradeAlreadyPending
  | noPendingUpgrade
  | limitTooHigh
  | feeTooHigh
  | invalidFeeRecipient
  | feeDisabled
  | duplicateSigner
  | pairFreezeFailed
  | pairNotFound
  deriving DecidableEq, Repr

structure FactoryStorage (Address : Type) where
  signers : List Address
  pairWasmHash : Bytes32
  concentratedPairWasmHash : Bytes32
  lpTokenWasmHash : Bytes32
  pairCount : ℕ
  protocolVersion : ℕ
  paused : Bool
  feeTo : Option Address
  feeToSetter : Address
  feeBps : ℕ

structure Factory (Address : Type) where
  storage : Option (FactoryStorage Address)
  pairFeeOverride : Address → Option ℕ

structure FactoryEnv (Address : Type) where
  auth : Address → Bool

namespace Factory

variable {Address : Type}

def deployed : Factory Address where
  storage := none
  pairFeeOverride := fun _ => none

def setStorage (f : Factory Address) (storage : FactoryStorage Address) : Factory Address :=
  { f with storage := some storage }

def setPairFeeOverride [DecidableEq Address] (f : Factory Address) (pair : Address) (feeBps : ℕ) :
    Factory Address :=
  { f with pairFeeOverride := Function.update f.pairFeeOverride pair (some feeBps) }

def removePairFeeOverride [DecidableEq Address] (f : Factory Address) (pair : Address) :
    Factory Address :=
  { f with pairFeeOverride := Function.update f.pairFeeOverride pair none }

end Factory

end CoralSwap
