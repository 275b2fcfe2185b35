import CoralSwap.Factory.Types

/-!
# The factory's governance

The multisig of the registered signers pauses the protocol; the fee setter alone configures the fees.
A rate is checked against its bound before it is stored.
-/

namespace CoralSwap

open Host Host.Call

def maxProtocolFeeBps : ℕ := 30

def maxPairFeeBps : ℕ := 100

def protocolVersion : ℕ := 1

/-- The signers needed of `signerCount` registered ones: a strict majority. -/
def quorumThreshold (signerCount : ℕ) : ℕ := signerCount / 2 + 1

namespace Factory

variable {Address : Type} [DecidableEq Address] (env : FactoryEnv Address) (f : Factory Address)

def getStorage : Call FactoryError (FactoryStorage Address) := okOr f.storage .notInitialized

/-- Every presented signer is registered, and none was presented earlier. -/
def checkSigners (registered : List Address) : List Address → List Address → Call FactoryError Unit
  | _, [] => pure ()
  | earlier, signer :: rest => do
      failIf (signer ∉ registered) .unauthorized
      failIf (signer ∈ earlier) .duplicateSigner
      checkSigners registered (earlier ++ [signer]) rest

def verifyMultisig (registered signers : List Address) : Call FactoryError Unit := do
  failIf (registered = []) .invalidSignerCount
  checkSigners registered [] signers
  failIf (signers.length < quorumThreshold registered.length) .insufficientSignatures
  require (∀ signer ∈ signers, env.auth signer = true)

def initializeFactory (signers : List Address)
    (pairWasmHash concentratedPairWasmHash lpTokenWasmHash : Bytes32) (feeToSetter : Address) :
    Call FactoryError (Factory Address) := do
  failIf (f.storage.isSome = true) .alreadyInitialized
  failIf (signers.length < 1 ∨ 10 < signers.length) .invalidSignerCount
  pure (f.setStorage
    { signers, pairWasmHash, concentratedPairWasmHash, lpTokenWasmHash
      pairCount := 0, protocolVersion, paused := false
      feeTo := none, feeToSetter, feeBps := 0 })

def setPaused (signers : List Address) (paused : Bool) : Call FactoryError (Factory Address) := do
  let storage ← f.getStorage
  verifyMultisig env storage.signers signers
  pure (f.setStorage { storage with paused })

def pause (signers : List Address) : Call FactoryError (Factory Address) :=
  setPaused env f signers true

def unpause (signers : List Address) : Call FactoryError (Factory Address) :=
  setPaused env f signers false

/-- The guard of every fee configuration call: `setter` signs, and is the fee setter. -/
def requireSetter (setter : Address) : Call FactoryError (FactoryStorage Address) := do
  let storage ← f.getStorage
  require (env.auth setter = true)
  failIf (setter ≠ storage.feeToSetter) .unauthorized
  pure storage

def setFeeConfig (setter : Address) (feeTo : Option Address) (feeBps : ℕ) :
    Call FactoryError (Factory Address) := do
  let storage ← requireSetter env f setter
  failIf (maxProtocolFeeBps < feeBps) .feeTooHigh
  failIf (feeTo = none ∧ 0 < feeBps) .invalidFeeRecipient
  failIf (feeTo.isSome = true ∧ feeBps = 0) .feeDisabled
  pure (f.setStorage { storage with feeTo, feeBps })

def setFeeTo (setter : Address) (feeTo : Option Address) (feeBps : ℕ) :
    Call FactoryError (Factory Address) :=
  setFeeConfig env f setter feeTo feeBps

def setFeeToSetter (setter newSetter : Address) : Call FactoryError (Factory Address) := do
  let storage ← requireSetter env f setter
  pure (f.setStorage { storage with feeToSetter := newSetter })

/-- A zero rate clears the override. -/
def setPairFee (setter pair : Address) (feeBps : ℕ) : Call FactoryError (Factory Address) := do
  let _ ← requireSetter env f setter
  failIf (maxPairFeeBps < feeBps) .feeTooHigh
  pure (if feeBps = 0 then f.removePairFeeOverride pair else f.setPairFeeOverride pair feeBps)

omit [DecidableEq Address] in
def getPairFeeOverride (pair : Address) : Option ℕ := f.pairFeeOverride pair

omit [DecidableEq Address] in
def getFeeBps : ℕ := (f.storage.map FactoryStorage.feeBps).getD 0

omit [DecidableEq Address] in
def getFeeTo : Option Address := f.storage.bind FactoryStorage.feeTo

inductive Op (Address : Type) where
  | initializeFactory (signers : List Address)
      (pairWasmHash concentratedPairWasmHash lpTokenWasmHash : Bytes32) (feeToSetter : Address)
  | pause (signers : List Address)
  | unpause (signers : List Address)
  | setFeeConfig (setter : Address) (feeTo : Option Address) (feeBps : ℕ)
  | setFeeTo (setter : Address) (feeTo : Option Address) (feeBps : ℕ)
  | setFeeToSetter (setter newSetter : Address)
  | setPairFee (setter pair : Address) (feeBps : ℕ)

def exec (f : Factory Address) : FactoryEnv Address × Op Address → Call FactoryError (Factory Address)
  | (_, .initializeFactory signers pairWasmHash concentratedPairWasmHash lpTokenWasmHash
      feeToSetter) =>
      initializeFactory f signers pairWasmHash concentratedPairWasmHash lpTokenWasmHash feeToSetter
  | (env, .pause signers) => pause env f signers
  | (env, .unpause signers) => unpause env f signers
  | (env, .setFeeConfig setter feeTo feeBps) => setFeeConfig env f setter feeTo feeBps
  | (env, .setFeeTo setter feeTo feeBps) => setFeeTo env f setter feeTo feeBps
  | (env, .setFeeToSetter setter newSetter) => setFeeToSetter env f setter newSetter
  | (env, .setPairFee setter pair feeBps) => setPairFee env f setter pair feeBps

def machine : Machine (Factory Address) (FactoryEnv Address × Op Address) FactoryError := ⟨exec⟩

def Reachable (f : Factory Address) : Prop :=
  ∃ calls : List (FactoryEnv Address × Op Address), f = machine.run deployed calls

end Factory

end CoralSwap
