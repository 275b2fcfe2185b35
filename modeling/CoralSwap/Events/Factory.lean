import CoralSwap.Factory.Machine
import CoralSwap.Lib.Journal

/-!
# The events of the factory

Every call that writes to the factory's storage publishes an event, except `initialize`, `cancel_upgrade` and
the relays to pairs. The index of a created pair is the number of pairs before it.
-/

namespace CoralSwap

open Host Host.Call

inductive FactoryEvent (Address : Type) where
  /-- `created` -/
  | pairCreated (tokenA tokenB pair : Address) (pairIndex : ℕ)
  | paused
  | unpaused
  | resumed
  | sync (paused : Bool) (pairCount : ℕ)
  | pairFrozen (pair signer : Address) (ledger : ℕ)
  | pairUnfrozen (pair signer : Address) (ledger : ℕ)
  /-- `prop_upg` -/
  | upgradeProposed (newWasmHash : Bytes32)
  /-- `upgraded` -/
  | upgradeExecuted (newVersion : ℕ)
  /-- `fee_to` -/
  | feeToSet (newFeeTo : Option Address)
  /-- `setter` -/
  | feeToSetterSet (newSetter : Address)
  /-- `fee_upd` -/
  | protocolFeeUpdated (oldFeeBps newFeeBps : ℕ) (feeTo : Option Address)
  /-- `pair_fee` -/
  | pairFeeOverrideSet (pair : Address) (oldFeeBps newFeeBps ledger : ℕ)
  | protocolFeeCollected (token : Address) (amount : ℤ)
  deriving DecidableEq

namespace Protocol

variable {Address : Type} [LinearOrder Address]

omit [LinearOrder Address] in
def setFeeConfigEvents (f : Factory Address) (feeTo : Option Address) (feeBps : ℕ) :
    List (FactoryEvent Address) :=
  [.feeToSet feeTo, .protocolFeeUpdated f.getFeeBps feeBps feeTo]

omit [LinearOrder Address] in
/-- The events of a call of the factory's record. -/
def recordEvents (env : ProtocolEnv Address) (f : Factory Address) :
    Factory.Op Address → List (FactoryEvent Address)
  | .initializeFactory .. => []
  | .pause _ => [.paused]
  | .unpause _ => [.unpaused, .resumed]
  | .setFeeConfig _ feeTo feeBps => setFeeConfigEvents f feeTo feeBps
  | .setFeeTo _ feeTo feeBps => setFeeConfigEvents f feeTo feeBps
  | .setFeeToSetter _ newSetter => [.feeToSetterSet newSetter]
  | .setPairFee _ pair feeBps =>
      [.pairFeeOverrideSet pair ((f.getPairFeeOverride pair).getD 0) feeBps env.sequence]

omit [LinearOrder Address] in
/-- The event of a freeze names who authorised it, which is the first of the signers: the fee setter where it
signs alone, else the first of the quorum. -/
def freezeEvents (signers : List Address) (event : Address → FactoryEvent Address) :
    List (FactoryEvent Address) :=
  signers.head?.toList.map event

/-- The events of an accepted call, in their order. -/
def eventsOf (d : Deployment Address) (env : ProtocolEnv Address) (p : Protocol Address) :
    Op Address → List (FactoryEvent Address)
  | .factory op => recordEvents env p.factory.toFactory op
  | .resume _ => [.unpaused, .resumed]
  | .sync => [.sync p.factory.isPaused p.factory.totalPairs]
  | .createPair tokenA tokenB =>
      let (token0, token1) := Deployment.sortTokens tokenA tokenB
      [.pairCreated token0 token1 (d.deployedAddress (d.pairSalt token0 token1)) p.factory.getPairCount]
  | .freezePair signers pair => freezeEvents signers (.pairFrozen pair · env.sequence)
  | .unfreezePair signers pair => freezeEvents signers (.pairUnfrozen pair · env.sequence)
  | .depositProtocolFee _ token amount => [.protocolFeeCollected token amount]
  | .proposeUpgrade _ newWasmHash => [.upgradeProposed newWasmHash]
  | .executeUpgrade =>
      match p.factory.storage with
      | some storage => [.upgradeExecuted (storage.protocolVersion + 1)]
      | none => []
  -- these publish nothing under the factory's address
  | .setPairLpTokenPaused .. | .setPairStaleThreshold .. | .cancelUpgrade _ | .pair .. | .initializeLpToken .. =>
      []

def publish (d : Deployment Address) (p : Protocol Address) (call : ProtocolCall Address) :
    Call Error (Protocol Address × List (FactoryEvent Address)) :=
  (exec d p call).publishing (eventsOf d call.1 p call.2)

def journal (d : Deployment Address) : Journal (machine d) (FactoryEvent Address) where
  publish := publish d
  exec_eq := fun _ _ => fst_publishing _ _

end Protocol

/-! ### Readers -/

/-- What the factory's views answer, as far as its events tell. -/
structure FactoryIndex (Address : Type) where
  isPaused : Bool
  feeTo : Option Address
  feeBps : ℕ
  feeToSetter : Option Address
  protocolVersion : Option ℕ
  pairFeeOverride : Address → Option ℕ
  getPair : Address → Address → Option Address
  pairList : List Address
  pairCount : ℕ
  totalPairs : ℕ
  isPair : Address → Bool
  isPairFrozen : Address → Bool
  protocolFeeBalance : Address → ℤ

namespace FactoryIndex

variable {Address : Type} [DecidableEq Address]

/-- The answers of the views. -/
def ofContract (f : FactoryContract Address) : FactoryIndex Address where
  isPaused := f.isPaused
  feeTo := f.toFactory.getFeeTo
  feeBps := f.toFactory.getFeeBps
  feeToSetter := f.feeToSetter
  protocolVersion := f.getProtocolVersion.toOption
  pairFeeOverride := f.toFactory.getPairFeeOverride
  getPair := f.getPair
  pairList := f.pairList
  pairCount := f.getPairCount
  totalPairs := f.totalPairs
  isPair := f.isPair
  isPairFrozen := f.isPairFrozen
  protocolFeeBalance := f.getProtocolFeeBalance

variable (index : FactoryIndex Address)

def create (token0 token1 pair : Address) (pairIndex : ℕ) : FactoryIndex Address :=
  let filed := Function.update index.getPair token0 (Function.update (index.getPair token0) token1 (some pair))
  { index with
    getPair := Function.update filed token1 (Function.update (filed token1) token0 (some pair))
    pairList := index.pairList ++ [pair]
    pairCount := pairIndex + 1
    totalPairs := (index.pairList ++ [pair]).length
    isPair := Function.update index.isPair pair true }

def read : FactoryEvent Address → FactoryIndex Address
  | .pairCreated token0 token1 pair pairIndex => index.create token0 token1 pair pairIndex
  | .paused => { index with isPaused := true }
  | .unpaused => { index with isPaused := false }
  | .resumed => { index with isPaused := false }
  | .sync paused pairCount => { index with isPaused := paused, totalPairs := pairCount }
  | .pairFrozen pair _ _ => { index with isPairFrozen := Function.update index.isPairFrozen pair true }
  | .pairUnfrozen pair _ _ => { index with isPairFrozen := Function.update index.isPairFrozen pair false }
  | .upgradeProposed _ => index
  | .upgradeExecuted newVersion => { index with protocolVersion := some newVersion }
  | .feeToSet newFeeTo => { index with feeTo := newFeeTo }
  | .feeToSetterSet newSetter => { index with feeToSetter := some newSetter }
  | .protocolFeeUpdated _ newFeeBps feeTo => { index with feeBps := newFeeBps, feeTo }
  | .pairFeeOverrideSet pair _ newFeeBps _ =>
      { index with
        pairFeeOverride := Function.update index.pairFeeOverride pair
          (if newFeeBps = 0 then none else some newFeeBps) }
  | .protocolFeeCollected token amount =>
      { index with
        protocolFeeBalance := Function.update index.protocolFeeBalance token
          (index.protocolFeeBalance token + amount) }

end FactoryIndex

end CoralSwap
