import CoralSwap.Factory.Protocol

/-!
# Runs of the protocol

Every call of the factory, of its pools and of their LP tokens, as one machine. The factory freezes a pool and pauses
its LP token by calls of the pair, and a nested call that fails takes the whole call with it. Code that an upgrade
installs is taken to keep the functions modelled here.
-/

namespace CoralSwap.Protocol

open Host Host.Call

variable {Address : Type} [LinearOrder Address]
variable (d : Deployment Address) (env : ProtocolEnv Address) (p : Protocol Address)

/-! ### Freezing a pool -/

/-- `freeze_pair` takes the fee setter's signature alone, or a quorum. -/
def authorizeFreeze (signers : List Address) : Call FactoryError Unit := do
  let storage ← p.factory.getStorage
  if signers = [storage.feeToSetter] then
    require (env.auth storage.feeToSetter = true)
  else do
    Factory.verifyMultisig env.toFactoryEnv storage.signers signers
    let _ ← okOr signers.head? .unauthorized
    pure ()

def authorizeUnfreeze (signers : List Address) : Call FactoryError Unit := do
  let storage ← p.factory.getStorage
  Factory.verifyMultisig env.toFactoryEnv storage.signers signers
  let _ ← okOr signers.head? .unauthorized
  pure ()

def setPairFrozenState (pair : Address) (frozen : Bool) : Call FactoryError (Protocol Address) := do
  failIf (p.factory.isPair pair = false) .pairNotFound
  let relayed ← orFail (p.callPair d env true pair (.setFrozen frozen)) .pairFreezeFailed
  pure { relayed with factory := relayed.factory.setPairFrozen pair frozen }

def freezePair (signers : List Address) (pair : Address) : Call FactoryError (Protocol Address) := do
  authorizeFreeze env p signers
  setPairFrozenState d env p pair true

def unfreezePair (signers : List Address) (pair : Address) : Call FactoryError (Protocol Address) := do
  authorizeUnfreeze env p signers
  setPairFrozenState d env p pair false

/-! ### The other relays -/

def setPairLpTokenPaused (setter pair : Address) (paused : Bool) :
    Call FactoryError (Protocol Address) := do
  let _ ← Factory.requireSetter env.toFactoryEnv p.factory.toFactory setter
  nested (p.callPair d env true pair (.setLpTokenPaused paused))

def setPairStaleThreshold (setter pair : Address) (threshold : ℕ) :
    Call FactoryError (Protocol Address) := do
  let _ ← Factory.requireSetter env.toFactoryEnv p.factory.toFactory setter
  nested (p.callPair d env true pair (.setStaleThreshold threshold))

/-! ### The machine -/

/-- A second `initialize` of a pool's LP token. -/
def initializeLpToken (pair admin : Address) (decimals : ℕ) (name symbol : String) :
    Call LpTokenError (Protocol Address) :=
  match p.pool pair with
  | some w => do
      let lp ← w.lp.initializeLpToken admin decimals name symbol
      pure (p.setPool pair { w with lp })
  | none => trap

inductive Op (Address : Type) where
  | factory (op : Factory.Op Address)
  | resume (signers : List Address)
  | sync
  | createPair (tokenA tokenB : Address)
  | freezePair (signers : List Address) (pair : Address)
  | unfreezePair (signers : List Address) (pair : Address)
  | setPairLpTokenPaused (setter pair : Address) (paused : Bool)
  | setPairStaleThreshold (setter pair : Address) (threshold : ℕ)
  | depositProtocolFee (pair token : Address) (amount : ℤ)
  | proposeUpgrade (signers : List Address) (newWasmHash : Bytes32)
  | executeUpgrade
  | cancelUpgrade (signers : List Address)
  | pair (pair : Address) (op : CoralSwap.Op Address)
  | initializeLpToken (pair admin : Address) (decimals : ℕ) (name symbol : String)

inductive Error where
  | factory (code : FactoryError)
  | pair (code : PairError)
  | lpToken (code : LpTokenError)
  deriving DecidableEq, Repr

def setFactory (f : FactoryContract Address) : Protocol Address := { p with factory := f }

abbrev ProtocolCall (Address : Type) := ProtocolEnv Address × Op Address

/-- A call of the factory's own record and its fee overrides. -/
def recordCall (call : Call FactoryError (Factory Address)) : Call Error (Protocol Address) := do
  let f ← mapCode .factory call
  pure (p.setFactory { p.factory with toFactory := f })

/-- A call of all the factory stores, and of nothing else. -/
def factoryCall (call : Call FactoryError (FactoryContract Address)) :
    Call Error (Protocol Address) := do
  let f ← mapCode .factory call
  pure (p.setFactory f)

def exec (d : Deployment Address) (p : Protocol Address) :
    ProtocolCall Address → Call Error (Protocol Address)
  | (env, .factory op) => recordCall p (Factory.exec p.factory.toFactory (env.toFactoryEnv, op))
  | (env, .resume signers) =>
      recordCall p (Factory.unpause env.toFactoryEnv p.factory.toFactory signers)
  | (_, .sync) => factoryCall p p.factory.sync
  | (env, .createPair tokenA tokenB) => do
      return (← mapCode .factory (createPair d env p tokenA tokenB)).1
  | (env, .freezePair signers pair) => mapCode .factory (freezePair d env p signers pair)
  | (env, .unfreezePair signers pair) => mapCode .factory (unfreezePair d env p signers pair)
  | (env, .setPairLpTokenPaused setter pair paused) =>
      mapCode .factory (setPairLpTokenPaused d env p setter pair paused)
  | (env, .setPairStaleThreshold setter pair threshold) =>
      mapCode .factory (setPairStaleThreshold d env p setter pair threshold)
  | (env, .depositProtocolFee pair token amount) =>
      factoryCall p (p.factory.depositProtocolFee env pair token amount)
  | (env, .proposeUpgrade signers newWasmHash) =>
      factoryCall p (p.factory.proposeUpgrade env signers newWasmHash)
  | (env, .executeUpgrade) => factoryCall p (p.factory.executeUpgrade env)
  | (env, .cancelUpgrade signers) => factoryCall p (p.factory.cancelUpgrade env signers)
  | (env, .pair pair op) => mapCode .pair (p.callPair d env false pair op)
  | (_, .initializeLpToken pair admin decimals name symbol) =>
      mapCode .lpToken (p.initializeLpToken pair admin decimals name symbol)

def machine (d : Deployment Address) : Machine (Protocol Address) (ProtocolCall Address) Error := ⟨exec d⟩

/-- The protocol after a run from its deployment. -/
def after (d : Deployment Address) (calls : List (ProtocolCall Address)) : Protocol Address :=
  (machine d).run (deployed d) calls

end CoralSwap.Protocol
