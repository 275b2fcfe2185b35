import CoralSwap.Factory.Machine
import CoralSwap.Proof.FactoryFees
import CoralSwap.Proof.LpHolders
import CoralSwap.Proof.Quorum

/-!
# What an accepted call of the protocol does

One case for each kind of call: the factory's record, the registry, the upgrades, and the pools it calls. Every pool
goes through the states of the pair on its own, so whatever holds of every reachable pair holds of every pool.
-/

namespace CoralSwap.Protocol

open Host Host.Call

variable {Address : Type} [LinearOrder Address]
variable {d : Deployment Address} {env : ProtocolEnv Address} {p p' : Protocol Address}

/-! ### The factory's record -/

/-- What the calls on the record keep: the counters, once there is a record. -/
structure RecordKept (f f' : Factory Address) : Prop where
  stored : ∀ storage, f.storage = some storage → ∃ storage', f'.storage = some storage' ∧
    storage'.pairCount = storage.pairCount ∧ storage'.protocolVersion = storage.protocolVersion
  initial : ∀ storage', f.storage = none → f'.storage = some storage' →
    storage'.pairCount = 0 ∧ storage'.protocolVersion = protocolVersion

omit [LinearOrder Address] in
theorem RecordKept.of_setStorage {f : Factory Address} {storage storage' : FactoryStorage Address}
    (hstored : f.storage = some storage) (hcount : storage'.pairCount = storage.pairCount)
    (hversion : storage'.protocolVersion = storage.protocolVersion) :
    RecordKept f (f.setStorage storage') := by
  constructor
  · intro before hbefore
    obtain rfl := Option.some.inj (hstored.symm.trans hbefore)
    exact ⟨storage', rfl, hcount, hversion⟩
  · intro _ hnone
    rw [hstored] at hnone
    cases hnone

omit [LinearOrder Address] in
theorem RecordKept.of_eq {f f' : Factory Address} (hstorage : f'.storage = f.storage) :
    RecordKept f f' := by
  constructor
  · intro storage hstored
    exact ⟨storage, hstorage.trans hstored, rfl, rfl⟩
  · intro _ hnone hstored
    rw [hstorage, hnone] at hstored
    cases hstored

theorem recordKept_of_exec {fenv : FactoryEnv Address} {f f' : Factory Address} {op : Factory.Op Address}
    (hexec : Factory.exec f (fenv, op) = .ok f') : RecordKept f f' := by
  have hpaused : ∀ signers paused, Factory.setPaused fenv f signers paused = .ok f' →
      RecordKept f f' := by
    intro signers paused hset
    simp only [Factory.setPaused, Factory.getStorage, bind_eq_ok, okOr_eq_ok, pure_eq_ok] at hset
    obtain ⟨storage, hstorage, -, -, rfl⟩ := hset
    exact .of_setStorage hstorage rfl rfl
  have hconfig : ∀ setter feeTo feeBps, Factory.setFeeConfig fenv f setter feeTo feeBps = .ok f' →
      RecordKept f f' := by
    intro setter feeTo feeBps hset
    simp only [Factory.setFeeConfig, bind_eq_ok, failIf_eq_ok, pure_eq_ok, exists_const] at hset
    obtain ⟨storage, hguard, -, -, -, rfl⟩ := hset
    exact .of_setStorage (Factory.requireSetter_ok hguard).1 rfl rfl
  cases op with
  | initializeFactory signers pairWasmHash concentratedPairWasmHash lpTokenWasmHash feeToSetter =>
      obtain ⟨hnone, -, rfl⟩ := Factory.initializeFactory_ok hexec
      constructor
      · intro storage hstored
        rw [hnone] at hstored
        cases hstored
      · rintro _ - hstored
        obtain rfl := Option.some.inj hstored
        exact ⟨rfl, rfl⟩
  | pause signers => exact hpaused signers true hexec
  | unpause signers => exact hpaused signers false hexec
  | setFeeConfig setter feeTo feeBps => exact hconfig setter feeTo feeBps hexec
  | setFeeTo setter feeTo feeBps => exact hconfig setter feeTo feeBps hexec
  | setFeeToSetter setter newSetter =>
      simp only [Factory.exec, Factory.setFeeToSetter, bind_eq_ok, pure_eq_ok] at hexec
      obtain ⟨storage, hguard, rfl⟩ := hexec
      exact .of_setStorage (Factory.requireSetter_ok hguard).1 rfl rfl
  | setPairFee setter pair feeBps =>
      simp only [Factory.exec, Factory.setPairFee, bind_eq_ok, failIf_eq_ok, pure_eq_ok,
        exists_const] at hexec
      obtain ⟨-, -, -, rfl⟩ := hexec
      split <;> exact .of_eq rfl

/-! ### Creating a pair -/

theorem sortTokens_eq {tokenA tokenB token0 token1 : Address}
    (hsorted : Deployment.sortTokens tokenA tokenB = (token0, token1)) :
    (tokenA = token0 ∧ tokenB = token1 ∨ tokenA = token1 ∧ tokenB = token0) ∧ token0 ≤ token1 := by
  unfold Deployment.sortTokens at hsorted
  split at hsorted
  · rename_i hlt
    obtain ⟨rfl, rfl⟩ := Prod.mk.inj hsorted
    exact ⟨.inl ⟨rfl, rfl⟩, hlt.le⟩
  · rename_i hle
    obtain ⟨rfl, rfl⟩ := Prod.mk.inj hsorted
    exact ⟨.inr ⟨rfl, rfl⟩, not_lt.mp hle⟩

/-- An accepted `create_pair` that deployed `pair`. -/
structure Creates (d : Deployment Address) (env : ProtocolEnv Address) (p : Protocol Address)
    (tokenA tokenB token0 token1 pair lpToken : Address) (storage : FactoryStorage Address)
    (w : World Address) (p' : Protocol Address) : Prop where
  ne : tokenA ≠ tokenB
  sorted : Deployment.sortTokens tokenA tokenB = (token0, token1)
  isNew : p.factory.getPair token0 token1 = none
  stored : p.factory.storage = some storage
  pair_eq : pair = d.deployedAddress (d.pairSalt token0 token1)
  lpToken_eq : lpToken = d.deployedAddress (d.lpSalt pair)
  free : p.occupied pair = false
  lpFree : p.occupied lpToken = false
  lpToken_ne : lpToken ≠ pair
  opened : initializePair (pairEnv d env p true pair)
    (World.deployed pair (env.token token0) (env.token token1)) d.factory token0 token1 lpToken = .ok w
  result : p' =
    { factory := p.factory.storePair storage (storage.pairCount + 1) token0 token1 pair lpToken
      pool := Function.update p.pool pair (some w)
      occupied := Function.update (Function.update p.occupied pair true) lpToken true }

theorem createPair_ok {tokenA tokenB pair : Address}
    (hcreate : createPair d env p tokenA tokenB = .ok (p', pair)) :
    ∃ token0 token1 lpToken storage w,
      Creates d env p tokenA tokenB token0 token1 pair lpToken storage w p' := by
  rcases hsorted : Deployment.sortTokens tokenA tokenB with ⟨token0, token1⟩
  unfold createPair at hcreate
  rw [hsorted] at hcreate
  simp only [deploy, Factory.getStorage, LpToken.initializeLpToken, bind_eq_ok, failIf_eq_ok,
    okOr_eq_ok, require_eq_ok, orFail_eq_ok, orTrap_eq_ok, pure_eq_ok, exists_const,
    Word.checkedAdd_eq_some, and_assoc, exists_and_left, exists_eq_left', Prod.mk.injEq,
    Bool.not_eq_true, Option.isSome_eq_false_iff, Option.isNone_iff_eq_none] at hcreate
  obtain ⟨hne, hnew, storage, hstored, hpaused, huploaded, hfree, hlpUploaded, hlpFree, -, -, -, w, hopened, -,
    -, rfl, rfl⟩ := hcreate
  have hlpNe : d.deployedAddress (d.lpSalt (d.deployedAddress (d.pairSalt token0 token1))) ≠
      d.deployedAddress (d.pairSalt token0 token1) := by
    intro heq
    rw [heq] at hlpFree
    simp at hlpFree
  rw [Function.update_of_ne hlpNe] at hlpFree
  refine ⟨token0, token1, _, storage, w, hne, hsorted, hnew, hstored, rfl, rfl, hfree, hlpFree, hlpNe, hopened, ?_⟩
  simp [setPool]

theorem exec_createPair_ok {tokenA tokenB : Address}
    (hexec : exec d p (env, .createPair tokenA tokenB) = .ok p') :
    ∃ pair, createPair d env p tokenA tokenB = .ok (p', pair) := by
  simp only [exec, bind_eq_ok, mapCode_eq_ok, pure_eq_ok] at hexec
  obtain ⟨⟨_, pair⟩, hcreate, rfl⟩ := hexec
  exact ⟨pair, hcreate⟩

/-! ### Calling a pair -/

/-- An accepted call of `pair`, one of the pools. -/
structure CallsPool (d : Deployment Address) (env : ProtocolEnv Address) (p : Protocol Address)
    (byFactory : Bool) (pair : Address) (op : CoralSwap.Op Address) (w w' : World Address)
    (p' : Protocol Address) : Prop where
  pool : p.pool pair = some w
  called : CoralSwap.exec w (pairEnv d env p byFactory pair, op) = .ok w'
  result : p' = p.setPool pair w'

theorem callPair_ok {byFactory : Bool} {pair : Address} {op : CoralSwap.Op Address}
    (hcall : p.callPair d env byFactory pair op = .ok p') :
    (∃ w w', CallsPool d env p byFactory pair op w w' p') ∨ p.pool pair = none ∧ p' = p := by
  unfold callPair at hcall
  cases hpool : p.pool pair with
  | none =>
      simp only [hpool, bind_eq_ok, require_eq_ok, pure_eq_ok, exists_const] at hcall
      exact Or.inr ⟨rfl, hcall.2.symm⟩
  | some w =>
      simp only [hpool, bind_eq_ok, pure_eq_ok] at hcall
      obtain ⟨w', hexec, rfl⟩ := hcall
      exact Or.inl ⟨w, w', hpool, hexec, rfl⟩

/-! ### All calls at once -/

/-- The call of a pair that a call of the protocol consists of. -/
def Op.asPairCall : Op Address → Option (Bool × Address × CoralSwap.Op Address)
  | .pair contract op => some (false, contract, op)
  | .setPairLpTokenPaused _ contract paused => some (true, contract, .setLpTokenPaused paused)
  | .setPairStaleThreshold _ contract threshold => some (true, contract, .setStaleThreshold threshold)
  | _ => none

/-- Who may set the frozen flag of a pair to `frozen`. -/
def authorizes (env : ProtocolEnv Address) (p : Protocol Address) (signers : List Address) :
    Bool → Call FactoryError Unit
  | true => authorizeFreeze env p signers
  | false => authorizeUnfreeze env p signers

def Op.asFreeze : Op Address → Option (List Address × Address × Bool)
  | .freezePair signers contract => some (signers, contract, true)
  | .unfreezePair signers contract => some (signers, contract, false)
  | _ => none

/-- What an accepted call does, one case for each kind of call. -/
inductive Effect (d : Deployment Address) (env : ProtocolEnv Address) (p p' : Protocol Address) :
    Op Address → Prop where
  | recorded {op : Op Address} {f : Factory Address}
      (hop : (∃ call, op = .factory call) ∨ ∃ signers, op = .resume signers)
      (hkept : RecordKept p.factory.toFactory f)
      (hresult : p' = p.setFactory { p.factory with toFactory := f }) : Effect d env p p' op
  | still {op : Op Address} (hop : op = .sync ∨ op.asPairCall.isSome = true) (hresult : p' = p) :
      Effect d env p p' op
  | created {tokenA tokenB token0 token1 pair lpToken : Address} {storage : FactoryStorage Address}
      {w : World Address}
      (hcreate : Creates d env p tokenA tokenB token0 token1 pair lpToken storage w p') :
      Effect d env p p' (.createPair tokenA tokenB)
  | froze {op : Op Address} {signers : List Address} {pair : Address} {frozen : Bool}
      {w w' : World Address} {relayed : Protocol Address} (hop : op.asFreeze = some (signers, pair, frozen))
      (hauth : authorizes env p signers frozen = .ok ()) (hpair : p.factory.isPair pair = true)
      (hcall : CallsPool d env p true pair (.setFrozen frozen) w w' relayed)
      (hresult : p' = relayed.setFactory (p.factory.setPairFrozen pair frozen)) : Effect d env p p' op
  | froze_unknown {op : Op Address} {signers : List Address} {pair : Address} {frozen : Bool}
      (hop : op.asFreeze = some (signers, pair, frozen))
      (hpair : p.factory.isPair pair = true) (hpool : p.pool pair = none)
      (hresult : p' = p.setFactory (p.factory.setPairFrozen pair frozen)) : Effect d env p p' op
  | deposited {pair token : Address} {amount : ℤ} {balances : Address → ℤ}
      (hresult : p' = p.setFactory { p.factory with protocolFeeBalance := balances }) :
      Effect d env p p' (.depositProtocolFee pair token amount)
  | proposed {signers : List Address} {newWasmHash : Bytes32} {storage : FactoryStorage Address}
      (hstored : p.factory.storage = some storage)
      (hquorum : Factory.verifyMultisig env.toFactoryEnv storage.signers signers = .ok ())
      (hpending : p.factory.pendingUpgrade = none)
      (hresult : p' = p.setFactory
        { p.factory with pendingUpgrade := some { newWasmHash, proposedAtLedger := env.sequence } }) :
      Effect d env p p' (.proposeUpgrade signers newWasmHash)
  | executed {proposal : PendingUpgrade} (hpending : p.factory.pendingUpgrade = some proposal)
      (helapsed : FactoryContract.upgradeDelayLedgers ≤ env.sequence - proposal.proposedAtLedger)
      (hresult : p' = p.setFactory
        { p.factory with
          installedWasm := some proposal.newWasmHash
          pendingUpgrade := none
          storage := p.factory.storage.map fun storage =>
            { storage with protocolVersion := storage.protocolVersion + 1 } }) :
      Effect d env p p' .executeUpgrade
  | cancelled {signers : List Address} {proposal : PendingUpgrade}
      (hpending : p.factory.pendingUpgrade = some proposal)
      (hresult : p' = p.setFactory { p.factory with pendingUpgrade := none }) :
      Effect d env p p' (.cancelUpgrade signers)
  | called {op : Op Address} {byFactory : Bool} {pair : Address} {pairOp : CoralSwap.Op Address}
      {w w' : World Address} (hop : op.asPairCall = some (byFactory, pair, pairOp))
      (hcall : CallsPool d env p byFactory pair pairOp w w' p') : Effect d env p p' op
  | reinitialized {pair admin : Address} {decimals : ℕ} {name symbol : String} {w : World Address}
      {lp : LpToken Address} (hpool : p.pool pair = some w)
      (hinit : w.lp.initializeLpToken admin decimals name symbol = .ok lp)
      (hresult : p' = p.setPool pair { w with lp }) :
      Effect d env p p' (.initializeLpToken pair admin decimals name symbol)

theorem proposeUpgrade_ok {signers : List Address} {newWasmHash : Bytes32}
    (hexec : exec d p (env, .proposeUpgrade signers newWasmHash) = .ok p') :
    (∃ storage, p.factory.storage = some storage ∧
      Factory.verifyMultisig env.toFactoryEnv storage.signers signers = .ok ()) ∧
      p.factory.pendingUpgrade = none ∧
      p' = p.setFactory
        { p.factory with pendingUpgrade := some { newWasmHash, proposedAtLedger := env.sequence } } := by
  simp only [exec, factoryCall, FactoryContract.proposeUpgrade, Factory.getStorage, bind_eq_ok,
    mapCode_eq_ok, okOr_eq_ok, failIf_eq_ok, pure_eq_ok, exists_const, Bool.not_eq_true,
    Option.isSome_eq_false_iff, Option.isNone_iff_eq_none] at hexec
  obtain ⟨_, ⟨storage, hstored, _, hquorum, hpending, rfl⟩, rfl⟩ := hexec
  exact ⟨⟨storage, hstored, hquorum⟩, hpending, rfl⟩

theorem executeUpgrade_ok (hexec : exec d p (env, .executeUpgrade) = .ok p') :
    ∃ proposal, p.factory.pendingUpgrade = some proposal ∧
      FactoryContract.upgradeDelayLedgers ≤ env.sequence - proposal.proposedAtLedger ∧
      p' = p.setFactory
        { p.factory with
          installedWasm := some proposal.newWasmHash
          pendingUpgrade := none
          storage := p.factory.storage.map fun storage =>
            { storage with protocolVersion := storage.protocolVersion + 1 } } := by
  simp only [exec, factoryCall, FactoryContract.executeUpgrade, bind_eq_ok, mapCode_eq_ok, okOr_eq_ok,
    failIf_eq_ok, require_eq_ok, pure_eq_ok, exists_const, not_lt] at hexec
  obtain ⟨f, ⟨proposal, hpending, helapsed, -, hexecute⟩, rfl⟩ := hexec
  refine ⟨proposal, hpending, helapsed, congrArg p.setFactory ?_⟩
  cases hstored : p.factory.storage with
  | none =>
      simp only [hstored, pure_eq_ok] at hexecute
      rw [← hexecute, Option.map_none, ← hstored]
  | some storage =>
      simp only [hstored, bind_eq_ok, orTrap_eq_ok, pure_eq_ok, Word.checkedAdd_eq_some] at hexecute
      obtain ⟨_, ⟨-, rfl⟩, rfl⟩ := hexecute
      rfl

theorem cancelUpgrade_ok {signers : List Address}
    (hexec : exec d p (env, .cancelUpgrade signers) = .ok p') :
    ∃ proposal, p.factory.pendingUpgrade = some proposal ∧
      p' = p.setFactory { p.factory with pendingUpgrade := none } := by
  simp only [exec, factoryCall, FactoryContract.cancelUpgrade, Factory.getStorage, bind_eq_ok,
    mapCode_eq_ok, okOr_eq_ok, failIf_eq_ok, pure_eq_ok, exists_const] at hexec
  obtain ⟨_, ⟨-, -, -, -, hpending, rfl⟩, rfl⟩ := hexec
  obtain ⟨proposal, hpending⟩ := Option.ne_none_iff_exists'.mp hpending
  exact ⟨proposal, hpending, rfl⟩

theorem setPairFrozenState_ok {pair : Address} {frozen : Bool}
    (hset : setPairFrozenState d env p pair frozen = .ok p') :
    p.factory.isPair pair = true ∧
      ((∃ w w' relayed, CallsPool d env p true pair (.setFrozen frozen) w w' relayed ∧
          p' = relayed.setFactory (p.factory.setPairFrozen pair frozen)) ∨
        p.pool pair = none ∧ p' = p.setFactory (p.factory.setPairFrozen pair frozen)) := by
  simp only [setPairFrozenState, bind_eq_ok, failIf_eq_ok, orFail_eq_ok, pure_eq_ok, exists_const,
    Bool.not_eq_false] at hset
  obtain ⟨hpair, relayed, hcall, rfl⟩ := hset
  refine ⟨hpair, ?_⟩
  rcases callPair_ok hcall with ⟨w, w', hcall⟩ | ⟨hpool, rfl⟩
  · refine Or.inl ⟨w, w', relayed, hcall, ?_⟩
    rw [hcall.result]
    rfl
  · exact Or.inr ⟨hpool, rfl⟩

theorem effect_of_callPair {op : Op Address} {byFactory : Bool} {pair : Address}
    {pairOp : CoralSwap.Op Address} (hop : op.asPairCall = some (byFactory, pair, pairOp))
    (hcall : p.callPair d env byFactory pair pairOp = .ok p') : Effect d env p p' op := by
  rcases callPair_ok hcall with ⟨w, w', hcall⟩ | ⟨-, hresult⟩
  · exact .called hop hcall
  · exact .still (Or.inr (by rw [hop]; rfl)) hresult

theorem effect_of_setPairFrozenState {op : Op Address} {signers : List Address} {pair : Address}
    {frozen : Bool} (hop : op.asFreeze = some (signers, pair, frozen))
    (hauth : authorizes env p signers frozen = .ok ())
    (hset : setPairFrozenState d env p pair frozen = .ok p') : Effect d env p p' op := by
  obtain ⟨hpair, ⟨w, w', relayed, hcall, hresult⟩ | ⟨hpool, hresult⟩⟩ := setPairFrozenState_ok hset
  · exact .froze hop hauth hpair hcall hresult
  · exact .froze_unknown hop hpair hpool hresult

/-- **Inversion of a call.** -/
theorem effect_of_exec {op : Op Address} (hexec : exec d p (env, op) = .ok p') : Effect d env p p' op := by
  cases op with
  | factory call =>
      simp only [exec, recordCall, bind_eq_ok, mapCode_eq_ok, pure_eq_ok] at hexec
      obtain ⟨f, hcall, rfl⟩ := hexec
      exact .recorded (Or.inl ⟨call, rfl⟩) (recordKept_of_exec hcall) rfl
  | resume signers =>
      simp only [exec, recordCall, bind_eq_ok, mapCode_eq_ok, pure_eq_ok] at hexec
      obtain ⟨f, hcall, rfl⟩ := hexec
      have hunpause : Factory.exec p.factory.toFactory (env.toFactoryEnv, .unpause signers) = .ok f :=
        hcall
      exact .recorded (Or.inr ⟨signers, rfl⟩) (recordKept_of_exec hunpause) rfl
  | sync =>
      simp only [exec, factoryCall, FactoryContract.sync, bind_eq_ok, mapCode_eq_ok, pure_eq_ok] at hexec
      obtain ⟨_, ⟨-, -, rfl⟩, rfl⟩ := hexec
      exact .still (Or.inl rfl) rfl
  | createPair tokenA tokenB =>
      obtain ⟨pair, hcreated⟩ := exec_createPair_ok hexec
      obtain ⟨_, _, _, _, _, hcreate⟩ := createPair_ok hcreated
      exact .created hcreate
  | freezePair signers pair =>
      simp only [exec, freezePair, mapCode_eq_ok, bind_eq_ok] at hexec
      obtain ⟨_, hauth, hset⟩ := hexec
      exact effect_of_setPairFrozenState rfl hauth hset
  | unfreezePair signers pair =>
      simp only [exec, unfreezePair, mapCode_eq_ok, bind_eq_ok] at hexec
      obtain ⟨_, hauth, hset⟩ := hexec
      exact effect_of_setPairFrozenState rfl hauth hset
  | setPairLpTokenPaused setter pair paused =>
      simp only [exec, setPairLpTokenPaused, mapCode_eq_ok, bind_eq_ok, nested_eq_ok] at hexec
      obtain ⟨_, -, hcall⟩ := hexec
      exact effect_of_callPair rfl hcall
  | setPairStaleThreshold setter pair threshold =>
      simp only [exec, setPairStaleThreshold, mapCode_eq_ok, bind_eq_ok, nested_eq_ok] at hexec
      obtain ⟨_, -, hcall⟩ := hexec
      exact effect_of_callPair rfl hcall
  | depositProtocolFee pair token amount =>
      simp only [exec, factoryCall, FactoryContract.depositProtocolFee, bind_eq_ok, mapCode_eq_ok,
        pure_eq_ok] at hexec
      obtain ⟨_, ⟨-, -, -, -, -, -, -, -, -, -, _, -, rfl⟩, rfl⟩ := hexec
      exact .deposited rfl
  | proposeUpgrade signers newWasmHash =>
      obtain ⟨⟨_, hstored, hquorum⟩, hpending, hresult⟩ := proposeUpgrade_ok hexec
      exact .proposed hstored hquorum hpending hresult
  | executeUpgrade =>
      obtain ⟨_, hpending, helapsed, hresult⟩ := executeUpgrade_ok hexec
      exact .executed hpending helapsed hresult
  | cancelUpgrade signers =>
      obtain ⟨_, hpending, hresult⟩ := cancelUpgrade_ok hexec
      exact .cancelled hpending hresult
  | pair pair op =>
      exact effect_of_callPair rfl (mapCode_eq_ok.mp hexec)
  | initializeLpToken pair admin decimals name symbol =>
      simp only [exec, initializeLpToken, mapCode_eq_ok] at hexec
      split at hexec
      · rename_i w hpool
        simp only [bind_eq_ok, pure_eq_ok] at hexec
        obtain ⟨lp, hinit, rfl⟩ := hexec
        exact .reinitialized hpool hinit rfl
      · exact (trap_ne_ok.mp hexec).elim

end CoralSwap.Protocol
