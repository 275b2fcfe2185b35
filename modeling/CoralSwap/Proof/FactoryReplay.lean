import CoralSwap.Events.Factory
import CoralSwap.Proof.NestedPools
import CoralSwap.Proof.ProtocolEffects
import CoralSwap.Proof.RecordEffects

/-!
# The factory's log answers its views

Every accepted call publishes what it changes of what the factory's views answer. So a reader who starts at an
initialised factory and applies one event after the other answers as the views do, whatever the pools, their
tokens and everybody else do in between.
-/

namespace CoralSwap

open Host Host.Call

variable {Address : Type} [LinearOrder Address]

namespace FactoryIndex

variable {f : FactoryContract Address} {storage : FactoryStorage Address}

/-- The answers of an initialised factory. -/
theorem ofContract_of_stored (hstored : f.storage = some storage) :
    ofContract f =
      { isPaused := storage.paused
        feeTo := storage.feeTo
        feeBps := storage.feeBps
        feeToSetter := some storage.feeToSetter
        protocolVersion := some storage.protocolVersion
        pairFeeOverride := f.pairFeeOverride
        getPair := f.pairEntry
        pairList := f.pairList
        pairCount := storage.pairCount
        totalPairs := f.totalPairs
        isPair := f.isPair
        isPairFrozen := f.pairFrozen
        protocolFeeBalance := f.protocolFeeBalance } := by
  simp only [ofContract, FactoryContract.isPaused, FactoryContract.feeToSetter, FactoryContract.getPairCount,
    FactoryContract.getProtocolVersion, Factory.getFeeTo, Factory.getFeeBps, Factory.getStorage, hstored]
  rfl

/-- A new pair joins the members, however their membership is kept. -/
theorem isPair_storePair {pairCount : ℕ} {token0 token1 pair lpToken : Address} :
    (f.storePair storage pairCount token0 token1 pair lpToken).isPair =
      Function.update f.isPair pair true := by
  funext who
  by_cases hwho : who = pair
  · subst hwho
    simp [FactoryContract.isPair, FactoryContract.storePair, FactoryContract.setPair]
  · simp [FactoryContract.isPair, FactoryContract.storePair, FactoryContract.setPair, hwho]

theorem create_ofContract (hstored : f.storage = some storage) {token0 token1 pair lpToken : Address} :
    (ofContract f).create token0 token1 pair storage.pairCount =
      ofContract (f.storePair storage (storage.pairCount + 1) token0 token1 pair lpToken) := by
  rw [ofContract_of_stored hstored, ofContract_of_stored rfl, isPair_storePair]
  rfl

end FactoryIndex

namespace Protocol

open FactoryIndex

variable {d : Deployment Address} {env : ProtocolEnv Address} {p p' : Protocol Address}
variable {storage : FactoryStorage Address}

theorem read_recordEvents {f : Factory Address} (op : Factory.Op Address)
    (hstored : p.factory.storage = some storage)
    (hexec : Factory.exec p.factory.toFactory (env.toFactoryEnv, op) = .ok f) :
    (recordEvents env p.factory.toFactory op).foldl read (ofContract p.factory) =
      ofContract { p.factory with toFactory := f } := by
  cases Factory.recordEffect_of_exec hexec with
  | initialized hnone => cases hstored.symm.trans hnone
  | paused paused hop hbefore hquorum hresult =>
      obtain rfl := Option.some.inj (hstored.symm.trans hbefore)
      subst hop hresult
      rw [ofContract_of_stored hstored, ofContract_of_stored rfl]
      cases paused <;> rfl
  | @feesSet _ setter feeTo feeBps before hop hguard hresult =>
      obtain rfl := Option.some.inj (hstored.symm.trans (Factory.requireSetter_ok hguard).1)
      subst hresult
      rw [ofContract_of_stored hstored, ofContract_of_stored rfl]
      rcases hop with rfl | rfl <;> rfl
  | setterSet hguard hresult =>
      obtain rfl := Option.some.inj (hstored.symm.trans (Factory.requireSetter_ok hguard).1)
      subst hresult
      rw [ofContract_of_stored hstored, ofContract_of_stored rfl]
      rfl
  | overrideSet hguard hresult =>
      subst hresult
      rfl

/-- Whoever may freeze or unfreeze has signed, and the event names a signer. -/
theorem foldl_freezeEvents {signers : List Address} (frozen : Bool)
    (hauth : authorizes env p signers frozen = .ok ()) (event : Address → FactoryEvent Address)
    (index : FactoryIndex Address) :
    ∃ signer, (freezeEvents signers event).foldl read index = index.read (event signer) := by
  have hsigners : signers ≠ [] := by
    rintro rfl
    cases frozen <;> simp [authorizes, authorizeFreeze, authorizeUnfreeze, okOr, fail] at hauth
  obtain ⟨signer, rest, rfl⟩ := List.exists_cons_of_ne_nil hsigners
  exact ⟨signer, rfl⟩

theorem factory_of_callPair {byFactory : Bool} {pair : Address} {op : CoralSwap.Op Address}
    (hcall : p.callPair d env byFactory pair op = .ok p') : p'.factory = p.factory := by
  rcases callPair_ok hcall with ⟨_, _, hcalled⟩ | ⟨-, rfl⟩
  · rw [hcalled.result]
    rfl
  · rfl

theorem factory_of_setPairFrozenState {pair : Address} {frozen : Bool}
    (hset : setPairFrozenState d env p pair frozen = .ok p') :
    p'.factory = p.factory.setPairFrozen pair frozen := by
  obtain ⟨-, ⟨_, _, _, -, rfl⟩ | ⟨-, rfl⟩⟩ := setPairFrozenState_ok hset <;> rfl

theorem read_eventsOf {op : Op Address} (hstored : p.factory.storage = some storage)
    (hexec : exec d p (env, op) = .ok p') :
    (eventsOf d env p op).foldl read (ofContract p.factory) = ofContract p'.factory := by
  cases op with
  | factory op =>
      simp only [exec, recordCall, bind_eq_ok, mapCode_eq_ok, pure_eq_ok] at hexec
      obtain ⟨f, hcall, rfl⟩ := hexec
      exact read_recordEvents op hstored hcall
  | resume signers =>
      simp only [exec, recordCall, bind_eq_ok, mapCode_eq_ok, pure_eq_ok] at hexec
      obtain ⟨f, hcall, rfl⟩ := hexec
      exact read_recordEvents (.unpause signers) hstored hcall
  | sync =>
      simp only [exec, factoryCall, FactoryContract.sync, bind_eq_ok, mapCode_eq_ok, pure_eq_ok] at hexec
      obtain ⟨_, ⟨-, -, rfl⟩, rfl⟩ := hexec
      rfl
  | createPair tokenA tokenB =>
      obtain ⟨pair, hcreated⟩ := exec_createPair_ok hexec
      obtain ⟨token0, token1, lpToken, before, w, hcreate⟩ := createPair_ok hcreated
      obtain rfl := Option.some.inj (hstored.symm.trans hcreate.stored)
      rw [hcreate.result, eventsOf, hcreate.sorted]
      dsimp only
      rw [← hcreate.pair_eq, FactoryContract.getPairCount, hstored]
      exact create_ofContract hstored
  | freezePair signers pair =>
      simp only [exec, freezePair, mapCode_eq_ok, bind_eq_ok] at hexec
      obtain ⟨_, hauth, hset⟩ := hexec
      obtain ⟨signer, hread⟩ := foldl_freezeEvents true hauth (.pairFrozen pair · env.sequence)
        (ofContract p.factory)
      rw [factory_of_setPairFrozenState hset, eventsOf, hread]
      rfl
  | unfreezePair signers pair =>
      simp only [exec, unfreezePair, mapCode_eq_ok, bind_eq_ok] at hexec
      obtain ⟨_, hauth, hset⟩ := hexec
      obtain ⟨signer, hread⟩ := foldl_freezeEvents false hauth (.pairUnfrozen pair · env.sequence)
        (ofContract p.factory)
      rw [factory_of_setPairFrozenState hset, eventsOf, hread]
      rfl
  | setPairLpTokenPaused setter pair paused =>
      simp only [exec, setPairLpTokenPaused, mapCode_eq_ok, bind_eq_ok, nested_eq_ok] at hexec
      obtain ⟨_, -, hcall⟩ := hexec
      rw [factory_of_callPair hcall]
      rfl
  | setPairStaleThreshold setter pair threshold =>
      simp only [exec, setPairStaleThreshold, mapCode_eq_ok, bind_eq_ok, nested_eq_ok] at hexec
      obtain ⟨_, -, hcall⟩ := hexec
      rw [factory_of_callPair hcall]
      rfl
  | depositProtocolFee pair token amount =>
      simp only [exec, factoryCall, FactoryContract.depositProtocolFee, bind_eq_ok, mapCode_eq_ok,
        orTrap_eq_ok, pure_eq_ok, Word.checkedAdd_eq_some] at hexec
      obtain ⟨_, ⟨-, -, -, -, -, -, -, -, -, -, _, ⟨-, rfl⟩, rfl⟩, rfl⟩ := hexec
      rfl
  | proposeUpgrade signers newWasmHash =>
      obtain ⟨-, -, rfl⟩ := proposeUpgrade_ok hexec
      rfl
  | executeUpgrade =>
      obtain ⟨proposal, -, -, rfl⟩ := executeUpgrade_ok hexec
      rw [eventsOf, hstored, ofContract_of_stored hstored, ofContract_of_stored rfl]
      rfl
  | cancelUpgrade signers =>
      obtain ⟨proposal, -, rfl⟩ := cancelUpgrade_ok hexec
      rfl
  | pair pair op =>
      rw [factory_of_callPair (mapCode_eq_ok.mp hexec)]
      rfl
  | initializeLpToken pair admin decimals name symbol =>
      cases effect_of_exec hexec with
      | still hop _ => simp [Op.asPairCall] at hop
      | reinitialized _ _ hresult =>
          subst hresult
          rfl
      | recorded hop _ _ => simp at hop
      | froze hop _ _ _ _ => cases hop
      | froze_unknown hop _ _ _ => cases hop
      | called hop _ => cases hop

/-- A factory stays initialised. -/
theorem stored_of_exec {op : Op Address} (hstored : p.factory.storage = some storage)
    (hexec : exec d p (env, op) = .ok p') : ∃ storage', p'.factory.storage = some storage' := by
  cases effect_of_exec hexec with
  | recorded _ hkept hresult =>
      obtain ⟨storage', hafter, -⟩ := hkept.stored storage hstored
      exact ⟨storage', by rw [hresult]; exact hafter⟩
  | still _ hresult => exact ⟨storage, hresult ▸ hstored⟩
  | created hcreate => exact ⟨_, by rw [hcreate.result]; rfl⟩
  | froze _ _ _ _ hresult => exact ⟨storage, by rw [hresult]; exact hstored⟩
  | froze_unknown _ _ _ hresult => exact ⟨storage, by rw [hresult]; exact hstored⟩
  | deposited hresult => exact ⟨storage, by rw [hresult]; exact hstored⟩
  | proposed _ _ _ hresult => exact ⟨storage, by rw [hresult]; exact hstored⟩
  | executed _ _ hresult => exact ⟨_, by rw [hresult, hstored]; rfl⟩
  | cancelled _ hresult => exact ⟨storage, by rw [hresult]; exact hstored⟩
  | called _ hcall => exact ⟨storage, by rw [hcall.result]; exact hstored⟩
  | reinitialized _ _ hresult => exact ⟨storage, by rw [hresult]; exact hstored⟩

/-- **The log answers the views.** From an initialised factory on, the events of a run of the whole protocol
rebuild what the factory answers: whether it is paused, the fees and overrides, the version, the pairs in the
order of their creation and by their tokens, which of them are frozen, and the fees collected. -/
theorem log_answers_views (d : Deployment Address) (p : Protocol Address)
    (hinitialized : p.factory.storage.isSome = true) (calls : List (ProtocolCall Address)) :
    ((journal d).log p calls).foldl read (ofContract p.factory) =
      ofContract ((machine d).run p calls).factory := by
  refine Journal.replay_log (fun p => ofContract p.factory)
    (fun p => ∃ storage, p.factory.storage = some storage) (P := fun _ _ => True) ?_ ?_
    (Option.isSome_iff_exists.mp hinitialized) (Machine.along_of_forall_mem (fun _ _ => trivial) p)
  · rintro p ⟨env, op⟩ p' ⟨storage, hstored⟩ hexec
    exact stored_of_exec hstored hexec
  · rintro p ⟨env, op⟩ p' events ⟨storage, hstored⟩ - hpublish
    obtain ⟨hexec, rfl⟩ := publishing_eq_ok.mp hpublish
    exact read_eventsOf hstored hexec

/-- Two pools are opened after the factory is initialised. -/
theorem log_answers_views_nestingCalls :
    let p := after plainDeployment (nestingCalls.take 1)
    ((journal plainDeployment).log p (nestingCalls.drop 1)).foldl read (ofContract p.factory) =
      ofContract ((machine plainDeployment).run p (nestingCalls.drop 1)).factory :=
  log_answers_views plainDeployment _ (by decide +kernel) _

end Protocol

end CoralSwap
