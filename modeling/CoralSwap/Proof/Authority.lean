import CoralSwap.Proof.FeeDecay
import CoralSwap.Proof.Freezing
import CoralSwap.Proof.NestedPools
import CoralSwap.Proof.RecordEffects

/-!
# What nobody can change without the governance

The fee setter and a quorum of the signers govern the factory and, through it, its pairs. While the setter and
enough of the signers do not sign, no run of calls changes what they govern, whoever calls what.
-/

namespace CoralSwap

open Host Host.Call

/-! ### What the factory directs of a pair -/

namespace FeeState

variable {Address : Type} {contract : Address} {env : Env contract} {fs fs' : FeeState}

theorem staleThreshold_of_decayStaleEma (hdecay : decayStaleEma env fs = .ok fs') :
    fs'.staleThreshold = fs.staleThreshold := by
  rcases decayStaleEma_ok hdecay with rfl | rfl
  · rfl
  · rcases applyTimeDecay_cases fs env.sequence with hsame | ⟨vol, -, -, hdecayed⟩
    · rw [hsame]
    · rw [hdecayed]

theorem staleThreshold_of_updateVolatility {priceDeltaAbs tradeSize totalReserve : ℤ}
    (hupdate : updateVolatility env fs priceDeltaAbs tradeSize totalReserve = .ok fs') :
    fs'.staleThreshold = fs.staleThreshold := by
  simp only [updateVolatility, bind_eq_ok, pure_eq_ok] at hupdate
  obtain ⟨_, -, _, -, _, -, _, -, _, -, _, -, _, -, _, -, _, -, _, -, _, -, rfl⟩ := hupdate
  rfl

end FeeState

section Pair

variable {Address : Type} [DecidableEq Address] {contract : Address}
variable {env : Env contract} {w w' w'' : World Address}

/-- The pair stands as the factory left it: its two flags, and the age at which it decays its fee. -/
structure AsDirected (w w' : World Address) : Prop where
  flags : SameFlags w w'
  staleThreshold : w'.pair.feeState.map FeeState.staleThreshold = w.pair.feeState.map FeeState.staleThreshold

omit [DecidableEq Address] in
theorem AsDirected.of_pair {fs : Option FeeState} (hpaused : w'.pair.lpTokenPaused = w.pair.lpTokenPaused)
    (hfrozen : w'.pair.frozen = w.pair.frozen) (hfeeState : w'.pair.feeState = fs)
    (hfs : fs = w.pair.feeState) : AsDirected w w' :=
  ⟨⟨hpaused, hfrozen⟩, by rw [hfeeState, hfs]⟩

omit [DecidableEq Address] in
theorem AsDirected.refl (w : World Address) : AsDirected w w := ⟨⟨rfl, rfl⟩, rfl⟩

omit [DecidableEq Address] in
theorem AsDirected.trans (hfirst : AsDirected w w') (hsecond : AsDirected w' w'') : AsDirected w w'' :=
  ⟨⟨hsecond.flags.paused.trans hfirst.flags.paused, hsecond.flags.frozen.trans hfirst.flags.frozen⟩,
    hsecond.staleThreshold.trans hfirst.staleThreshold⟩

theorem asDirected_of_swap {amountAOut amountBOut : ℤ} {dst : Address} {before after : PairStorage Address}
    {stored decayed : FeeState} {paidA paidB : Token Address} {event : SwapEvent} (hflags : SameFlags w w')
    (hswap : SwapSettles env w amountAOut amountBOut dst before after stored decayed paidA paidB w' event) :
    AsDirected w w' := by
  refine ⟨hflags, ?_⟩
  obtain ⟨fs, htracked, hafter⟩ := hswap.tracked
  rw [hafter, hswap.feeState, Option.map_some, Option.map_some, ←
    FeeState.staleThreshold_of_decayStaleEma hswap.decay]
  rcases trackVolatility_ok htracked with rfl | ⟨_, _, _, hupdate⟩
  · rfl
  · rw [FeeState.staleThreshold_of_updateVolatility hupdate]

/-- A call that the factory does not sign leaves the pair as directed. -/
theorem asDirected_of_exec {op : Op Address} {state : PairStorage Address}
    (hstate : w.pair.pairState = some state) (hfactory : env.auth state.factory = false)
    (hexec : exec w (env, op) = .ok w') : AsDirected w w' := by
  cases callEffect_of_exec hexec with
  | initializePair hnone => cases hstate.symm.trans hnone
  | mint hmint =>
      rw [hmint.result]
      exact .of_pair rfl rfl rfl rfl
  | mintWithOneToken hmint =>
      obtain ⟨-, -, hpulled, -⟩ := moveToken_ok hmint.pull
      obtain ⟨_, _, _, _, _, _, hswap⟩ := swapIntoPair_ok hmint.swap
      have hswapped := asDirected_of_swap (sameFlags_of_swapIntoPair hmint.swap) hswap
      have hbefore : AsDirected w _ := AsDirected.of_pair (by rw [hpulled]) (by rw [hpulled]) (by rw [hpulled]) rfl
      rw [hmint.result]
      exact (hbefore.trans hswapped).trans (.of_pair rfl rfl rfl rfl)
  | depositLp hdeposit =>
      rw [hdeposit.result]
      exact .of_pair rfl rfl rfl rfl
  | burn hburn =>
      rw [hburn.result]
      exact .of_pair rfl rfl rfl rfl
  | burnSingleSide hburn => exact .of_pair (by rw [hburn.pair']) (by rw [hburn.pair']) (by rw [hburn.pair']) rfl
  | swap hswap =>
      simp only [exec, bind_eq_ok, pure_eq_ok] at hexec
      obtain ⟨⟨_, _⟩, hcall, rfl⟩ := hexec
      exact asDirected_of_swap (sameFlags_of_swap hcall) hswap
  | flashLoan hloan =>
      rw [hloan.result]
      exact .of_pair rfl rfl rfl rfl
  | emptyFlashLoan hresult =>
      rw [hresult]
      exact .refl w
  | sync _ hresult =>
      rw [hresult]
      exact .of_pair rfl rfl rfl rfl
  | setStaleThreshold =>
      simp only [exec, setStaleThreshold, bind_eq_ok, require_eq_ok, World.getPairState_eq_ok] at hexec
      obtain ⟨state', hstate', _, -, _, hauth, -⟩ := hexec
      obtain rfl := Option.some.inj (hstate'.symm.trans hstate)
      cases hfactory.symm.trans hauth
  | setLpTokenPaused =>
      simp only [exec, setLpTokenPaused, bind_eq_ok, require_eq_ok, World.getPairState_eq_ok] at hexec
      obtain ⟨state', hstate', _, hauth, -⟩ := hexec
      obtain rfl := Option.some.inj (hstate'.symm.trans hstate)
      cases hfactory.symm.trans hauth
  | setFrozen => cases hfactory.symm.trans (auth_of_setFrozen hstate hexec)
  | external heffect =>
      have hframe := outsideFrame_of_external heffect
      exact .of_pair (by rw [hframe.pair]) (by rw [hframe.pair]) (by rw [hframe.pair]) rfl

end Pair

/-! ### What a minority can do to the factory -/

namespace Protocol

variable {Address : Type} [LinearOrder Address]
variable {d : Deployment Address} {env : ProtocolEnv Address} {p p' p'' : Protocol Address}
variable {silent : Address → Bool} {storage : FactoryStorage Address}

omit [LinearOrder Address] in
/-- The fee setter is silent, and the signers who are not are no majority. -/
structure Withheld [DecidableEq Address] (silent : Address → Bool) (storage : FactoryStorage Address) : Prop where
  setter : silent storage.feeToSetter = true
  signers : 2 * (storage.signers.dedup.filter fun signer => !silent signer).length ≤ storage.signers.length

/-- The silent sign nothing. -/
def Silent (silent : Address → Bool) (env : ProtocolEnv Address) : Prop :=
  ∀ who, silent who = true → env.auth who = false

theorem Withheld.no_quorum (hwithheld : Withheld silent storage) (hsilent : Silent silent env)
    {signers : List Address} :
    Factory.verifyMultisig env.toFactoryEnv storage.signers signers ≠ .ok () := by
  intro hverified
  obtain ⟨-, hquorum, hauth⟩ := Factory.verifyMultisig_eq_ok.mp hverified
  have hhalf := hquorum.half_of_filter (p := fun signer => !silent signer) fun signer hsigner => by
    cases hspeaks : silent signer with
    | false => rfl
    | true => cases (hsilent signer hspeaks).symm.trans (hauth signer hsigner)
  have hminority := hwithheld.signers
  omega

theorem Withheld.no_quorumSigned (hwithheld : Withheld silent storage) (hsilent : Silent silent env)
    (hstored : p.factory.storage = some storage) (signers : List Address) : ¬QuorumSigned env p signers := by
  rintro ⟨before, hbefore, hverified⟩
  obtain rfl := Option.some.inj (hstored.symm.trans hbefore)
  exact hwithheld.no_quorum hsilent hverified

theorem Withheld.no_setter (hwithheld : Withheld silent storage) (hsilent : Silent silent env)
    (hstored : p.factory.storage = some storage) {setter : Address} {storage' : FactoryStorage Address} :
    Factory.requireSetter env.toFactoryEnv p.factory.toFactory setter ≠ .ok storage' := by
  intro hguard
  obtain ⟨hstored', hauth, rfl⟩ := Factory.requireSetter_ok hguard
  obtain rfl := Option.some.inj (hstored'.symm.trans hstored)
  cases (hsilent _ hwithheld.setter).symm.trans hauth

/-- No freeze or unfreeze is authorised. -/
theorem Withheld.not_authorizes (hwithheld : Withheld silent storage) (hsilent : Silent silent env)
    (hstored : p.factory.storage = some storage) (signers : List Address) (frozen : Bool) :
    authorizes env p signers frozen ≠ .ok () := by
  intro hauth
  cases frozen with
  | false => exact hwithheld.no_quorumSigned hsilent hstored signers (signed_of_authorizeUnfreeze hauth)
  | true =>
      rcases signed_of_authorizeFreeze hauth with ⟨before, hbefore, -, hsigned⟩ | hsigned
      · obtain rfl := Option.some.inj (hstored.symm.trans hbefore)
        cases (hsilent _ hwithheld.setter).symm.trans hsigned
      · exact hwithheld.no_quorumSigned hsilent hstored signers hsigned

/-- No call that writes the factory's record goes through. -/
theorem Withheld.not_records (hwithheld : Withheld silent storage) (hsilent : Silent silent env)
    (hstored : p.factory.storage = some storage) {call : Factory.Op Address} {f : Factory Address} :
    Factory.exec p.factory.toFactory (env.toFactoryEnv, call) ≠ .ok f := by
  intro hcall
  cases Factory.recordEffect_of_exec hcall with
  | initialized hnone => cases hstored.symm.trans hnone
  | paused _ _ hbefore hquorum =>
      obtain rfl := Option.some.inj (hstored.symm.trans hbefore)
      exact hwithheld.no_quorum hsilent hquorum
  | feesSet _ hguard => exact hwithheld.no_setter hsilent hstored hguard
  | setterSet hguard => exact hwithheld.no_setter hsilent hstored hguard
  | overrideSet hguard => exact hwithheld.no_setter hsilent hstored hguard

/-- What is governed is as it was: the record but for the number of pairs, the fee overrides, the freezes, the
upgrade and the code, and every pool. -/
structure Governed (p p' : Protocol Address) : Prop where
  storage : ∀ storage, p.factory.storage = some storage →
    ∃ pairCount, p'.factory.storage = some { storage with pairCount }
  pairFeeOverride : p'.factory.pairFeeOverride = p.factory.pairFeeOverride
  pairFrozen : p'.factory.pairFrozen = p.factory.pairFrozen
  pendingUpgrade : p'.factory.pendingUpgrade = p.factory.pendingUpgrade
  installedWasm : p'.factory.installedWasm = p.factory.installedWasm
  pools : ∀ pair w, p.pool pair = some w → ∃ w', p'.pool pair = some w' ∧ AsDirected w w'

omit [LinearOrder Address] in
theorem Governed.refl (p : Protocol Address) : Governed p p where
  storage storage hstored := ⟨storage.pairCount, hstored⟩
  pairFeeOverride := rfl
  pairFrozen := rfl
  pendingUpgrade := rfl
  installedWasm := rfl
  pools _ w hpool := ⟨w, hpool, .refl w⟩

omit [LinearOrder Address] in
theorem Governed.trans (hfirst : Governed p p') (hsecond : Governed p' p'') : Governed p p'' where
  storage storage hstored := by
    obtain ⟨_, hmiddle⟩ := hfirst.storage storage hstored
    obtain ⟨pairCount, hend⟩ := hsecond.storage _ hmiddle
    exact ⟨pairCount, hend⟩
  pairFeeOverride := hsecond.pairFeeOverride.trans hfirst.pairFeeOverride
  pairFrozen := hsecond.pairFrozen.trans hfirst.pairFrozen
  pendingUpgrade := hsecond.pendingUpgrade.trans hfirst.pendingUpgrade
  installedWasm := hsecond.installedWasm.trans hfirst.installedWasm
  pools pair w hpool := by
    obtain ⟨w', hpool', hdirected⟩ := hfirst.pools pair w hpool
    obtain ⟨w'', hpool'', hdirected'⟩ := hsecond.pools pair w' hpool'
    exact ⟨w'', hpool'', hdirected.trans hdirected'⟩

/-- A call that leaves the factory alone, and changes one pool. -/
theorem Governed.of_pool {pair : Address} {w w' : World Address} (hpool : p.pool pair = some w)
    (hdirected : AsDirected w w') : Governed p (p.setPool pair w') where
  storage storage hstored := ⟨storage.pairCount, hstored⟩
  pairFeeOverride := rfl
  pairFrozen := rfl
  pendingUpgrade := rfl
  installedWasm := rfl
  pools other v hother := by
    by_cases hsame : other = pair
    · subst hsame
      obtain rfl := Option.some.inj (hpool.symm.trans hother)
      exact ⟨w', pool_setPool_self _ _, hdirected⟩
    · exact ⟨v, (pool_setPool_of_ne hsame w').trans hother, .refl v⟩

theorem governed_of_creates (hregistered : Registered d p)
    {tokenA tokenB token0 token1 pair lpToken : Address} {w : World Address}
    (hcreate : Creates d env p tokenA tokenB token0 token1 pair lpToken storage w p') : Governed p p' where
  storage storage' hstored := by
    obtain rfl := Option.some.inj (hstored.symm.trans hcreate.stored)
    exact ⟨_, by rw [hcreate.result]; rfl⟩
  pairFeeOverride := by rw [hcreate.result]; rfl
  pairFrozen := by rw [hcreate.result]; rfl
  pendingUpgrade := by rw [hcreate.result]; rfl
  installedWasm := by rw [hcreate.result]; rfl
  pools other v hother := by
    refine ⟨v, ?_, .refl v⟩
    rw [hcreate.pool_of_ne, hother]
    rintro rfl
    have hlisted := (hregistered.pool other).mp (by rw [hother]; rfl)
    cases (hregistered.occupied other hlisted).symm.trans hcreate.free

/-- **One call.** -/
theorem governed_of_exec (hregistered : Registered d p) (hstored : p.factory.storage = some storage)
    (hpending : p.factory.pendingUpgrade = none) (hwithheld : Withheld silent storage)
    (hsilent : Silent silent env) {op : Op Address} (hexec : exec d p (env, op) = .ok p') : Governed p p' := by
  cases op with
  | factory call =>
      simp only [exec, recordCall, bind_eq_ok, mapCode_eq_ok] at hexec
      obtain ⟨f, hcall, -⟩ := hexec
      exact (hwithheld.not_records hsilent hstored hcall).elim
  | resume signers =>
      simp only [exec, recordCall, bind_eq_ok, mapCode_eq_ok] at hexec
      obtain ⟨f, hcall, -⟩ := hexec
      have hunpause : Factory.exec p.factory.toFactory (env.toFactoryEnv, .unpause signers) = .ok f := hcall
      exact (hwithheld.not_records hsilent hstored hunpause).elim
  | sync =>
      simp only [exec, factoryCall, FactoryContract.sync, bind_eq_ok, mapCode_eq_ok, pure_eq_ok] at hexec
      obtain ⟨_, ⟨-, -, rfl⟩, rfl⟩ := hexec
      exact .refl p
  | createPair tokenA tokenB =>
      obtain ⟨pair, hcreated⟩ := exec_createPair_ok hexec
      obtain ⟨token0, token1, lpToken, before, w, hcreate⟩ := createPair_ok hcreated
      exact governed_of_creates hregistered hcreate
  | freezePair signers pair =>
      simp only [exec, freezePair, mapCode_eq_ok, bind_eq_ok] at hexec
      obtain ⟨_, hauth, -⟩ := hexec
      exact (hwithheld.not_authorizes hsilent hstored signers true hauth).elim
  | unfreezePair signers pair =>
      simp only [exec, unfreezePair, mapCode_eq_ok, bind_eq_ok] at hexec
      obtain ⟨_, hauth, -⟩ := hexec
      exact (hwithheld.not_authorizes hsilent hstored signers false hauth).elim
  | setPairLpTokenPaused setter pair paused =>
      simp only [exec, setPairLpTokenPaused, mapCode_eq_ok, bind_eq_ok] at hexec
      obtain ⟨_, hguard, -⟩ := hexec
      exact (hwithheld.no_setter hsilent hstored hguard).elim
  | setPairStaleThreshold setter pair threshold =>
      simp only [exec, setPairStaleThreshold, mapCode_eq_ok, bind_eq_ok] at hexec
      obtain ⟨_, hguard, -⟩ := hexec
      exact (hwithheld.no_setter hsilent hstored hguard).elim
  | depositProtocolFee pair token amount =>
      simp only [exec, factoryCall, FactoryContract.depositProtocolFee, bind_eq_ok, mapCode_eq_ok,
        pure_eq_ok] at hexec
      obtain ⟨_, ⟨-, -, -, -, -, -, -, -, -, -, _, -, rfl⟩, rfl⟩ := hexec
      exact ⟨fun storage hstored => ⟨storage.pairCount, hstored⟩, rfl, rfl, rfl, rfl,
        fun _ w hpool => ⟨w, hpool, .refl w⟩⟩
  | proposeUpgrade signers newWasmHash =>
      exact (hwithheld.no_quorumSigned hsilent hstored signers (proposeUpgrade_ok hexec).1).elim
  | executeUpgrade =>
      obtain ⟨proposal, hproposed, -⟩ := executeUpgrade_ok hexec
      cases hpending.symm.trans hproposed
  | cancelUpgrade signers =>
      obtain ⟨proposal, hproposed, -⟩ := cancelUpgrade_ok hexec
      cases hpending.symm.trans hproposed
  | pair pair op =>
      rcases callPair_ok (mapCode_eq_ok.mp hexec) with ⟨w, w', hcall⟩ | ⟨-, rfl⟩
      · obtain ⟨state, hstate, hfactory, -⟩ := hregistered.opened pair w hcall.pool
        rw [hcall.result]
        refine .of_pool hcall.pool (asDirected_of_exec hstate ?_ hcall.called)
        simp [pairEnv, hfactory]
      · exact .refl p'
  | initializeLpToken pair admin decimals name symbol =>
      cases effect_of_exec hexec with
      | still hop _ => simp [Op.asPairCall] at hop
      | reinitialized hpool _ hresult =>
          rw [hresult]
          exact .of_pool hpool (.of_pair rfl rfl rfl rfl)
      | recorded hop _ _ => simp at hop
      | froze hop _ _ _ _ => cases hop
      | froze_unknown hop _ _ _ => cases hop
      | called hop _ => cases hop

/-- **A minority changes nothing.** From any state the protocol reaches with no upgrade pending, as long as the fee
setter and so many signers do not sign that the others are no majority, a run of any calls by anybody leaves the
factory's record, the fee overrides, the freezes and the code as they are, and every pool as directed. -/
theorem minority_changes_nothing (d : Deployment Address) (first rest : List (ProtocolCall Address))
    (hstored : (after d first).factory.storage = some storage)
    (hpending : (after d first).factory.pendingUpgrade = none) (hwithheld : Withheld silent storage)
    (hsilent : ∀ call ∈ rest, Silent silent call.1) : Governed (after d first) (after d (first ++ rest)) := by
  have hsplit : after d (first ++ rest) = (machine d).run (after d first) rest := Machine.run_append ..
  rw [hsplit]
  refine (Machine.run_invariant (m := machine d)
    (I := fun p => PoolsReachable p ∧ Registered d p ∧ Governed (after d first) p) ?_
    ⟨poolsReachable d first, registered_after d first, .refl _⟩
    (Machine.along_of_forall_mem hsilent _)).2.2
  rintro p ⟨env, op⟩ p' ⟨hreach, hregistered, hgoverned⟩ hcall hexec
  obtain ⟨pairCount, hstored'⟩ := hgoverned.storage storage hstored
  have hwithheld' : Withheld silent { storage with pairCount } := ⟨hwithheld.setter, hwithheld.signers⟩
  have hpending' := hgoverned.pendingUpgrade.trans hpending
  exact ⟨poolsReachable_of_exec hreach hexec, registered_of_exec hreach hregistered hexec,
    hgoverned.trans (governed_of_exec hregistered hstored' hpending' hwithheld' hcall hexec)⟩

/-- Everyone but the one signer of a factory opens a pool. -/
theorem minority_changes_nothing_nestingCalls :
    let others : ProtocolEnv ℕ := { openEnv with auth := fun who => who ≠ 1 }
    Governed (after plainDeployment (nestingCalls.take 1))
      (after plainDeployment (nestingCalls.take 1 ++ [(others, .createPair 1 2)])) := by
  have hwithheld : Withheld (fun who => decide (who = 1))
      ⟨[1], .replicate 32 0, .replicate 32 0, .replicate 32 0, 0, 1, false, none, 1, 0⟩ := ⟨rfl, by decide⟩
  refine minority_changes_nothing plainDeployment _ _ rfl rfl hwithheld ?_
  rintro call hcall who hwho
  obtain rfl := List.mem_singleton.mp hcall
  simpa using hwho

end Protocol

end CoralSwap
