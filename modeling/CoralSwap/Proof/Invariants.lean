import CoralSwap.Proof.FactoryFees
import CoralSwap.Proof.PairEffects

/-!
# What every reachable pair keeps

The cap of the dynamic fee is what `initialize` stored, and the pair remains the admin of its LP
token. With a factory whose overrides are bounded, no swap is ever charged more than 1%.
-/

namespace CoralSwap

open Host Host.Call

variable {Address : Type} [DecidableEq Address] {contract : Address}

/-! ### The dynamic fee -/

section Call

variable {env : Env contract} {w w' : World Address}

omit [DecidableEq Address] in
/-- A swap whose prices are defined updates the volatility, if the update goes through. -/
theorem trackVolatility_ok {fs fs' : FeeState} {before after : PairStorage Address}
    {amountAIn amountBIn : ℤ}
    (htrack : trackVolatility env fs before after amountAIn amountBIn = .ok fs') :
    fs' = fs ∨ ∃ priceDeltaAbs tradeSize totalReserve,
      fs.updateVolatility env priceDeltaAbs tradeSize totalReserve = .ok fs' := by
  unfold trackVolatility at htrack
  split at htrack
  · simp only [bind_eq_ok] at htrack
    obtain ⟨_, -, htrack⟩ := htrack
    split at htrack
    · rename_i hupdate
      obtain rfl := pure_eq_ok.mp htrack
      exact .inr ⟨_, _, _, hupdate⟩
    · exact .inl (pure_eq_ok.mp htrack).symm
    · cases htrack
  · exact .inl (pure_eq_ok.mp htrack).symm

variable (env) in
/-- A property of fee states that holds at first and that every write to one keeps. -/
structure FeeInvariant (P : FeeState → Prop) : Prop where
  initial : P .initial
  decay : ∀ fs fs', P fs → fs.decayStaleEma env = .ok fs' → P fs'
  update : ∀ fs fs' priceDeltaAbs tradeSize totalReserve, P fs →
    fs.updateVolatility env priceDeltaAbs tradeSize totalReserve = .ok fs' → P fs'
  threshold : ∀ fs staleThreshold, P fs → P { fs with staleThreshold }

namespace FeeInvariant

variable {P : FeeState → Prop}

omit [DecidableEq Address] in
theorem track {fs fs' : FeeState} {before after : PairStorage Address} {amountAIn amountBIn : ℤ}
    (hinv : FeeInvariant env P) (hfs : P fs)
    (htrack : trackVolatility env fs before after amountAIn amountBIn = .ok fs') : P fs' := by
  rcases trackVolatility_ok htrack with rfl | ⟨_, _, _, hupdate⟩
  · exact hfs
  · exact hinv.update fs fs' _ _ _ hfs hupdate

theorem swap {amountAOut amountBOut : ℤ} {dst : Address} {before after : PairStorage Address}
    {stored decayed : FeeState} {paidA paidB : Token Address} {event : SwapEvent}
    (hinv : FeeInvariant env P) (hstored : ∀ fs, w.pair.feeState = some fs → P fs)
    (hswap : SwapSettles env w amountAOut amountBOut dst before after stored decayed paidA paidB w'
      event) : ∀ fs, w'.pair.feeState = some fs → P fs := by
  obtain ⟨tracked, htracked, hfs'⟩ := hswap.tracked
  intro fs hfs
  obtain rfl : tracked = fs := Option.some.inj (hfs'.symm.trans hfs)
  exact hinv.track (hinv.decay stored decayed (hstored stored hswap.feeState) hswap.decay) htracked

/-- **Step.** Only swaps, a new threshold and the initialization write the fee state. -/
theorem exec {op : Op Address} (hinv : FeeInvariant env P)
    (hstored : ∀ fs, w.pair.feeState = some fs → P fs) (hexec : exec w (env, op) = .ok w') :
    ∀ fs, w'.pair.feeState = some fs → P fs := by
  have hkept : w'.pair.feeState = w.pair.feeState → ∀ fs, w'.pair.feeState = some fs → P fs :=
    fun heq fs hfs => hstored fs (heq ▸ hfs)
  cases callEffect_of_exec hexec with
  | initializePair hnone hne hresult =>
      subst hresult
      intro fs hfs
      rw [← Option.some.inj hfs]
      exact hinv.initial
  | mint hmint => exact hkept (by rw [hmint.result])
  | mintWithOneToken hmint =>
      obtain ⟨-, -, hpulled, -⟩ := moveToken_ok hmint.pull
      obtain ⟨_, _, _, _, _, _, hswap⟩ := swapIntoPair_ok hmint.swap
      intro fs hfs
      rw [hmint.result] at hfs
      refine hinv.swap (fun fs hfs => ?_) hswap fs hfs
      rw [hpulled] at hfs
      exact hstored fs hfs
  | depositLp hdeposit => exact hkept (by rw [hdeposit.result])
  | burn hburn => exact hkept (by rw [hburn.result])
  | burnSingleSide hburn => exact hkept (by rw [hburn.pair'])
  | swap hswap => exact hinv.swap hstored hswap
  | flashLoan hloan => exact hkept (by rw [hloan.result])
  | emptyFlashLoan hresult => exact hkept (by rw [hresult])
  | sync hstate hresult => exact hkept (by rw [hresult])
  | setStaleThreshold hfs hresult =>
      subst hresult
      intro fs' hfs'
      rw [← Option.some.inj hfs']
      exact hinv.threshold _ _ (hstored _ hfs)
  | setLpTokenPaused hlp hresult => exact hkept (by rw [hresult])
  | setFrozen hresult => exact hkept (by rw [hresult])
  | external heffect => exact hkept (by rw [(outsideFrame_of_external heffect).pair])

end FeeInvariant

def FeeCapped (w : World Address) : Prop :=
  ∀ fs, w.pair.feeState = some fs → fs.maxFeeBps = FeeState.initial.maxFeeBps

omit [DecidableEq Address] in
theorem FeeCapped.of_eq (hcapped : FeeCapped w) (hstate : w'.pair.feeState = w.pair.feeState) :
    FeeCapped w' := by
  intro fs hfs
  exact hcapped fs (hstate ▸ hfs)

omit [DecidableEq Address] in
theorem feeInvariant_maxFeeBps :
    FeeInvariant env fun fs => fs.maxFeeBps = FeeState.initial.maxFeeBps where
  initial := rfl
  decay _ _ hcapped hdecay := (FeeState.maxFeeBps_of_decayStaleEma hdecay).trans hcapped
  update _ _ _ _ _ hcapped hupdate := (FeeState.maxFeeBps_of_updateVolatility hupdate).trans hcapped
  threshold _ _ hcapped := hcapped

theorem feeCapped_of_exec {op : Op Address} (hcapped : FeeCapped w)
    (hexec : exec w (env, op) = .ok w') : FeeCapped w' := feeInvariant_maxFeeBps.exec hcapped hexec

/-! ### The admin of the LP token -/

theorem admin_of_external {action : External Address} (hadmin : w.lp.admin = some contract)
    (heffect : ExternalEffect contract action w w') : w'.lp.admin = some contract := by
  cases heffect with
  | movedA => exact hadmin
  | movedB => exact hadmin
  | calledLp hauth hcall =>
      refine (LpToken.frame_of_exec hcall).admin contract hadmin ?_
      rw [hauth]
      exact Bool.false_ne_true

theorem admin_of_run {actions : List (External Address)} (hadmin : w.lp.admin = some contract) :
    ((externalMachine contract).run w actions).lp.admin = some contract :=
  Machine.run_invariant_all (m := externalMachine contract)
    (I := fun w => w.lp.admin = some contract)
    (fun _ _ _ hadmin hexec => admin_of_external hadmin (external_ok hexec)) hadmin actions

theorem admin_of_exec {op : Op Address} (hadmin : w.lp.admin = some contract)
    (hexec : exec w (env, op) = .ok w') : w'.lp.admin = some contract := by
  cases callEffect_of_exec hexec with
  | initializePair hnone hne hresult => rwa [hresult]
  | mint hmint =>
      obtain ⟨-, -, -, hlp⟩ := LpToken.mint_ok hmint.minted
      rw [hmint.result, hlp]
      obtain ⟨-, hseed⟩ | ⟨-, rfl, -⟩ := mintedLiquidity_ok hmint.priced
      · obtain ⟨-, -, -, rfl⟩ := LpToken.mint_ok hseed
        exact hadmin
      · exact hadmin
  | mintWithOneToken hmint =>
      obtain ⟨-, -, -, hpulled⟩ := moveToken_ok hmint.pull
      obtain ⟨_, _, _, _, _, _, hswap⟩ := swapIntoPair_ok hmint.swap
      obtain ⟨-, -, -, hlp⟩ := LpToken.mint_ok hmint.minted
      rw [hmint.result, hlp, hswap.frame.1, hpulled]
      exact hadmin
  | depositLp hdeposit =>
      obtain ⟨-, -, -, hlp⟩ := LpToken.transfer_ok hdeposit.moved
      rw [hdeposit.result, hlp]
      exact hadmin
  | burn hburn =>
      obtain ⟨-, -, hlp⟩ := LpToken.burn_ok hburn.burned
      rw [hburn.result, hlp]
      exact hadmin
  | burnSingleSide hburn =>
      obtain ⟨-, -, hlp⟩ := LpToken.burn_ok hburn.burned
      rw [hburn.lp', hlp]
      exact hadmin
  | swap hswap => rwa [hswap.frame.1]
  | flashLoan hloan =>
      rw [hloan.result, hloan.called_eq]
      exact admin_of_run hadmin
  | emptyFlashLoan hresult => rwa [hresult]
  | sync hstate hresult => rwa [hresult]
  | setStaleThreshold hfs hresult => rwa [hresult]
  | setLpTokenPaused hlp hresult =>
      obtain ⟨-, hpaused⟩ := LpToken.setPaused_ok hlp
      rw [hresult, hpaused]
      exact hadmin
  | setFrozen hresult => rwa [hresult]
  | external heffect => exact admin_of_external hadmin heffect

/-! ### The lock -/

/-- The lock is free again after every accepted call. -/
theorem unlocked_of_exec {op : Op Address} (hunlocked : w.pair.locked = false)
    (hexec : exec w (env, op) = .ok w') : w'.pair.locked = false := by
  cases callEffect_of_exec hexec with
  | initializePair hnone hne hresult => rw [hresult]
  | mint hmint => rw [hmint.result]
  | mintWithOneToken hmint => rw [hmint.result]
  | depositLp hdeposit => rw [hdeposit.result]
  | burn hburn => rw [hburn.result]
  | burnSingleSide hburn => rw [hburn.pair']
  | swap hswap => exact hswap.frame.2.2.2.trans hunlocked
  | flashLoan hloan =>
      rw [hloan.result]
      exact hunlocked
  | emptyFlashLoan hresult => rwa [hresult]
  | sync hstate hresult => rw [hresult]
  | setStaleThreshold hfs hresult =>
      rw [hresult]
      exact hunlocked
  | setLpTokenPaused hlp hresult => rwa [hresult]
  | setFrozen hresult => rwa [hresult]
  | external heffect => rwa [(outsideFrame_of_external heffect).pair]

end Call

/-! ### Reachable pairs -/

theorem unlocked_of_reachable {w : World Address} (hreach : Reachable contract w) :
    w.pair.locked = false :=
  hreach.induction (fun _ _ => rfl) fun _ _ _ hunlocked hexec => unlocked_of_exec hunlocked hexec

theorem feeCapped_of_reachable {w : World Address} (hreach : Reachable contract w) : FeeCapped w :=
  hreach.induction (fun _ _ _ hnone => by cases hnone)
    fun _ _ _ hcapped hexec => feeCapped_of_exec hcapped hexec

theorem admin_of_reachable {w : World Address} (hreach : Reachable contract w) :
    w.lp.admin = some contract :=
  hreach.induction (fun _ _ => rfl) fun _ _ _ hadmin hexec => admin_of_exec hadmin hexec

/-! ### The rate charged -/

/-- The override this pair is told is that of a factory, or the query failed. -/
def Env.Governed (env : Env contract) : Prop :=
  env.factory.getPairFeeOverride = none ∨
    ∃ f, Factory.Reachable f ∧ env.factory.getPairFeeOverride = some (f.getPairFeeOverride contract)

/-- **The cap.** No swap is charged more than 1%. -/
theorem chargedFeeBps_le {env : Env contract} {w : World Address} {feeBps : ℕ}
    (hgoverned : env.Governed) (hcapped : FeeCapped w) (hcharged : chargedFeeBps env w = .ok feeBps) :
    feeBps ≤ maxPairFeeBps := by
  obtain ⟨stored, decayed, hstored, hdecay, rfl⟩ := chargedFeeBps_ok.mp hcharged
  have hdynamic : decayed.computeFeeBps ≤ maxPairFeeBps := by
    refine decayed.computeFeeBps_le_max.trans (le_of_eq ?_)
    rw [FeeState.maxFeeBps_of_decayStaleEma hdecay, hcapped stored hstored]
    rfl
  unfold Env.effectiveFeeBps
  split
  · rename_i overrideBps hanswer
    obtain hnone | ⟨f, hreach, hserved⟩ := hgoverned
    · cases hnone.symm.trans hanswer
    · have hstored := Option.some.inj (hserved.symm.trans hanswer)
      split
      · exact ((Factory.feesBounded_of_reachable hreach).override contract _ hstored).2
      · exact hdynamic
  · exact hdynamic

end CoralSwap
