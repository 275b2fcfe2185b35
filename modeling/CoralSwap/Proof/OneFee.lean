import CoralSwap.Proof.PairEffects

/-!
# The rates of the four entry points

A swap charges the factory's override or the decayed dynamic fee. The view takes the override too but
does not decay; the single-sided operations do neither. The four rates are one exactly when neither
mechanism is at work, or when what it does happens not to move the rate.
-/

namespace CoralSwap

open Host Host.Call

variable {Address : Type} [DecidableEq Address] {contract : Address}

structure OneFee (env : Env contract) (w : World Address) (feeBps : ℕ) : Prop where
  swap : chargedFeeBps env w = .ok feeBps
  view : ∃ isOverride, getEffectiveFeeBps env w = .ok (feeBps, isOverride)
  burnSingleSide : ∀ fs, w.pair.feeState = some fs → burnSingleSideFeeBps fs = feeBps
  mintWithOneToken : ∀ fs, w.pair.feeState = some fs → mintWithOneTokenFeeBps fs = feeBps

def Env.Overrides (env : Env contract) (overrideBps : ℕ) : Prop :=
  env.factory.getPairFeeOverride = some (some overrideBps) ∧ 0 < overrideBps

/-- An override equals the dynamic fee as it is stored; without one, the decay due at this ledger
does not move the dynamic fee. -/
structure RateUnmoved (env : Env contract) (fs : FeeState) : Prop where
  override : ∀ overrideBps, env.Overrides overrideBps → overrideBps = fs.computeFeeBps
  decay : (∀ overrideBps, ¬env.Overrides overrideBps) → ∀ decayed,
    fs.decayStaleEma env = .ok decayed → decayed.computeFeeBps = fs.computeFeeBps

section State

variable {env : Env contract} {w : World Address} {fs : FeeState}

omit [DecidableEq Address]

theorem effectiveFeeBps_of_overrides {overrideBps dynamicFeeBps : ℕ}
    (hoverride : env.Overrides overrideBps) : env.effectiveFeeBps dynamicFeeBps = overrideBps := by
  obtain ⟨hanswer, hpositive⟩ := hoverride
  simp [Env.effectiveFeeBps, hanswer, hpositive]

theorem effectiveFeeBps_of_not_overrides {dynamicFeeBps : ℕ}
    (hnone : ∀ overrideBps, ¬env.Overrides overrideBps) :
    env.effectiveFeeBps dynamicFeeBps = dynamicFeeBps := by
  unfold Env.effectiveFeeBps
  split
  · rename_i overrideBps hanswer
    exact if_neg fun hpositive => hnone overrideBps ⟨hanswer, hpositive⟩
  · rfl

theorem getEffectiveFeeBps_eq (env : Env contract) (hinit : w.pair.pairState.isSome = true)
    (hfs : w.pair.feeState = some fs) :
    ∃ isOverride, getEffectiveFeeBps env w = .ok (env.effectiveFeeBps fs.computeFeeBps, isOverride) := by
  obtain ⟨state, hstate⟩ := Option.isSome_iff_exists.mp hinit
  simp only [getEffectiveFeeBps, Env.effectiveFeeBps, bind_eq_ok, World.getPairState_eq_ok,
    World.getFeeState_eq_ok]
  rcases hoverride : env.factory.getPairFeeOverride with _ | _ | overrideBps
  · exact ⟨false, state, hstate, fs, hfs, rfl⟩
  · exact ⟨false, state, hstate, fs, hfs, rfl⟩
  · by_cases hpositive : 0 < overrideBps
    · exact ⟨true, state, hstate, fs, hfs, by simp [hpositive, pure, Except.pure]⟩
    · exact ⟨false, state, hstate, fs, hfs, by simp [hpositive, pure, Except.pure]⟩

theorem rateUnmoved_iff {decayed : FeeState} (hdecay : fs.decayStaleEma env = .ok decayed) :
    RateUnmoved env fs ↔ env.effectiveFeeBps decayed.computeFeeBps = fs.computeFeeBps := by
  by_cases hoverride : ∃ overrideBps, env.Overrides overrideBps
  · obtain ⟨overrideBps, hoverride⟩ := hoverride
    rw [effectiveFeeBps_of_overrides hoverride]
    constructor
    · intro hunmoved
      exact hunmoved.override overrideBps hoverride
    · intro heq
      refine ⟨fun other hother => ?_, fun hnone => absurd hoverride (hnone overrideBps)⟩
      exact (Option.some.inj (Option.some.inj (hother.1.symm.trans hoverride.1))).trans heq
  · have hnone := not_exists.mp hoverride
    rw [effectiveFeeBps_of_not_overrides hnone]
    constructor
    · intro hunmoved
      exact hunmoved.decay hnone decayed hdecay
    · intro heq
      refine ⟨fun other hother => absurd hother (hnone other), fun _ d hd => ?_⟩
      rw [Except.ok.inj (hd.symm.trans hdecay)]
      exact heq

theorem effectiveFeeBps_of_eq {dynamicFeeBps : ℕ} {decayed : FeeState}
    (heq : env.effectiveFeeBps decayed.computeFeeBps = dynamicFeeBps) :
    env.effectiveFeeBps dynamicFeeBps = dynamicFeeBps := by
  by_cases hoverride : ∃ overrideBps, env.Overrides overrideBps
  · obtain ⟨overrideBps, hoverride⟩ := hoverride
    rw [effectiveFeeBps_of_overrides hoverride] at heq ⊢
    exact heq
  · exact effectiveFeeBps_of_not_overrides (not_exists.mp hoverride)

end State

omit [DecidableEq Address] in
/-- **One fee.** At a ledger where a swap would be charged `feeBps`, the view and both single-sided
operations use the same rate exactly when nothing moves the rate. -/
theorem oneFee_iff {env : Env contract} {w : World Address} {fs : FeeState} {feeBps : ℕ}
    (hinit : w.pair.pairState.isSome = true) (hfs : w.pair.feeState = some fs)
    (hcharged : chargedFeeBps env w = .ok feeBps) : OneFee env w feeBps ↔ RateUnmoved env fs := by
  obtain ⟨stored, decayed, hstored, hdecay, hfee⟩ := chargedFeeBps_ok.mp hcharged
  obtain rfl : stored = fs := Option.some.inj (hstored.symm.trans hfs)
  rw [rateUnmoved_iff hdecay, hfee]
  constructor
  · intro hone
    exact (hone.burnSingleSide stored hfs).symm
  · rintro rfl
    refine ⟨hcharged, ?_, ?_, ?_⟩
    · obtain ⟨isOverride, hview⟩ := getEffectiveFeeBps_eq env hinit hfs
      rw [effectiveFeeBps_of_eq hfee] at hview
      exact ⟨isOverride, hview⟩
    · intro fs hfs'
      rw [Option.some.inj (hfs'.symm.trans hfs)]
      rfl
    · intro fs hfs'
      rw [Option.some.inj (hfs'.symm.trans hfs)]
      rfl

theorem oneFee_iff_opened :
    let env : Env 0 := Env.quiet 0 1 5 none
    OneFee env (openedPool env 100000 100000) 30 ↔ RateUnmoved env FeeState.initial :=
  oneFee_iff (by decide +kernel) (by rfl) (by decide +kernel)

/-- After a large swap the stored dynamic fee is 100. Once the pool has been idle a swap is charged
30, while the view still reports 100 and the single-sided operations use it. -/
theorem oneFee_fails_after_idling :
    ¬∀ (env : Env (0 : ℕ)) (w : World ℕ) (feeBps : ℕ), Reachable 0 w →
      chargedFeeBps env w = .ok feeBps → OneFee env w feeBps := by
  intro hlaw
  let busy : Env 0 := Env.quiet 0 1 5 none
  let idle : Env 0 := Env.quiet 0 10000 5 none
  let calls : List (PairCall 0) :=
    openingCalls busy 9 10 11 12 1 100000 100000 ++
      [(busy, .external (.transferA 1 0 50000)), (busy, .swap 0 33000 1)]
  let start : World ℕ := World.deployed 0 (.issued 1 1000000 (by decide))
    (.issued 1 1000000 (by decide))
  have hone := hlaw idle ((pairMachine 0).run start calls) 30 ⟨_, _, calls, rfl⟩ (by decide +kernel)
  obtain ⟨isOverride, hview⟩ := hone.view
  have hreported : getEffectiveFeeBps idle ((pairMachine 0).run start calls) = .ok (100, false) := by
    decide +kernel
  rw [hreported] at hview
  simp at hview

end CoralSwap
