import CoralSwap.Proof.FeeBounds
import CoralSwap.Proof.PairRegistry
import CoralSwap.Proof.SwapRequests

/-!
# The fees of the protocol

The fee setter writes the rates, the pools compute theirs. Whatever the order of their calls, every rate
a pool charges is between its bounds, and what the protocol takes of an input is at most its share of the
fee on it.
-/

namespace CoralSwap

open Host Host.Call

section Pair

variable {Address : Type} [DecidableEq Address] {contract : Address}
variable {env : Env contract} {w swapped : World Address} {op : Op Address}
variable {request : SwapRequest Address} {event : SwapEvent}

/-! ### The rate -/

/-- A rate between 1 and 100 basis points, and within the configured bounds unless the factory
overrides it. -/
structure RateHeld (env : Env contract) (fs : FeeState) (feeBps : ℕ) : Prop where
  positive : 1 ≤ feeBps
  capped : feeBps ≤ 100
  bounded : (∀ overrideBps, ¬env.Overrides overrideBps) → fs.minFeeBps ≤ feeBps ∧ feeBps ≤ fs.maxFeeBps

/-- The override that this pair is told, if any, is one a factory may store. -/
def Env.OverrideBounded (env : Env contract) : Prop :=
  ∀ overrideBps, env.Overrides overrideBps → overrideBps ≤ maxPairFeeBps

omit [DecidableEq Address] in
theorem rateHeld_computeFeeBps {fs fs' : FeeState} (hbounded : fs.Bounded) (hbounded' : fs'.Bounded) :
    RateHeld env fs fs'.computeFeeBps := by
  have hmin := fs'.le_computeFeeBps
  have hmax := fs'.computeFeeBps_le_max
  obtain ⟨_, _, _, rfl⟩ := hbounded.configured
  obtain ⟨_, _, _, rfl⟩ := hbounded'.configured
  have hone : 1 ≤ FeeState.initial.minFeeBps := by decide
  exact ⟨hone.trans hmin, hmax, fun _ => ⟨hmin, hmax⟩⟩

omit [DecidableEq Address] in
theorem rateHeld_effectiveFeeBps {fs decayed : FeeState} (hoverride : env.OverrideBounded)
    (hbounded : fs.Bounded) (hdecay : fs.decayStaleEma env = .ok decayed) :
    RateHeld env fs (env.effectiveFeeBps decayed.computeFeeBps) := by
  by_cases hoverrides : ∃ overrideBps, env.Overrides overrideBps
  · obtain ⟨overrideBps, hoverrides⟩ := hoverrides
    rw [effectiveFeeBps_of_overrides hoverrides]
    exact ⟨hoverrides.2, hoverride overrideBps hoverrides, fun hnone => absurd hoverrides (hnone _)⟩
  · rw [effectiveFeeBps_of_not_overrides (not_exists.mp hoverrides)]
    exact rateHeld_computeFeeBps hbounded (FeeState.bounded_of_decayStaleEma hbounded hdecay)

theorem rateHeld_of_runs {fs : FeeState} (hoverride : env.OverrideBounded) (hbounded : fs.Bounded)
    (hfs : w.pair.feeState = some fs) (hrequest : swapRequest contract w op = some request)
    (hruns : request.Runs env swapped event) : RateHeld env fs event.feeBps := by
  obtain ⟨_, _, stored, decayed, _, _, hswap⟩ := swapInner_ok hruns
  have hstart : request.start.pair.feeState = some fs := by
    rw [pair_of_swapRequest hrequest]
    exact hfs
  obtain rfl : stored = fs := Option.some.inj (hswap.feeState.symm.trans hstart)
  rw [hswap.fee]
  exact rateHeld_effectiveFeeBps hoverride hbounded hswap.decay

/-! ### The protocol's part -/

/-- What one side of a swap sends to the fee recipient, on top of what the swap pays out to it. -/
structure CutHeld (env : Env contract) (rateBps : ℕ) (dst : Address) (amountIn amountOut : ℤ)
    (feeBps : ℕ) (before after : Token Address) : Prop where
  /-- The rate's share of the fee on the input, both in basis points, bounds it. -/
  share : env.protocolFee amountIn feeBps * 100000000 ≤ amountIn * feeBps * rateBps
  received : ∀ recipient, env.protocolFeeTo = some recipient → recipient ≠ contract →
    after.balance recipient = before.balance recipient +
      (if recipient = dst then max amountOut 0 else 0) + env.protocolFee amountIn feeBps
  disabled : env.protocolFeeTo = none → env.protocolFee amountIn feeBps = 0

theorem SideSettles.cutHeld {dst : Address} {feeBps rateBps : ℕ} {reserve amountOut amountIn reserve' : ℤ}
    {before paid after : Token Address} (hrate : env.protocolFeeBps ≤ rateBps)
    (hside : SideSettles env feeBps dst reserve amountOut before paid after amountIn reserve') :
    CutHeld env rateBps dst amountIn amountOut feeBps before after := by
  have hfee : 0 ≤ amountIn * (feeBps : ℤ) := mul_nonneg hside.amountIn_nonneg (Int.natCast_nonneg _)
  constructor
  · refine (protocolFee_share_le env feeBps hside.amountIn_nonneg).trans ?_
    exact mul_le_mul_of_nonneg_left (by exact_mod_cast hrate) hfee
  · intro recipient hrecipient hne
    have hcollected := hside.collected
    rw [Env.collectProtocolFee, hrecipient] at hcollected
    rw [others_balance_of_payOut hne hcollected, others_balance_of_payOut hne hside.payout, if_pos rfl,
      max_eq_left (protocolFee_nonneg env feeBps hside.amountIn_nonneg)]
  · intro hnone
    simp [Env.protocolFee, hnone]

end Pair

namespace Protocol

variable {Address : Type} [LinearOrder Address]
variable {d : Deployment Address} {env : ProtocolEnv Address} {p p' : Protocol Address}

/-! ### The rates the factory stores -/

omit [LinearOrder Address] in
/-- The calls that leave the rates alone keep them within their bounds. -/
theorem feesBounded_of_kept {f f' : Factory Address} (hbounded : Factory.FeesBounded f)
    (hoverride : f'.pairFeeOverride = f.pairFeeOverride)
    (hstored : ∀ storage', f'.storage = some storage' → ∃ storage, f.storage = some storage ∧
      storage'.feeTo = storage.feeTo ∧ storage'.feeBps = storage.feeBps) : Factory.FeesBounded f' := by
  constructor
  · rw [hoverride]
    exact hbounded.override
  · intro storage' hstorage'
    obtain ⟨storage, hstorage, hfeeTo, hfeeBps⟩ := hstored storage' hstorage'
    rw [hfeeTo, hfeeBps]
    exact hbounded.protocol storage hstorage

theorem feesBounded_of_exec {op : Op Address} (hbounded : Factory.FeesBounded p.factory.toFactory)
    (hexec : exec d p (env, op) = .ok p') : Factory.FeesBounded p'.factory.toFactory := by
  have hsame : ∀ f' : Factory Address, f'.pairFeeOverride = p.factory.pairFeeOverride →
      f'.storage = p.factory.storage → Factory.FeesBounded f' := by
    intro f' hoverride hstorage
    refine feesBounded_of_kept hbounded hoverride fun storage' hstorage' => ?_
    exact ⟨storage', hstorage.symm.trans hstorage', rfl, rfl⟩
  cases effect_of_exec hexec with
  | recorded hop =>
      rcases hop with ⟨call, rfl⟩ | ⟨signers, rfl⟩
      · simp only [exec, recordCall, bind_eq_ok, mapCode_eq_ok, pure_eq_ok] at hexec
        obtain ⟨f, hcall, rfl⟩ := hexec
        exact Factory.feesBounded_of_exec hbounded hcall
      · simp only [exec, recordCall, bind_eq_ok, mapCode_eq_ok, pure_eq_ok] at hexec
        obtain ⟨f, hcall, rfl⟩ := hexec
        have hunpause : Factory.exec p.factory.toFactory (env.toFactoryEnv, .unpause signers) = .ok f :=
          hcall
        exact Factory.feesBounded_of_exec hbounded hunpause
  | still _ hresult =>
      subst hresult
      exact hbounded
  | created hcreate =>
      rw [hcreate.result]
      refine feesBounded_of_kept hbounded rfl fun storage' hstorage' => ?_
      obtain rfl := Option.some.inj hstorage'
      exact ⟨_, hcreate.stored, rfl, rfl⟩
  | froze _ _ _ _ hresult =>
      subst hresult
      exact hsame _ rfl rfl
  | froze_unknown _ _ _ hresult =>
      subst hresult
      exact hsame _ rfl rfl
  | deposited hresult =>
      subst hresult
      exact hsame _ rfl rfl
  | proposed _ _ _ hresult =>
      subst hresult
      exact hsame _ rfl rfl
  | executed _ _ hresult =>
      subst hresult
      refine feesBounded_of_kept hbounded rfl fun storage' hstorage' => ?_
      obtain ⟨storage, hstorage, rfl⟩ := Option.map_eq_some_iff.mp hstorage'
      exact ⟨storage, hstorage, rfl, rfl⟩
  | cancelled _ hresult =>
      subst hresult
      exact hsame _ rfl rfl
  | called _ hcall =>
      rw [hcall.result]
      exact hbounded
  | reinitialized _ _ hresult =>
      subst hresult
      exact hbounded

theorem feesBounded_after (d : Deployment Address) (calls : List (ProtocolCall Address)) :
    Factory.FeesBounded (after d calls).factory.toFactory := by
  refine Machine.run_invariant_all (m := machine d)
    (I := fun p => Factory.FeesBounded p.factory.toFactory) ?_ ⟨?_, ?_⟩ calls
  · rintro p ⟨env, op⟩ p' hbounded hexec
    exact feesBounded_of_exec hbounded hexec
  · intro pair feeBps hnone
    cases hnone
  · intro storage hnone
    cases hnone

/-! ### The whole protocol -/

theorem overrideBounded_pairEnv (hbounded : Factory.FeesBounded p.factory.toFactory) (pair : Address) :
    (pairEnv d env p false pair).OverrideBounded := by
  rintro overrideBps ⟨hanswer, -⟩
  exact (hbounded.override pair overrideBps (Option.some.inj hanswer)).2

theorem protocolFeeBps_pairEnv_le (pair : Address) :
    (pairEnv d env p false pair).protocolFeeBps ≤ p.factory.toFactory.getFeeBps :=
  min_le_left _ _

omit [LinearOrder Address] in
theorem feeRecipient_iff (hbounded : Factory.FeesBounded p.factory.toFactory) :
    p.factory.toFactory.getFeeTo.isSome = true ↔
      1 ≤ p.factory.toFactory.getFeeBps ∧ p.factory.toFactory.getFeeBps ≤ maxProtocolFeeBps := by
  unfold Factory.getFeeTo Factory.getFeeBps
  cases hstorage : p.factory.storage with
  | none => simp
  | some storage =>
      obtain ⟨hmax, hiff⟩ := hbounded.protocol storage hstorage
      have hpos : storage.feeTo.isSome = true ↔ 1 ≤ storage.feeBps := by
        rw [← Option.ne_none_iff_isSome, Nat.one_le_iff_ne_zero, ne_eq, ne_eq, hiff]
      exact hpos.trans (and_iff_left hmax).symm

/-- What holds of the fees of a protocol: of the pools' rates, the accumulators behind them, the
recipient, and what swaps send to it. -/
structure FeesHeld (d : Deployment Address) (p : Protocol Address) : Prop where
  swapped : ∀ env pair w fs op request swapped event, p.pool pair = some w →
    w.pair.feeState = some fs → swapRequest pair w op = some request →
    request.Runs (pairEnv d env p false pair) swapped event →
      RateHeld (pairEnv d env p false pair) fs event.feeBps ∧
      CutHeld (pairEnv d env p false pair) p.factory.toFactory.getFeeBps request.dst event.amountAIn
        request.amountAOut event.feeBps request.start.tokenA swapped.tokenA ∧
      CutHeld (pairEnv d env p false pair) p.factory.toFactory.getFeeBps request.dst event.amountBIn
        request.amountBOut event.feeBps request.start.tokenB swapped.tokenB
  burned : ∀ env pair w fs, p.pool pair = some w → w.pair.feeState = some fs →
    RateHeld (pairEnv d env p false pair) fs (burnSingleSideFeeBps fs)
  volatility : ∀ pair w fs, p.pool pair = some w → w.pair.feeState = some fs →
    0 ≤ fs.volAccumulator ∧ fs.volAccumulator ≤ fs.maxVol
  recipient : p.factory.toFactory.getFeeTo.isSome = true ↔
    1 ≤ p.factory.toFactory.getFeeBps ∧ p.factory.toFactory.getFeeBps ≤ 30

/-- **Fees.** After any run of the factory and its pools, their fees are within their bounds. -/
theorem feesHeld_after (d : Deployment Address) (calls : List (ProtocolCall Address)) :
    FeesHeld d (after d calls) := by
  have hstored := feesBounded_after d calls
  have hpools : ∀ pair w fs, (after d calls).pool pair = some w → w.pair.feeState = some fs →
      fs.Bounded := by
    intro pair w fs hpool hfs
    exact feeBounded_of_reachable (poolsReachable d calls pair w hpool) fs hfs
  refine ⟨?_, ?_, ?_, feeRecipient_iff hstored⟩
  · intro env pair w fs op request swapped event hpool hfs hrequest hruns
    have hrate : (pairEnv d env (after d calls) false pair).protocolFeeBps ≤
        (after d calls).factory.toFactory.getFeeBps := protocolFeeBps_pairEnv_le pair
    obtain ⟨_, _, _, _, _, _, hswap⟩ := swapInner_ok hruns
    refine ⟨?_, hswap.sideA.cutHeld hrate, hswap.sideB.cutHeld hrate⟩
    exact rateHeld_of_runs (overrideBounded_pairEnv hstored pair) (hpools pair w fs hpool hfs) hfs
      hrequest hruns
  · intro env pair w fs hpool hfs
    exact rateHeld_computeFeeBps (hpools pair w fs hpool hfs) (hpools pair w fs hpool hfs)
  · intro pair w fs hpool hfs
    have hbounded := hpools pair w fs hpool hfs
    exact ⟨hbounded.vol_nonneg, hbounded.vol_le⟩

end Protocol

end CoralSwap
