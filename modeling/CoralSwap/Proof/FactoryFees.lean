import CoralSwap.Factory.Governance

/-!
# The factory's fees stay within their bounds

Only the fee setter's calls write a rate, and each checks it first. A stored override is never zero:
a zero rate clears the entry.
-/

namespace CoralSwap.Factory

open Host Host.Call

variable {Address : Type} [DecidableEq Address] {env : FactoryEnv Address} {f f' : Factory Address}

structure FeesBounded (f : Factory Address) : Prop where
  override : ∀ pair feeBps, f.pairFeeOverride pair = some feeBps →
    0 < feeBps ∧ feeBps ≤ maxPairFeeBps
  protocol : ∀ storage, f.storage = some storage →
    storage.feeBps ≤ maxProtocolFeeBps ∧ (storage.feeTo = none ↔ storage.feeBps = 0)

omit [DecidableEq Address] in
theorem FeesBounded.setStorage {storage : FactoryStorage Address} (hbounded : FeesBounded f)
    (hrate : storage.feeBps ≤ maxProtocolFeeBps ∧ (storage.feeTo = none ↔ storage.feeBps = 0)) :
    FeesBounded (f.setStorage storage) :=
  ⟨hbounded.override, by
    rintro _ hstorage
    obtain rfl := Option.some.inj hstorage
    exact hrate⟩

theorem requireSetter_ok {setter : Address} {storage : FactoryStorage Address}
    (hguard : requireSetter env f setter = .ok storage) :
    f.storage = some storage ∧ env.auth setter = true ∧ setter = storage.feeToSetter := by
  simp only [requireSetter, getStorage, bind_eq_ok, okOr_eq_ok, require_eq_ok, failIf_eq_ok,
    pure_eq_ok, exists_const, not_not] at hguard
  obtain ⟨_, hstorage, hauth, hsetter, rfl⟩ := hguard
  exact ⟨hstorage, hauth, hsetter⟩

theorem feesBounded_of_setFeeConfig {setter : Address} {feeTo : Option Address} {feeBps : ℕ}
    (hbounded : FeesBounded f) (hset : setFeeConfig env f setter feeTo feeBps = .ok f') :
    FeesBounded f' := by
  simp only [setFeeConfig, bind_eq_ok, failIf_eq_ok, pure_eq_ok, exists_const] at hset
  obtain ⟨_, -, hmax, hrecipient, hdisabled, rfl⟩ := hset
  refine hbounded.setStorage ⟨not_lt.mp hmax, ?_⟩
  cases feeTo with
  | none => simpa using hrecipient
  | some recipient => simpa using hdisabled

theorem FeesBounded.updateOverride {pair : Address} {entry : Option ℕ} (hbounded : FeesBounded f)
    (hentry : ∀ feeBps, entry = some feeBps → 0 < feeBps ∧ feeBps ≤ maxPairFeeBps) :
    FeesBounded { f with pairFeeOverride := Function.update f.pairFeeOverride pair entry } := by
  refine ⟨fun who feeBps hstored => ?_, hbounded.protocol⟩
  by_cases hwho : who = pair
  · subst hwho
    simp only [Function.update_self] at hstored
    exact hentry feeBps hstored
  · simp only [Function.update_of_ne hwho] at hstored
    exact hbounded.override who feeBps hstored

theorem feesBounded_of_setPairFee {setter pair : Address} {feeBps : ℕ} (hbounded : FeesBounded f)
    (hset : setPairFee env f setter pair feeBps = .ok f') : FeesBounded f' := by
  simp only [setPairFee, bind_eq_ok, failIf_eq_ok, pure_eq_ok, exists_const, not_lt] at hset
  obtain ⟨_, -, hmax, rfl⟩ := hset
  split
  · exact hbounded.updateOverride (by simp)
  · rename_i hpositive
    refine hbounded.updateOverride fun stored hstored => ?_
    obtain rfl := Option.some.inj hstored
    exact ⟨Nat.pos_of_ne_zero hpositive, hmax⟩

/-- **Step.** Every accepted call keeps the rates within their bounds. -/
theorem feesBounded_of_exec {op : Op Address} (hbounded : FeesBounded f)
    (hexec : exec f (env, op) = .ok f') : FeesBounded f' := by
  have hpaused : ∀ signers paused, Factory.setPaused env f signers paused = .ok f' →
      FeesBounded f' := by
    intro signers paused hset
    simp only [Factory.setPaused, getStorage, bind_eq_ok, okOr_eq_ok, pure_eq_ok] at hset
    obtain ⟨storage, hstorage, -, -, rfl⟩ := hset
    exact hbounded.setStorage (hbounded.protocol storage hstorage)
  cases op with
  | initializeFactory signers pairWasmHash concentratedPairWasmHash lpTokenWasmHash feeToSetter =>
      simp only [exec, initializeFactory, bind_eq_ok, failIf_eq_ok, pure_eq_ok, exists_const] at hexec
      obtain ⟨-, -, rfl⟩ := hexec
      exact hbounded.setStorage ⟨Nat.zero_le _, iff_of_true rfl rfl⟩
  | pause signers => exact hpaused signers true hexec
  | unpause signers => exact hpaused signers false hexec
  | setFeeConfig setter feeTo feeBps => exact feesBounded_of_setFeeConfig hbounded hexec
  | setFeeTo setter feeTo feeBps => exact feesBounded_of_setFeeConfig hbounded hexec
  | setFeeToSetter setter newSetter =>
      simp only [exec, setFeeToSetter, bind_eq_ok, pure_eq_ok] at hexec
      obtain ⟨storage, hguard, rfl⟩ := hexec
      exact hbounded.setStorage (hbounded.protocol storage (requireSetter_ok hguard).1)
  | setPairFee setter pair feeBps => exact feesBounded_of_setPairFee hbounded hexec

/-- **Bounded fees.** In every reachable factory the stored rates are within their bounds. -/
theorem feesBounded_of_reachable (hreach : Reachable f) : FeesBounded f := by
  obtain ⟨calls, rfl⟩ := hreach
  refine Machine.run_invariant_all (m := machine) (I := FeesBounded) ?_ ⟨?_, ?_⟩ calls
  · rintro f₁ ⟨env, op⟩ f₂ hbounded hexec
    exact feesBounded_of_exec hbounded hexec
  · intro pair feeBps hnone
    cases hnone
  · intro storage hnone
    cases hnone

end CoralSwap.Factory
