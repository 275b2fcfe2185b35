import CoralSwap.Proof.FactoryFees
import CoralSwap.Proof.Quorum

/-!
# What an accepted call of the factory's record does

One case for each kind of call: who it asked, and what it wrote. The fee setter writes the fees, the
overrides and its own successor, a quorum writes the pause flag, and nobody writes the signers again.
-/

namespace CoralSwap.Factory

open Host Host.Call

variable {Address : Type} [DecidableEq Address] {env : FactoryEnv Address} {f f' : Factory Address}

/-- The override a rate is stored as: a zero rate is none. -/
def overrideOf (feeBps : ℕ) : Option ℕ := if feeBps = 0 then none else some feeBps

inductive RecordEffect (env : FactoryEnv Address) (f f' : Factory Address) : Op Address → Prop where
  | initialized {signers : List Address} {pairWasmHash concentratedPairWasmHash lpTokenWasmHash : Bytes32}
      {feeToSetter : Address} (hnone : f.storage = none) :
      RecordEffect env f f'
        (.initializeFactory signers pairWasmHash concentratedPairWasmHash lpTokenWasmHash feeToSetter)
  | paused {op : Op Address} {signers : List Address} (paused : Bool) {storage : FactoryStorage Address}
      (hop : op = if paused then .pause signers else .unpause signers)
      (hstored : f.storage = some storage)
      (hquorum : verifyMultisig env storage.signers signers = .ok ())
      (hresult : f' = f.setStorage { storage with paused }) : RecordEffect env f f' op
  | feesSet {op : Op Address} {setter : Address} {feeTo : Option Address} {feeBps : ℕ}
      {storage : FactoryStorage Address}
      (hop : op = .setFeeConfig setter feeTo feeBps ∨ op = .setFeeTo setter feeTo feeBps)
      (hguard : requireSetter env f setter = .ok storage)
      (hresult : f' = f.setStorage { storage with feeTo, feeBps }) : RecordEffect env f f' op
  | setterSet {setter newSetter : Address} {storage : FactoryStorage Address}
      (hguard : requireSetter env f setter = .ok storage)
      (hresult : f' = f.setStorage { storage with feeToSetter := newSetter }) :
      RecordEffect env f f' (.setFeeToSetter setter newSetter)
  | overrideSet {setter pair : Address} {feeBps : ℕ} {storage : FactoryStorage Address}
      (hguard : requireSetter env f setter = .ok storage)
      (hresult : f' =
        { f with pairFeeOverride := Function.update f.pairFeeOverride pair (overrideOf feeBps) }) :
      RecordEffect env f f' (.setPairFee setter pair feeBps)

theorem setPaused_ok {signers : List Address} {paused : Bool}
    (hset : Factory.setPaused env f signers paused = .ok f') :
    ∃ storage, f.storage = some storage ∧ verifyMultisig env storage.signers signers = .ok () ∧
      f' = f.setStorage { storage with paused } := by
  simp only [Factory.setPaused, getStorage, bind_eq_ok, okOr_eq_ok, pure_eq_ok] at hset
  obtain ⟨storage, hstored, _, hquorum, rfl⟩ := hset
  exact ⟨storage, hstored, hquorum, rfl⟩

theorem setFeeConfig_ok {setter : Address} {feeTo : Option Address} {feeBps : ℕ}
    (hset : setFeeConfig env f setter feeTo feeBps = .ok f') :
    ∃ storage, requireSetter env f setter = .ok storage ∧
      f' = f.setStorage { storage with feeTo, feeBps } := by
  simp only [setFeeConfig, bind_eq_ok, failIf_eq_ok, pure_eq_ok, exists_const] at hset
  obtain ⟨storage, hguard, -, -, -, rfl⟩ := hset
  exact ⟨storage, hguard, rfl⟩

theorem setPairFee_ok {setter pair : Address} {feeBps : ℕ}
    (hset : setPairFee env f setter pair feeBps = .ok f') :
    (∃ storage, requireSetter env f setter = .ok storage) ∧
      f' = { f with pairFeeOverride := Function.update f.pairFeeOverride pair (overrideOf feeBps) } := by
  simp only [setPairFee, bind_eq_ok, failIf_eq_ok, pure_eq_ok, exists_const] at hset
  obtain ⟨storage, hguard, -, rfl⟩ := hset
  refine ⟨⟨storage, hguard⟩, ?_⟩
  by_cases hzero : feeBps = 0
  · rw [if_pos hzero, overrideOf, if_pos hzero]
    rfl
  · rw [if_neg hzero, overrideOf, if_neg hzero]
    rfl

/-- **Inversion of a call of the record.** -/
theorem recordEffect_of_exec {op : Op Address} (hexec : exec f (env, op) = .ok f') :
    RecordEffect env f f' op := by
  cases op with
  | initializeFactory signers pairWasmHash concentratedPairWasmHash lpTokenWasmHash feeToSetter =>
      exact .initialized (initializeFactory_ok hexec).1
  | pause signers =>
      obtain ⟨storage, hstored, hquorum, hresult⟩ := setPaused_ok hexec
      exact .paused true rfl hstored hquorum hresult
  | unpause signers =>
      obtain ⟨storage, hstored, hquorum, hresult⟩ := setPaused_ok hexec
      exact .paused false rfl hstored hquorum hresult
  | setFeeConfig setter feeTo feeBps =>
      obtain ⟨storage, hguard, hresult⟩ := setFeeConfig_ok hexec
      exact .feesSet (Or.inl rfl) hguard hresult
  | setFeeTo setter feeTo feeBps =>
      obtain ⟨storage, hguard, hresult⟩ := setFeeConfig_ok hexec
      exact .feesSet (Or.inr rfl) hguard hresult
  | setFeeToSetter setter newSetter =>
      simp only [exec, setFeeToSetter, bind_eq_ok, pure_eq_ok] at hexec
      obtain ⟨storage, hguard, hresult⟩ := hexec
      exact .setterSet hguard hresult.symm
  | setPairFee setter pair feeBps =>
      obtain ⟨⟨storage, hguard⟩, hresult⟩ := setPairFee_ok hexec
      exact .overrideSet hguard hresult

end CoralSwap.Factory
