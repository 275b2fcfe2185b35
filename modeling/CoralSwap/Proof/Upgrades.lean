import CoralSwap.Proof.ProtocolEffects

/-!
# Upgrades wait out their timelock

A pending upgrade is there because of the last accepted call about upgrades, a proposal that a quorum signed. So what
is executed was proposed by a quorum, stood unchallenged since, and is old enough. Counting the accepted calls shows that
proposals do not pile up, and that the version numbers the executions.
-/

namespace CoralSwap.Protocol

open Host Host.Call

variable {Address : Type} [LinearOrder Address]
variable {d : Deployment Address} {env : ProtocolEnv Address} {p p' : Protocol Address}

def Op.proposes : Op Address → Bool
  | .proposeUpgrade _ _ => true
  | _ => false

def Op.executes : Op Address → Bool
  | .executeUpgrade => true
  | _ => false

def Op.cancels : Op Address → Bool
  | .cancelUpgrade _ => true
  | _ => false

def AboutUpgrades (call : ProtocolCall Address) : Prop :=
  call.2.proposes = true ∨ call.2.executes = true ∨ call.2.cancels = true

omit [LinearOrder Address] in
theorem aboutUpgrades_cases {op : Op Address} (hop : AboutUpgrades (env, op)) :
    (∃ signers hash, op = .proposeUpgrade signers hash) ∨ op = .executeUpgrade ∨
      ∃ signers, op = .cancelUpgrade signers := by
  cases op with
  | proposeUpgrade signers hash => exact Or.inl ⟨signers, hash, rfl⟩
  | executeUpgrade => exact Or.inr (Or.inl rfl)
  | cancelUpgrade signers => exact Or.inr (Or.inr ⟨signers, rfl⟩)
  | _ => simp [AboutUpgrades, Op.proposes, Op.executes, Op.cancels] at hop

/-- The version reported, or the one that `initialize` will store. -/
def versionOf (f : FactoryContract Address) : ℕ :=
  (f.storage.map FactoryStorage.protocolVersion).getD protocolVersion

/-! ### One call -/

/-- What the calls about anything else leave alone. -/
structure UpgradesKept (p p' : Protocol Address) : Prop where
  pending : p'.factory.pendingUpgrade = p.factory.pendingUpgrade
  version : versionOf p'.factory = versionOf p.factory
  stored : p'.factory.storage = none → p.factory.storage = none

omit [LinearOrder Address] in
theorem UpgradesKept.of_eq (hpending : p'.factory.pendingUpgrade = p.factory.pendingUpgrade)
    (hstorage : p'.factory.storage = p.factory.storage) : UpgradesKept p p' := by
  refine ⟨hpending, ?_, ?_⟩
  · rw [versionOf, versionOf, hstorage]
  · intro hnone
    rwa [← hstorage]

omit [LinearOrder Address] in
theorem UpgradesKept.of_recordKept {f : Factory Address} (hkept : RecordKept p.factory.toFactory f) :
    UpgradesKept p (p.setFactory { p.factory with toFactory := f }) := by
  refine ⟨rfl, ?_, ?_⟩
  · show (f.storage.map _).getD _ = (p.factory.storage.map _).getD _
    cases hbefore : p.factory.storage with
    | some storage =>
        obtain ⟨storage', hafter, -, hversion⟩ := hkept.stored storage hbefore
        rw [hafter]
        exact hversion
    | none =>
        cases hafter : f.storage with
        | none => rfl
        | some storage' => exact (hkept.initial storage' hbefore hafter).2
  · intro hafter
    cases hbefore : p.factory.storage with
    | none => rfl
    | some storage =>
        obtain ⟨storage', hstored, -⟩ := hkept.stored storage hbefore
        cases hstored.symm.trans hafter

theorem upgradesKept_of_exec {op : Op Address} (hop : ¬AboutUpgrades (env, op))
    (hexec : exec d p (env, op) = .ok p') : UpgradesKept p p' := by
  cases effect_of_exec hexec with
  | recorded _ hkept hresult =>
      subst hresult
      exact .of_recordKept hkept
  | still _ hresult =>
      subst hresult
      exact .of_eq rfl rfl
  | created hcreate =>
      rw [hcreate.result]
      refine ⟨rfl, ?_, ?_⟩
      · rw [versionOf, versionOf, hcreate.stored]
        rfl
      · intro hnone
        cases hnone
  | froze _ _ _ hcall hresult =>
      subst hresult
      exact .of_eq rfl rfl
  | froze_unknown _ _ _ hresult =>
      subst hresult
      exact .of_eq rfl rfl
  | deposited hresult =>
      subst hresult
      exact .of_eq rfl rfl
  | proposed _ _ _ _ => exact absurd (Or.inl rfl) hop
  | executed _ _ _ => exact absurd (Or.inr (Or.inl rfl)) hop
  | cancelled _ _ => exact absurd (Or.inr (Or.inr rfl)) hop
  | called _ hcall =>
      rw [hcall.result]
      exact .of_eq rfl rfl
  | reinitialized _ _ hresult =>
      subst hresult
      exact .of_eq rfl rfl

/-! ### Counting the calls -/

def countOf (kind : Op Address → Bool) (calls : List (ProtocolCall Address)) : ℕ :=
  calls.countP fun call => kind call.2

omit [LinearOrder Address] in
theorem countOf_concat (kind : Op Address → Bool) (calls : List (ProtocolCall Address))
    (call : ProtocolCall Address) :
    countOf kind (calls ++ [call]) = countOf kind calls + if kind call.2 = true then 1 else 0 := by
  simp [countOf, List.countP_append, List.countP_singleton]

/-- The books kept of the accepted calls. -/
structure UpgradesCounted (p : Protocol Address) (past : List (ProtocolCall Address)) : Prop where
  pending : countOf Op.proposes past =
    countOf Op.executes past + countOf Op.cancels past + p.factory.pendingUpgrade.toList.length
  version : versionOf p.factory = protocolVersion + countOf Op.executes past
  stored : p.factory.storage = none → p.factory.pendingUpgrade = none

theorem upgradesCounted_of_exec {past : List (ProtocolCall Address)} {op : Op Address}
    (hcounted : UpgradesCounted p past) (hexec : exec d p (env, op) = .ok p') :
    UpgradesCounted p' (past ++ [(env, op)]) := by
  obtain ⟨hbalance, hversion, hstored⟩ := hcounted
  by_cases hop : AboutUpgrades (env, op)
  · rcases aboutUpgrades_cases hop with ⟨signers, hash, rfl⟩ | rfl | ⟨signers, rfl⟩
    · obtain ⟨⟨storage, hrecord, -⟩, hpending, rfl⟩ := proposeUpgrade_ok hexec
      rw [hpending] at hbalance
      refine ⟨?_, ?_, ?_⟩
      · simp only [countOf_concat, hbalance]
        rfl
      · rw [countOf_concat]
        exact hversion
      · intro hnone
        cases hrecord.symm.trans hnone
    · obtain ⟨proposal, hpending, -, rfl⟩ := executeUpgrade_ok hexec
      rw [hpending] at hbalance
      obtain ⟨storage, hrecord⟩ : ∃ storage, p.factory.storage = some storage := by
        refine Option.ne_none_iff_exists'.mp fun hnone => ?_
        cases hpending.symm.trans (hstored hnone)
      refine ⟨?_, ?_, ?_⟩
      · simp only [countOf_concat, hbalance]
        simp [Op.proposes, Op.executes, Op.cancels, setFactory]
        omega
      · rw [versionOf, hrecord] at hversion
        show ((p.factory.storage.map _).map _).getD _ = _
        rw [hrecord, countOf_concat]
        exact (congrArg (· + 1) hversion).trans (add_assoc _ _ _)
      · exact fun _ => rfl
    · obtain ⟨proposal, hpending, rfl⟩ := cancelUpgrade_ok hexec
      rw [hpending] at hbalance
      refine ⟨?_, ?_, ?_⟩
      · simp only [countOf_concat, hbalance]
        rfl
      · rw [countOf_concat]
        exact hversion
      · exact fun _ => rfl
  · obtain ⟨hproposes, hexecutes, hcancels⟩ := not_or.mp hop |>.imp_right not_or.mp
    have hkept := upgradesKept_of_exec hop hexec
    refine ⟨?_, ?_, ?_⟩
    · simp only [countOf_concat, if_neg hproposes, if_neg hexecutes, if_neg hcancels, hkept.pending]
      exact hbalance
    · rw [hkept.version, countOf_concat, if_neg hexecutes]
      exact hversion
    · intro hnone
      rw [hkept.pending]
      exact hstored (hkept.stored hnone)

/-! ### Runs -/

/-- The last accepted call about upgrades in `calls` proposed `hash`, a quorum of the signers registered then
signed it, and by `sequence` it has served its timelock. -/
def TimelockServed (d : Deployment Address) (calls : List (ProtocolCall Address)) (hash : Bytes32)
    (sequence : ℕ) : Prop :=
  ∃ first env signers rest storage,
    calls = first ++ (env, .proposeUpgrade signers hash) :: rest ∧
      (machine d).Accepts (after d first) (env, .proposeUpgrade signers hash) ∧
      (after d first).factory.storage = some storage ∧
      Factory.verifyMultisig env.toFactoryEnv storage.signers signers = .ok () ∧
      env.sequence + FactoryContract.upgradeDelayLedgers ≤ sequence ∧
      ¬(machine d).Occurs AboutUpgrades
        (after d (first ++ [(env, .proposeUpgrade signers hash)])) rest

/-- A pending upgrade is the work of the last accepted call about upgrades. -/
theorem exists_proposal {calls : List (ProtocolCall Address)} {proposal : PendingUpgrade}
    (hpending : (after d calls).factory.pendingUpgrade = some proposal) {sequence : ℕ}
    (helapsed : FactoryContract.upgradeDelayLedgers ≤ sequence - proposal.proposedAtLedger) :
    TimelockServed d calls proposal.newWasmHash sequence := by
  let Makes : ProtocolCall Address → Prop := fun call =>
    (∃ signers, call.2 = .proposeUpgrade signers proposal.newWasmHash) ∧
      call.1.sequence = proposal.proposedAtLedger
  have hmake : ∀ p call p', AboutUpgrades call → exec d p call = .ok p' →
      p'.factory.pendingUpgrade = some proposal → Makes call := by
    rintro p ⟨env, op⟩ p' habout hexec hmade
    rcases aboutUpgrades_cases habout with ⟨signers, hash, rfl⟩ | rfl | ⟨signers, rfl⟩
    · obtain ⟨-, -, rfl⟩ := proposeUpgrade_ok hexec
      obtain rfl := Option.some.inj hmade
      exact ⟨⟨signers, rfl⟩, rfl⟩
    · obtain ⟨_, -, -, rfl⟩ := executeUpgrade_ok hexec
      cases hmade
    · obtain ⟨_, -, rfl⟩ := cancelUpgrade_ok hexec
      cases hmade
  have hkeep : ∀ p call p', ¬AboutUpgrades call → exec d p call = .ok p' →
      p'.factory.pendingUpgrade = some proposal → p.factory.pendingUpgrade = some proposal := by
    rintro p ⟨env, op⟩ p' habout hexec hkept
    rw [← (upgradesKept_of_exec habout hexec).pending]
    exact hkept
  rcases Machine.exists_origin (m := machine d) hmake hkeep hpending with
    ⟨hnone, -⟩ | ⟨first, ⟨env, op⟩, rest, rfl, ⟨⟨signers, hop⟩, hledger⟩, ⟨p', hexec⟩, hquiet⟩
  · cases hnone
  · subst hop
    obtain ⟨⟨storage, hstored, hquorum⟩, -, -⟩ := proposeUpgrade_ok (d := d) hexec
    refine ⟨first, env, signers, rest, storage, rfl, ⟨p', hexec⟩, hstored, hquorum, ?_, hquiet⟩
    have hdelay : 0 < FactoryContract.upgradeDelayLedgers := by decide
    simp only at hledger
    omega

structure UpgradesSound (d : Deployment Address) (calls : List (ProtocolCall Address)) : Prop where
  /-- What the next `execute_upgrade` installs has served its timelock. -/
  installed : ∀ env p', exec d (after d calls) (env, .executeUpgrade) = .ok p' →
    ∃ hash, p'.factory.installedWasm = some hash ∧ TimelockServed d calls hash env.sequence
  /-- Every accepted proposal but the pending one, if any, was executed or cancelled. -/
  pending : countOf Op.proposes ((machine d).accepted (deployed d) calls) =
    countOf Op.executes ((machine d).accepted (deployed d) calls) +
      countOf Op.cancels ((machine d).accepted (deployed d) calls) +
        if (after d calls).factory.pendingUpgrade.isSome = true then 1 else 0
  version : ∀ storage, (after d calls).factory.storage = some storage →
    storage.protocolVersion =
      protocolVersion + countOf Op.executes ((machine d).accepted (deployed d) calls)

/-- **The upgrade timelock.** -/
theorem upgradesSound (d : Deployment Address) (calls : List (ProtocolCall Address)) :
    UpgradesSound d calls := by
  have hcounted : UpgradesCounted (after d calls) ([] ++ (machine d).accepted (deployed d) calls) := by
    refine Machine.run_accepted (m := machine d) (I := UpgradesCounted) ?_ ⟨rfl, rfl, fun _ => rfl⟩ calls
    rintro p past ⟨env, op⟩ p' hcounted hexec
    exact upgradesCounted_of_exec hcounted hexec
  rw [List.nil_append] at hcounted
  refine ⟨?_, ?_, ?_⟩
  · intro env p' hexec
    obtain ⟨proposal, hpending, helapsed, rfl⟩ := executeUpgrade_ok hexec
    exact ⟨proposal.newWasmHash, rfl, exists_proposal hpending helapsed⟩
  · rw [hcounted.pending]
    cases (after d calls).factory.pendingUpgrade <;> rfl
  · intro storage hstored
    have hversion := hcounted.version
    rw [versionOf, hstored] at hversion
    exact hversion

end CoralSwap.Protocol
