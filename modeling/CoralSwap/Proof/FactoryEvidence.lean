import CoralSwap.Proof.FactoryReplay
import CoralSwap.Proof.Freezing

/-!
# What an event of the factory is evidence of

An event stands for an accepted call, and the call was accepted because its checks passed. So each event of the
log proves who had signed when it was published, and what held of the factory at that moment. The names and the
old values in an event are the ones of that call.
-/

namespace CoralSwap.Protocol

open Host Host.Call

variable {Address : Type} [LinearOrder Address]
variable {d : Deployment Address} {env : ProtocolEnv Address} {p p' : Protocol Address}
variable {storage : FactoryStorage Address}

/-- The fee setter has signed. -/
def SignedBySetter (env : ProtocolEnv Address) (p : Protocol Address) : Prop :=
  ∃ setter, p.factory.feeToSetter = some setter ∧ env.auth setter = true

/-- What an event proves of the factory before the call that published it, and of the call's signatures. -/
def Evidence (d : Deployment Address) (env : ProtocolEnv Address) (p : Protocol Address) :
    FactoryEvent Address → Prop
  | .pairCreated token0 token1 pair pairIndex =>
      p.factory.isPaused = false ∧ token0 < token1 ∧ p.factory.getPair token0 token1 = none ∧
        d.getPairAddress token0 token1 = .ok pair ∧ p.occupied pair = false ∧
          pairIndex = p.factory.getPairCount
  | .paused | .unpaused | .resumed => ∃ signers, QuorumSigned env p signers
  | .sync paused pairCount => paused = p.factory.isPaused ∧ pairCount = p.factory.totalPairs
  | .pairFrozen pair signer ledger =>
      p.factory.isPair pair = true ∧ ledger = env.sequence ∧ env.auth signer = true ∧
        (p.factory.feeToSetter = some signer ∨ ∃ signers, QuorumSigned env p signers ∧ signer ∈ signers)
  | .pairUnfrozen pair signer ledger =>
      p.factory.isPair pair = true ∧ ledger = env.sequence ∧ env.auth signer = true ∧
        ∃ signers, QuorumSigned env p signers ∧ signer ∈ signers
  | .upgradeProposed _ => p.factory.pendingUpgrade = none ∧ ∃ signers, QuorumSigned env p signers
  | .upgradeExecuted newVersion =>
      (∃ proposal, p.factory.pendingUpgrade = some proposal ∧
        FactoryContract.upgradeDelayLedgers ≤ env.sequence - proposal.proposedAtLedger) ∧
        ∃ version, p.factory.getProtocolVersion = .ok version ∧ newVersion = version + 1
  | .feeToSet _ => SignedBySetter env p
  | .feeToSetterSet _ => SignedBySetter env p
  | .protocolFeeUpdated oldFeeBps newFeeBps feeTo =>
      SignedBySetter env p ∧ oldFeeBps = p.factory.toFactory.getFeeBps ∧ newFeeBps ≤ maxProtocolFeeBps ∧
        (feeTo = none ↔ newFeeBps = 0)
  | .pairFeeOverrideSet pair oldFeeBps newFeeBps ledger =>
      SignedBySetter env p ∧ oldFeeBps = (p.factory.toFactory.getPairFeeOverride pair).getD 0 ∧
        newFeeBps ≤ maxPairFeeBps ∧ ledger = env.sequence
  | .protocolFeeCollected _ amount =>
      0 < amount ∧ ∃ pair, p.factory.isPair pair = true ∧ env.auth pair = true

/-! ### One call -/

theorem quorumSigned_of_setPaused {signers : List Address} {paused : Bool} {f : Factory Address}
    (hset : Factory.setPaused env.toFactoryEnv p.factory.toFactory signers paused = .ok f) :
    QuorumSigned env p signers := by
  obtain ⟨storage, hstored, hquorum, -⟩ := Factory.setPaused_ok hset
  exact ⟨storage, hstored, hquorum⟩

theorem signedBySetter_of_guard {setter : Address}
    (hguard : Factory.requireSetter env.toFactoryEnv p.factory.toFactory setter = .ok storage) :
    SignedBySetter env p := by
  obtain ⟨hstored, hauth, rfl⟩ := Factory.requireSetter_ok hguard
  exact ⟨storage.feeToSetter, by rw [FactoryContract.feeToSetter, hstored]; rfl, hauth⟩

theorem evidence_of_setFeeConfig {setter : Address} {feeTo : Option Address} {feeBps : ℕ} {f : Factory Address}
    (hset : Factory.setFeeConfig env.toFactoryEnv p.factory.toFactory setter feeTo feeBps = .ok f) :
    ∀ event ∈ setFeeConfigEvents p.factory.toFactory feeTo feeBps, Evidence d env p event := by
  simp only [Factory.setFeeConfig, bind_eq_ok, failIf_eq_ok, pure_eq_ok, exists_const, not_lt] at hset
  obtain ⟨storage, hguard, hmax, hrecipient, hdisabled, -⟩ := hset
  have hsigned := signedBySetter_of_guard hguard
  intro event hevent
  simp only [setFeeConfigEvents, List.mem_cons, List.not_mem_nil, or_false] at hevent
  rcases hevent with rfl | rfl
  · exact hsigned
  · refine ⟨hsigned, rfl, hmax, ?_⟩
    cases feeTo with
    | none => simpa using hrecipient
    | some recipient => simpa using hdisabled

theorem evidence_of_record (op : Factory.Op Address) {f : Factory Address}
    (hexec : Factory.exec p.factory.toFactory (env.toFactoryEnv, op) = .ok f) :
    ∀ event ∈ recordEvents env p.factory.toFactory op, Evidence d env p event := by
  intro event hevent
  cases op with
  | initializeFactory => exact absurd hevent List.not_mem_nil
  | pause signers =>
      obtain rfl := List.mem_singleton.mp hevent
      exact ⟨signers, quorumSigned_of_setPaused hexec⟩
  | unpause signers =>
      have hquorum := quorumSigned_of_setPaused hexec
      simp only [recordEvents, List.mem_cons, List.not_mem_nil, or_false] at hevent
      rcases hevent with rfl | rfl <;> exact ⟨signers, hquorum⟩
  | setFeeConfig setter feeTo feeBps => exact evidence_of_setFeeConfig hexec event hevent
  | setFeeTo setter feeTo feeBps => exact evidence_of_setFeeConfig hexec event hevent
  | setFeeToSetter setter newSetter =>
      obtain rfl := List.mem_singleton.mp hevent
      simp only [Factory.exec, Factory.setFeeToSetter, bind_eq_ok] at hexec
      obtain ⟨storage, hguard, -⟩ := hexec
      exact signedBySetter_of_guard hguard
  | setPairFee setter pair feeBps =>
      obtain rfl := List.mem_singleton.mp hevent
      simp only [Factory.exec, Factory.setPairFee, bind_eq_ok, failIf_eq_ok, not_lt] at hexec
      obtain ⟨storage, hguard, -, hmax, -⟩ := hexec
      exact ⟨signedBySetter_of_guard hguard, rfl, hmax, rfl⟩

/-- The signer that a freeze names is one of those who authorised it. -/
theorem evidence_of_freeze {signers : List Address} {pair : Address} (frozen : Bool)
    (hauth : authorizes env p signers frozen = .ok ())
    (hset : setPairFrozenState d env p pair frozen = .ok p') {event : FactoryEvent Address}
    (hevent : event ∈ freezeEvents signers fun signer =>
      if frozen then .pairFrozen pair signer env.sequence else .pairUnfrozen pair signer env.sequence) :
    Evidence d env p event := by
  obtain ⟨hpair, -⟩ := setPairFrozenState_ok hset
  simp only [freezeEvents, List.mem_map, Option.mem_toList] at hevent
  obtain ⟨signer, hhead, rfl⟩ := hevent
  have hmem : signer ∈ signers := List.mem_of_mem_head? hhead
  have hquorum : QuorumSigned env p signers →
      env.auth signer = true ∧ ∃ signers, QuorumSigned env p signers ∧ signer ∈ signers := by
    rintro ⟨storage, hstored, hverified⟩
    exact ⟨(Factory.verifyMultisig_eq_ok.mp hverified).2.2 signer hmem,
      signers, ⟨storage, hstored, hverified⟩, hmem⟩
  cases frozen with
  | false =>
      obtain ⟨hsigned, hothers⟩ := hquorum (signed_of_authorizeUnfreeze hauth)
      exact ⟨hpair, rfl, hsigned, hothers⟩
  | true =>
      rcases signed_of_authorizeFreeze hauth with ⟨storage, hstored, rfl, hsigned⟩ | hsigned
      · obtain rfl := Option.some.inj hhead
        refine ⟨hpair, rfl, hsigned, Or.inl ?_⟩
        rw [FactoryContract.feeToSetter, hstored]
        rfl
      · obtain ⟨hsigned, hothers⟩ := hquorum hsigned
        exact ⟨hpair, rfl, hsigned, Or.inr hothers⟩

theorem unpaused_of_createPair {tokenA tokenB : Address} {result : Protocol Address × Address}
    (hcreate : createPair d env p tokenA tokenB = .ok result) : p.factory.isPaused = false := by
  simp only [createPair, Factory.getStorage, bind_eq_ok, okOr_eq_ok, failIf_eq_ok, Bool.not_eq_true] at hcreate
  obtain ⟨-, -, -, -, storage, hstored, -, hunpaused, -⟩ := hcreate
  rw [FactoryContract.isPaused, hstored]
  exact hunpaused

theorem evidence_of_exec {op : Op Address} (hexec : exec d p (env, op) = .ok p') :
    ∀ event ∈ eventsOf d env p op, Evidence d env p event := by
  intro event hevent
  cases op with
  | factory op =>
      simp only [exec, recordCall, bind_eq_ok, mapCode_eq_ok] at hexec
      obtain ⟨f, hcall, -⟩ := hexec
      exact evidence_of_record op hcall event hevent
  | resume signers =>
      simp only [exec, recordCall, bind_eq_ok, mapCode_eq_ok] at hexec
      obtain ⟨f, hcall, -⟩ := hexec
      exact evidence_of_record (.unpause signers) hcall event hevent
  | sync =>
      obtain rfl := List.mem_singleton.mp hevent
      exact ⟨rfl, rfl⟩
  | createPair tokenA tokenB =>
      obtain ⟨pair, hcreated⟩ := exec_createPair_ok hexec
      have hunpaused := unpaused_of_createPair hcreated
      obtain ⟨token0, token1, lpToken, storage, w, hcreate⟩ := createPair_ok hcreated
      rw [eventsOf, hcreate.sorted] at hevent
      obtain rfl := List.mem_singleton.mp hevent
      rw [← hcreate.pair_eq]
      refine ⟨hunpaused, hcreate.lt, hcreate.isNew, ?_, hcreate.free, rfl⟩
      rw [hcreate.pair_eq]
      exact (getPairAddress_of_lt hcreate.lt).1
  | freezePair signers pair =>
      simp only [exec, freezePair, mapCode_eq_ok, bind_eq_ok] at hexec
      obtain ⟨_, hauth, hset⟩ := hexec
      exact evidence_of_freeze true hauth hset hevent
  | unfreezePair signers pair =>
      simp only [exec, unfreezePair, mapCode_eq_ok, bind_eq_ok] at hexec
      obtain ⟨_, hauth, hset⟩ := hexec
      exact evidence_of_freeze false hauth hset hevent
  | depositProtocolFee pair token amount =>
      obtain rfl := List.mem_singleton.mp hevent
      simp only [exec, factoryCall, FactoryContract.depositProtocolFee, bind_eq_ok, mapCode_eq_ok, require_eq_ok,
        failIf_eq_ok, Bool.not_eq_false, not_le] at hexec
      obtain ⟨-, ⟨-, hauth, -, -, -, -, -, hpair, -, hamount, -⟩, -⟩ := hexec
      exact ⟨hamount, pair, hpair, hauth⟩
  | proposeUpgrade signers newWasmHash =>
      obtain rfl := List.mem_singleton.mp hevent
      obtain ⟨hquorum, hpending, -⟩ := proposeUpgrade_ok hexec
      exact ⟨hpending, signers, hquorum⟩
  | executeUpgrade =>
      obtain ⟨proposal, hpending, helapsed, -⟩ := executeUpgrade_ok hexec
      rw [eventsOf] at hevent
      cases hstored : p.factory.storage with
      | none =>
          rw [hstored] at hevent
          exact absurd hevent List.not_mem_nil
      | some storage =>
          rw [hstored] at hevent
          obtain rfl := List.mem_singleton.mp hevent
          refine ⟨⟨proposal, hpending, helapsed⟩, storage.protocolVersion, ?_, rfl⟩
          simp only [FactoryContract.getProtocolVersion, Factory.getStorage, bind_eq_ok, okOr_eq_ok, pure_eq_ok]
          exact ⟨storage, hstored, rfl⟩
  | _ => exact absurd hevent List.not_mem_nil

/-- **Every event is evidence.** Each event in the log of a run goes back to an accepted call, and proves what
the call had checked: the signatures of those who may make it, and what the event says of the factory. -/
theorem evidence_of_mem_log (d : Deployment Address) (p : Protocol Address)
    (calls : List (ProtocolCall Address)) (event : FactoryEvent Address)
    (hevent : event ∈ (journal d).log p calls) :
    ∃ first env op second, calls = first ++ (env, op) :: second ∧
      (machine d).Accepts ((machine d).run p first) (env, op) ∧
        Evidence d env ((machine d).run p first) event := by
  obtain ⟨first, ⟨env, op⟩, second, p', events, rfl, hpublish, hmem⟩ := Journal.exists_call_of_mem_log hevent
  obtain ⟨hexec, rfl⟩ := publishing_eq_ok.mp hpublish
  exact ⟨first, env, op, second, rfl, ⟨p', hexec⟩, evidence_of_exec hexec event hmem⟩

/-- The creation of the second pool. -/
theorem evidence_of_mem_log_nestingCalls :
    ∃ first env op second, nestingCalls = first ++ (env, op) :: second ∧
      (machine plainDeployment).Accepts ((machine plainDeployment).run (deployed plainDeployment) first) (env, op) ∧
        Evidence plainDeployment env ((machine plainDeployment).run (deployed plainDeployment) first)
          (.pairCreated 3 1258 2002 1) :=
  evidence_of_mem_log plainDeployment (deployed plainDeployment) nestingCalls (.pairCreated 3 1258 2002 1)
    (by decide +kernel)

/-! ### The creations in a log -/

omit [LinearOrder Address] in
/-- The two tokens, the pair and the index of a creation. -/
def creation : FactoryEvent Address → Option (Address × Address × Address × ℕ)
  | .pairCreated tokenA tokenB pair pairIndex => some (tokenA, tokenB, pair, pairIndex)
  | _ => none

/-- The creations of a log are the pairs in the order of the list, each numbered by its place in it, and filed
under the tokens of its event. -/
structure Numbered (past : List (FactoryEvent Address)) (p : Protocol Address) : Prop where
  listed : (past.filterMap creation).map (fun entry => entry.2.2) = p.factory.pairList.zipIdx
  filed : ∀ entry ∈ past.filterMap creation, p.factory.getPair entry.1 entry.2.1 = some entry.2.2.1

theorem creation_eventsOf {op : Op Address} (hop : ∀ tokenA tokenB, op ≠ .createPair tokenA tokenB) :
    (eventsOf d env p op).filterMap creation = [] := by
  rw [List.filterMap_eq_nil_iff]
  intro event hevent
  cases event with
  | pairCreated tokenA tokenB pair pairIndex =>
      cases op with
      | createPair tokenA tokenB => exact absurd rfl (hop tokenA tokenB)
      | factory op => cases op <;> simp [eventsOf, recordEvents, setFeeConfigEvents] at hevent
      | executeUpgrade =>
          rw [eventsOf] at hevent
          cases hstored : p.factory.storage <;> simp [hstored] at hevent
      | _ => simp [eventsOf, freezeEvents] at hevent
  | _ => rfl

theorem numbered_of_exec (hregistered : Registered d p) {past : List (FactoryEvent Address)}
    (hnumbered : Numbered past p) {op : Op Address} (hexec : exec d p (env, op) = .ok p') :
    Numbered (past ++ eventsOf d env p op) p' := by
  rcases registry_of_exec hexec with hsame | ⟨tokenA, tokenB, token0, token1, pair, lpToken, storage, w, rfl, hcreate⟩
  · have hsilent : (eventsOf d env p op).filterMap creation = [] := by
      refine creation_eventsOf ?_
      rintro tokenA tokenB rfl
      obtain ⟨pair, hcreated⟩ := exec_createPair_ok hexec
      obtain ⟨_, _, _, _, _, hcreate⟩ := createPair_ok hcreated
      exact hsame.not_creates hcreate
    refine ⟨?_, ?_⟩
    · rw [List.filterMap_append, hsilent, List.append_nil, hsame.pairList]
      exact hnumbered.listed
    · rw [List.filterMap_append, hsilent, List.append_nil]
      intro entry hentry
      rw [FactoryContract.getPair, hsame.pairEntry]
      exact hnumbered.filed entry hentry
  · have hcreated : (eventsOf d env p (.createPair tokenA tokenB)).filterMap creation =
        [(token0, token1, pair, p.factory.pairList.length)] := by
      rw [eventsOf, hcreate.sorted]
      dsimp only
      rw [← hcreate.pair_eq, hregistered.pairCount]
      rfl
    refine ⟨?_, ?_⟩
    · rw [List.filterMap_append, hcreated, List.map_append, hnumbered.listed, hcreate.pairList, List.zipIdx_append]
      simp
    · rw [List.filterMap_append, hcreated]
      intro entry hentry
      rw [hcreate.getPair]
      rcases List.mem_append.mp hentry with hbefore | hnow
      · have hfiled := hnumbered.filed entry hbefore
        -- no pair was filed under the tokens of the new one, in either order
        rw [if_neg, hfiled]
        rintro (⟨htoken0, htoken1⟩ | ⟨htoken1, htoken0⟩)
        · rw [htoken0, htoken1, hcreate.isNew] at hfiled
          cases hfiled
        · rw [htoken0, htoken1] at hfiled
          have hswapped := (hregistered.filed _ _ _ hfiled).1
          rw [hcreate.isNew] at hswapped
          cases hswapped
      · obtain rfl := List.mem_singleton.mp hnow
        exact if_pos (Or.inl ⟨rfl, rfl⟩)

/-- **Creations number the pairs.** In the log of a run from the deployment, the creation events are the pairs in
the order of the list. The index of an event is the place of its pair, which is one less than the number of
pairs there are then, and its tokens, in their canonical order, lead to the pair. -/
theorem creations_number_pairs (d : Deployment Address) (calls : List (ProtocolCall Address)) :
    Numbered ((journal d).log (deployed d) calls) (after d calls) := by
  have hstart : PoolsReachable (deployed d) ∧ Registered d (deployed d) ∧ Numbered [] (deployed d) :=
    ⟨poolsReachable d [], registered_deployed d, rfl, fun _ hnone => absurd hnone List.not_mem_nil⟩
  refine (Journal.log_invariant (fun past p => PoolsReachable p ∧ Registered d p ∧ Numbered past p)
    (P := fun _ _ => True) ?_ hstart (Machine.along_of_forall_mem (fun _ _ => trivial) _)).2.2
  rintro past p ⟨env, op⟩ p' events ⟨hreach, hregistered, hnumbered⟩ - hpublish
  obtain ⟨hexec, rfl⟩ := publishing_eq_ok.mp hpublish
  exact ⟨poolsReachable_of_exec hreach hexec, registered_of_exec hreach hregistered hexec,
    numbered_of_exec hregistered hnumbered hexec⟩

end CoralSwap.Protocol
