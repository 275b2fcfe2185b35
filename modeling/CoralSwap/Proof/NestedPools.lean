import CoralSwap.Proof.PairRegistry

/-!
# Pools of pools

A new pair asks the factory whether its tokens are pairs or LP tokens of the same factory. It asks while the factory is
creating it, so the host refuses the questions, and a refusal counts as a no: the rule is never enforced. Whether a pool
has such a token is decided by the callers of `create_pair` alone.
-/

namespace CoralSwap.Protocol

open Host Host.Call

variable {Address : Type} [LinearOrder Address]
variable {d : Deployment Address} {env : ProtocolEnv Address} {p p' : Protocol Address}

/-! ### When a pair can be created -/

/-- The rules on tokens that a new pair does enforce: `token` is neither the factory nor one of the new contracts. -/
structure Foreign (d : Deployment Address) (pair lpToken token : Address) : Prop where
  factory : token ≠ d.factory
  pair : token ≠ pair
  lpToken : token ≠ lpToken

theorem exists_initializePair_iff {pair token0 token1 lpToken : Address} {w : World Address} :
    (∃ w', initializePair (pairEnv d env p true pair) w d.factory token0 token1 lpToken = .ok w') ↔
      w.pair.pairState = none ∧ token0 ≠ token1 ∧ Foreign d pair lpToken token0 ∧
        Foreign d pair lpToken token1 := by
  have hknown : ∀ token, (pairEnv d env p true pair).isKnownContract token = false := fun _ => rfl
  simp only [initializePair, bind_eq_ok, failIf_eq_ok, pure_eq_ok, exists_const, hknown, not_or,
    Bool.not_eq_true, Option.isSome_eq_false_iff, Option.isNone_iff_eq_none]
  constructor
  · rintro ⟨_, hnone, hne, ⟨hf0, hf1, hp0, hp1, hl0, hl1⟩, -, -⟩
    exact ⟨hnone, hne, ⟨hf0, hp0, hl0⟩, ⟨hf1, hp1, hl1⟩⟩
  · rintro ⟨hnone, hne, h0, h1⟩
    exact ⟨_, hnone, hne, ⟨h0.factory, h1.factory, h0.pair, h1.pair, h0.lpToken, h1.lpToken⟩,
      ⟨trivial, trivial⟩, rfl⟩

/-- All that `create_pair` requires of its caller and of the state, for the tokens in their order. -/
structure CanCreate (d : Deployment Address) (env : ProtocolEnv Address) (p : Protocol Address)
    (token0 token1 : Address) (storage : FactoryStorage Address) : Prop where
  isNew : p.factory.getPair token0 token1 = none
  stored : p.factory.storage = some storage
  unpaused : storage.paused = false
  uploaded : env.uploaded storage.pairWasmHash = true ∧ env.uploaded storage.lpTokenWasmHash = true
  counted : (storage.pairCount : ℤ) + 1 ≤ u32.max
  free : p.occupied (d.deployedAddress (d.pairSalt token0 token1)) = false
  lpFree : p.occupied (d.deployedAddress (d.lpSalt (d.deployedAddress (d.pairSalt token0 token1)))) = false
  lpToken_ne : d.deployedAddress (d.lpSalt (d.deployedAddress (d.pairSalt token0 token1))) ≠
    d.deployedAddress (d.pairSalt token0 token1)
  foreign : ∀ token, token = token0 ∨ token = token1 →
    Foreign d (d.deployedAddress (d.pairSalt token0 token1))
      (d.deployedAddress (d.lpSalt (d.deployedAddress (d.pairSalt token0 token1)))) token

theorem exists_createPair_iff {tokenA tokenB token0 token1 : Address} (hne : tokenA ≠ tokenB)
    (hsorted : Deployment.sortTokens tokenA tokenB = (token0, token1)) :
    (∃ result, createPair d env p tokenA tokenB = .ok result) ↔
      ∃ storage, CanCreate d env p token0 token1 storage := by
  have htokens := sortTokens_eq hsorted
  unfold createPair
  rw [hsorted]
  simp only [deploy, Factory.getStorage, Deployment.initializeLpToken_deriveLpMetadata, bind_eq_ok,
    failIf_eq_ok, okOr_eq_ok, require_eq_ok, orFail_eq_ok, orTrap_eq_ok, pure_eq_ok, exists_const,
    Word.checkedAdd_eq_some, and_assoc, exists_and_left, exists_eq_left', Bool.not_eq_true,
    Option.isSome_eq_false_iff, Option.isNone_iff_eq_none, Except.ok.injEq]
  constructor
  · rintro ⟨-, hnew, _, storage, hstored, hunpaused, huploaded, hfree, hlpUploaded, hlpFree, w, hopened, -, hcount,
      -⟩
    obtain ⟨-, -, h0, h1⟩ := exists_initializePair_iff.mp ⟨w, hopened⟩
    have hlpNe : d.deployedAddress (d.lpSalt (d.deployedAddress (d.pairSalt token0 token1))) ≠
        d.deployedAddress (d.pairSalt token0 token1) := by
      intro heq
      rw [heq, Function.update_self] at hlpFree
      cases hlpFree
    rw [Function.update_of_ne hlpNe] at hlpFree
    refine ⟨storage, hnew, hstored, hunpaused, ⟨huploaded, hlpUploaded⟩, hcount, hfree, hlpFree, hlpNe, ?_⟩
    rintro token (rfl | rfl)
    · exact h0
    · exact h1
  · rintro ⟨storage, hcan⟩
    have htokenNe : token0 ≠ token1 := by
      rcases htokens.1 with ⟨rfl, rfl⟩ | ⟨rfl, rfl⟩
      · exact hne
      · exact hne.symm
    have hopens : ∃ w, initializePair
        (pairEnv d env p true (d.deployedAddress (d.pairSalt token0 token1)))
        (World.deployed (d.deployedAddress (d.pairSalt token0 token1)) (env.token token0)
          (env.token token1))
        d.factory token0 token1
        (d.deployedAddress (d.lpSalt (d.deployedAddress (d.pairSalt token0 token1)))) = .ok w :=
      exists_initializePair_iff.mpr
        ⟨rfl, htokenNe, hcan.foreign token0 (Or.inl rfl), hcan.foreign token1 (Or.inr rfl)⟩
    obtain ⟨w, hopened⟩ := hopens
    refine ⟨hne, hcan.isNew, _, storage, hcan.stored, hcan.unpaused, hcan.uploaded.1, hcan.free, hcan.uploaded.2,
      ?_, w, hopened, ?_, hcan.counted, rfl⟩
    · rw [Function.update_of_ne hcan.lpToken_ne]
      exact hcan.lpFree
    · show (0 : ℤ) ≤ _
      omega

/-! ### Pools built on pools -/

/-- One of the tokens of `later` is the pair `earlier` or its LP token. -/
def BuiltOn (p : Protocol Address) (earlier later : Address) : Prop :=
  ∃ first second token, contractsOf p earlier = some first ∧ contractsOf p later = some second ∧
    (token = second.tokenA ∨ token = second.tokenB) ∧ (token = earlier ∨ token = first.lpToken)

/-- No pool is built on one that was registered before it. -/
def Unnested (p : Protocol Address) : Prop :=
  p.factory.pairList.Pairwise fun earlier later => ¬BuiltOn p earlier later

/-- The factory reports `token` as one of its pairs or LP tokens. -/
def Known (p : Protocol Address) (token : Address) : Prop :=
  p.factory.isPair token = true ∨ p.factory.isLpToken token = true

/-- A creation that meets all that `create_pair` requires, with a token that the factory knows. -/
def Nests (d : Deployment Address) (p : Protocol Address) (call : ProtocolCall Address) : Prop :=
  ∃ tokenA tokenB token0 token1 storage, call.2 = .createPair tokenA tokenB ∧ tokenA ≠ tokenB ∧
    Deployment.sortTokens tokenA tokenB = (token0, token1) ∧
      CanCreate d call.1 p token0 token1 storage ∧ (Known p tokenA ∨ Known p tokenB)

structure LpTokensKnown (p : Protocol Address) : Prop where
  iff_mem : ∀ token, p.factory.isLpToken token = true ↔ ∃ pair ∈ p.factory.pairList, ∃ contracts,
    contractsOf p pair = some contracts ∧ token = contracts.lpToken

theorem Creates.isLpToken {tokenA tokenB token0 token1 pair lpToken : Address}
    {storage : FactoryStorage Address} {w : World Address}
    (hcreate : Creates d env p tokenA tokenB token0 token1 pair lpToken storage w p') (token : Address) :
    p'.factory.isLpToken token = true ↔ token = lpToken ∨ p.factory.isLpToken token = true := by
  rw [hcreate.result]
  simp only [FactoryContract.isLpToken, FactoryContract.storePair, Function.update_apply]
  split_ifs with htoken <;> simp [htoken]

theorem lpTokensKnown_of_creates {tokenA tokenB token0 token1 pair lpToken : Address}
    {storage : FactoryStorage Address} {w : World Address} (hregistered : Registered d p)
    (hknown : LpTokensKnown p)
    (hcreate : Creates d env p tokenA tokenB token0 token1 pair lpToken storage w p') :
    LpTokensKnown p' := by
  have hunlisted := hcreate.unlisted hregistered
  constructor
  intro token
  rw [hcreate.isLpToken, hknown.iff_mem, hcreate.pairList]
  constructor
  · rintro (rfl | ⟨other, hlisted, contracts, hcontracts, rfl⟩)
    · exact ⟨pair, by simp, _, (contractsOf_of_creates hcreate pair).trans (if_pos rfl), rfl⟩
    · have hne : other ≠ pair := by
        rintro rfl
        exact hunlisted hlisted
      refine ⟨other, by simp [hlisted], contracts, ?_, rfl⟩
      rw [contractsOf_of_creates hcreate, if_neg hne, hcontracts]
  · rintro ⟨other, hlisted, contracts, hcontracts, rfl⟩
    rw [contractsOf_of_creates hcreate] at hcontracts
    split at hcontracts
    · obtain rfl := Option.some.inj hcontracts
      exact Or.inl rfl
    · rename_i hne
      have hmem : other ∈ p.factory.pairList := by simpa [hne] using hlisted
      exact Or.inr ⟨other, hmem, contracts, hcontracts, rfl⟩

theorem lpTokensKnown_of_exec (hreach : PoolsReachable p) (hregistered : Registered d p)
    (hknown : LpTokensKnown p) {op : Op Address} (hexec : exec d p (env, op) = .ok p') :
    LpTokensKnown p' := by
  rcases registry_of_exec hexec with hsame | ⟨_, _, _, _, _, _, _, _, -, hcreate⟩
  · have hcontracts :=
      contractsOf_of_sameRegistry hregistered hsame (poolStep_of_exec hreach hexec)
    constructor
    rw [hcontracts, hsame.pairList]
    unfold FactoryContract.isLpToken
    rw [hsame.isLpTokenEntry]
    exact hknown.iff_mem
  · exact lpTokensKnown_of_creates hregistered hknown hcreate

/-- What the factory knows are its listed pairs and their LP tokens. -/
theorem known_iff (hregistered : Registered d p) (hknown : LpTokensKnown p) (token : Address) :
    Known p token ↔ ∃ pair ∈ p.factory.pairList, ∃ contracts, contractsOf p pair = some contracts ∧
      (token = pair ∨ token = contracts.lpToken) := by
  rw [Known, hregistered.isPair_iff, hknown.iff_mem]
  constructor
  · rintro (hlisted | ⟨pair, hlisted, contracts, hcontracts, htoken⟩)
    · obtain ⟨w, hpool⟩ := hregistered.exists_pool hlisted
      obtain ⟨state, hstate, -⟩ := hregistered.opened token w hpool
      have hcontracts : contractsOf p token = some ⟨state.tokenA, state.tokenB, state.lpToken⟩ := by
        simp [contractsOf, hpool, hstate]
      exact ⟨token, hlisted, _, hcontracts, Or.inl rfl⟩
    · exact ⟨pair, hlisted, contracts, hcontracts, Or.inr htoken⟩
  · rintro ⟨pair, hlisted, contracts, hcontracts, rfl | rfl⟩
    · exact Or.inl hlisted
    · exact Or.inr ⟨pair, hlisted, contracts, hcontracts, rfl⟩

/-! ### One call -/

theorem unnested_of_creates {tokenA tokenB token0 token1 pair lpToken : Address}
    {storage : FactoryStorage Address} {w : World Address} (hregistered : Registered d p)
    (hknown : LpTokensKnown p)
    (hcreate : Creates d env p tokenA tokenB token0 token1 pair lpToken storage w p') :
    Unnested p' ↔ Unnested p ∧ ¬(Known p token0 ∨ Known p token1) := by
  have hunlisted := hcreate.unlisted hregistered
  have hcontracts := contractsOf_of_creates hcreate
  have hkept : ∀ other ∈ p.factory.pairList, contractsOf p' other = contractsOf p other := by
    intro other hlisted
    rw [hcontracts, if_neg]
    rintro rfl
    exact hunlisted hlisted
  have hnew : contractsOf p' pair = some ⟨token0, token1, lpToken⟩ := by rw [hcontracts, if_pos rfl]
  have hbuilt : (∃ earlier ∈ p.factory.pairList, BuiltOn p' earlier pair) ↔
      Known p token0 ∨ Known p token1 := by
    rw [known_iff hregistered hknown, known_iff hregistered hknown]
    constructor
    · rintro ⟨earlier, hlisted, first, second, token, hfirst, hsecond, htoken, hold⟩
      rw [hkept earlier hlisted] at hfirst
      obtain rfl := Option.some.inj (hnew.symm.trans hsecond)
      rcases htoken with rfl | rfl
      · exact Or.inl ⟨earlier, hlisted, first, hfirst, hold⟩
      · exact Or.inr ⟨earlier, hlisted, first, hfirst, hold⟩
    · rintro (⟨earlier, hlisted, first, hfirst, hold⟩ | ⟨earlier, hlisted, first, hfirst, hold⟩)
      · exact ⟨earlier, hlisted, first, _, _, (hkept earlier hlisted).trans hfirst, hnew, Or.inl rfl, hold⟩
      · exact ⟨earlier, hlisted, first, _, _, (hkept earlier hlisted).trans hfirst, hnew, Or.inr rfl, hold⟩
  have hpairs : p.factory.pairList.Pairwise (fun earlier later => ¬BuiltOn p' earlier later) ↔
      Unnested p := by
    refine List.Pairwise.iff_of_mem fun hearlier hlater => ?_
    rw [BuiltOn, BuiltOn, hkept _ hearlier, hkept _ hlater]
  rw [← hbuilt, ← hpairs, Unnested, hcreate.pairList, List.pairwise_append]
  constructor
  · rintro ⟨hold, -, hlast⟩
    refine ⟨hold, ?_⟩
    rintro ⟨earlier, hlisted, hbuiltOn⟩
    exact hlast earlier hlisted pair (by simp) hbuiltOn
  · rintro ⟨hold, hnone⟩
    refine ⟨hold, List.pairwise_singleton _ _, ?_⟩
    intro earlier hlisted later hlater hbuiltOn
    obtain rfl := List.mem_singleton.mp hlater
    exact hnone ⟨earlier, hlisted, hbuiltOn⟩

theorem accepts_of_canCreate {tokenA tokenB token0 token1 : Address} {storage : FactoryStorage Address}
    (hne : tokenA ≠ tokenB) (hsorted : Deployment.sortTokens tokenA tokenB = (token0, token1))
    (hcan : CanCreate d env p token0 token1 storage) :
    (machine d).Accepts p (env, .createPair tokenA tokenB) := by
  obtain ⟨⟨p', pair⟩, hcreate⟩ := (exists_createPair_iff hne hsorted).mpr ⟨storage, hcan⟩
  refine ⟨p', ?_⟩
  show exec d p (env, .createPair tokenA tokenB) = .ok p'
  simp only [exec, bind_eq_ok, mapCode_eq_ok, pure_eq_ok]
  exact ⟨_, hcreate, rfl⟩

theorem nests_iff_of_creates {tokenA tokenB token0 token1 pair lpToken : Address}
    {storage : FactoryStorage Address} {w : World Address}
    (hexec : exec d p (env, .createPair tokenA tokenB) = .ok p')
    (hcreate : Creates d env p tokenA tokenB token0 token1 pair lpToken storage w p') :
    Nests d p (env, .createPair tokenA tokenB) ↔ Known p token0 ∨ Known p token1 := by
  have hknown : Known p tokenA ∨ Known p tokenB ↔ Known p token0 ∨ Known p token1 := by
    rcases (sortTokens_eq hcreate.sorted).1 with ⟨rfl, rfl⟩ | ⟨rfl, rfl⟩
    · rfl
    · exact or_comm
  rw [← hknown]
  constructor
  · rintro ⟨_, _, _, _, _, hop, -, -, -, hnamed⟩
    cases hop
    exact hnamed
  · intro hnamed
    obtain ⟨_, hcreated⟩ := exec_createPair_ok hexec
    obtain ⟨storage', hcan⟩ := (exists_createPair_iff hcreate.ne hcreate.sorted).mp ⟨_, hcreated⟩
    exact ⟨tokenA, tokenB, token0, token1, storage', rfl, hcreate.ne, hcreate.sorted, hcan, hnamed⟩

/-- **Step.** A call keeps the pools unnested exactly when it is no creation that nests one. -/
theorem unnested_step (hreach : PoolsReachable p) (hregistered : Registered d p)
    (hknown : LpTokensKnown p) (call : ProtocolCall Address) :
    Unnested ((machine d).step p call) ↔ Unnested p ∧ ¬Nests d p call := by
  obtain ⟨env, op⟩ := call
  have haccepted : Nests d p (env, op) → ∃ p' tokenA tokenB, op = .createPair tokenA tokenB ∧
      exec d p (env, .createPair tokenA tokenB) = .ok p' := by
    rintro ⟨tokenA, tokenB, _, _, _, hop, hne, hsorted, hcan, -⟩
    obtain ⟨p', hexec⟩ := accepts_of_canCreate hne hsorted hcan
    exact ⟨p', tokenA, tokenB, hop, hexec⟩
  cases hexec : exec d p (env, op) with
  | error fault =>
      have hstay : (machine d).step p (env, op) = p := by
        simp [Machine.step, machine, hexec]
      have hnot : ¬Nests d p (env, op) := by
        intro hnests
        obtain ⟨p', _, _, rfl, hok⟩ := haccepted hnests
        cases hexec.symm.trans hok
      rw [hstay]
      exact (and_iff_left hnot).symm
  | ok p' =>
      rw [Machine.step_of_exec_ok (m := machine d) hexec]
      rcases registry_of_exec hexec with hsame | ⟨_, _, _, _, _, _, _, _, rfl, hcreate⟩
      · have hnot : ¬Nests d p (env, op) := by
          intro hnests
          obtain ⟨_, _, _, rfl, -⟩ := haccepted hnests
          obtain ⟨_, hcreated⟩ := exec_createPair_ok hexec
          obtain ⟨_, _, _, _, _, hcreate⟩ := createPair_ok hcreated
          exact hsame.not_creates hcreate
        have hcontracts := contractsOf_of_sameRegistry hregistered hsame (poolStep_of_exec hreach hexec)
        have hkept : Unnested p' ↔ Unnested p := by
          simp only [Unnested, BuiltOn, hcontracts, hsame.pairList]
        rw [hkept]
        exact (and_iff_left hnot).symm
      · rw [nests_iff_of_creates hexec hcreate]
        exact unnested_of_creates hregistered hknown hcreate

/-! ### Runs -/

theorem lpTokensKnown_deployed (d : Deployment Address) : LpTokensKnown (deployed d) := by
  constructor
  intro token
  constructor
  · intro hnone
    cases hnone
  · rintro ⟨pair, hlisted, -⟩
    cases hlisted

/-- **No nested pools.** After a run no pool is built on an earlier one exactly when none of its creations names a
token that the factory knows. -/
theorem unnested_after_iff (d : Deployment Address) (calls : List (ProtocolCall Address)) :
    Unnested (after d calls) ↔
      (machine d).Along (fun p call => ¬Nests d p call) (deployed d) calls := by
  have hrun := Machine.run_iff_along (m := machine d)
    (I := fun p => PoolsReachable p ∧ Registered d p ∧ LpTokensKnown p) (J := Unnested)
    (P := fun p call => ¬Nests d p call) (s := deployed d) ?_ ?_
    ⟨poolsReachable d [], registered_deployed d, lpTokensKnown_deployed d⟩ calls
  · rw [after, hrun]
    exact and_iff_right List.Pairwise.nil
  · rintro p ⟨env, op⟩ p' ⟨hreach, hregistered, hknown⟩ hexec
    exact ⟨poolsReachable_of_exec hreach hexec, registered_of_exec hreach hregistered hexec,
      lpTokensKnown_of_exec hreach hregistered hknown hexec⟩
  · rintro p call ⟨hreach, hregistered, hknown⟩
    exact unnested_step hreach hregistered hknown call

/-! ### A pool of a pool -/

/-- A host that derives addresses from the bytes of the salt. -/
def plainDeployment : Deployment ℕ where
  factory := 0
  crypto :=
    { toXdr := fun who => [UInt8.ofNat who]
      sha256 := id
      ed25519Verify := fun _ _ _ => false }
  deployedAddress := fun salt => salt.foldl (fun sum byte => sum * 256 + byte.toNat) 0 + 1000

def openEnv : ProtocolEnv ℕ where
  auth := fun _ => true
  sequence := 0
  timestamp := 0
  uploaded := fun _ => true
  token := fun _ => .issued 1 3000000 (by decide)
  accepts := fun _ => false

/-- The pair of the tokens 1 and 2 is deployed at 1258, and its LP token at 1234. -/
def nestingCalls : List (ProtocolCall ℕ) :=
  [(openEnv, .factory (.initializeFactory [1] (.replicate 32 0) (.replicate 32 0) (.replicate 32 0) 1)),
    (openEnv, .createPair 1 2),
    (openEnv, .createPair 1258 3)]

theorem not_unnested_after_nestingCalls :
    ¬∀ (d : Deployment ℕ) (calls : List (ProtocolCall ℕ)), Unnested (after d calls) := by
  intro hunnested
  have hpairs := hunnested plainDeployment nestingCalls
  have hlist : (after plainDeployment nestingCalls).factory.pairList = [1258, 2002] := by decide +kernel
  have hfirst : contractsOf (after plainDeployment nestingCalls) 1258 = some ⟨1, 2, 1234⟩ := by
    decide +kernel
  have hsecond : contractsOf (after plainDeployment nestingCalls) 2002 = some ⟨3, 1258, 1210⟩ := by
    decide +kernel
  rw [Unnested, hlist] at hpairs
  have hnot := (List.pairwise_cons.mp hpairs).1 2002 (by simp)
  exact hnot ⟨_, _, 1258, hfirst, hsecond, Or.inr rfl, Or.inl rfl⟩

end CoralSwap.Protocol
