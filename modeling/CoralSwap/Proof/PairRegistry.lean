import CoralSwap.Proof.Pools

/-!
# The pair registry is consistent

Only `create_pair` writes the registry, and it writes all its parts together. A pair is filed under both orders of its
tokens at the address derived from them, so no two pools have the same tokens; a second deployment to an address traps,
so no pair is listed twice.
-/

namespace CoralSwap.Protocol

open Host Host.Call

variable {Address : Type} [LinearOrder Address]
variable {d : Deployment Address} {env : ProtocolEnv Address} {p p' : Protocol Address}

/-! ### Derived addresses -/

theorem sortTokens_of_lt {token0 token1 : Address} (hlt : token0 < token1) :
    Deployment.sortTokens token0 token1 = (token0, token1) ∧
      Deployment.sortTokens token1 token0 = (token0, token1) := by
  unfold Deployment.sortTokens
  exact ⟨if_pos hlt, if_neg hlt.not_gt⟩

theorem getPairAddress_of_lt {token0 token1 : Address} (hlt : token0 < token1) :
    d.getPairAddress token0 token1 = .ok (d.deployedAddress (d.pairSalt token0 token1)) ∧
      d.getPairAddress token1 token0 = .ok (d.deployedAddress (d.pairSalt token0 token1)) := by
  obtain ⟨hsorted, hswapped⟩ := sortTokens_of_lt hlt
  simp only [Deployment.getPairAddress, hsorted, hswapped]
  simp [failIf, hlt.ne, hlt.ne', bind, Except.bind, pure, Except.pure]

theorem Creates.lt {tokenA tokenB token0 token1 pair lpToken : Address}
    {storage : FactoryStorage Address} {w : World Address}
    (hcreate : Creates d env p tokenA tokenB token0 token1 pair lpToken storage w p') :
    token0 < token1 := by
  obtain ⟨htokens, hle⟩ := sortTokens_eq hcreate.sorted
  refine lt_of_le_of_ne hle ?_
  rintro rfl
  rcases htokens with ⟨rfl, rfl⟩ | ⟨rfl, rfl⟩ <;> exact hcreate.ne rfl

theorem getPair_storePair (f : FactoryContract Address) (storage : FactoryStorage Address) (pairCount : ℕ)
    (token0 token1 pair lpToken tokenA tokenB : Address) :
    (f.storePair storage pairCount token0 token1 pair lpToken).getPair tokenA tokenB =
      if tokenA = token0 ∧ tokenB = token1 ∨ tokenA = token1 ∧ tokenB = token0 then some pair
      else f.getPair tokenA tokenB := by
  simp only [FactoryContract.storePair, FactoryContract.setPair, FactoryContract.getPair, Function.update_apply]
  split_ifs <;> simp_all

/-! ### What one call does to the registry -/

structure SameRegistry (p p' : Protocol Address) : Prop where
  pairEntry : p'.factory.pairEntry = p.factory.pairEntry
  pairList : p'.factory.pairList = p.factory.pairList
  totalPairs : p'.factory.totalPairs = p.factory.totalPairs
  isPairEntry : p'.factory.isPairEntry = p.factory.isPairEntry
  isLpTokenEntry : p'.factory.isLpTokenEntry = p.factory.isLpTokenEntry
  pairCount : p'.factory.getPairCount = p.factory.getPairCount
  occupied : p'.occupied = p.occupied

omit [LinearOrder Address] in
theorem RecordKept.getPairCount {f : FactoryContract Address} {f' : Factory Address}
    (hkept : RecordKept f.toFactory f') :
    FactoryContract.getPairCount { f with toFactory := f' } = f.getPairCount := by
  unfold FactoryContract.getPairCount
  cases hbefore : f.storage with
  | some storage =>
      obtain ⟨storage', hafter, hcount, -⟩ := hkept.stored storage hbefore
      rw [hafter]
      exact hcount
  | none =>
      cases hafter : f'.storage with
      | none => rfl
      | some storage' => exact (hkept.initial storage' hbefore hafter).1

/-- Every accepted call but `create_pair` leaves the registry alone. -/
theorem registry_of_exec {op : Op Address} (hexec : exec d p (env, op) = .ok p') :
    SameRegistry p p' ∨ ∃ tokenA tokenB token0 token1 pair lpToken storage w,
      op = .createPair tokenA tokenB ∧
        Creates d env p tokenA tokenB token0 token1 pair lpToken storage w p' := by
  cases effect_of_exec hexec with
  | recorded _ hkept hresult =>
      subst hresult
      exact Or.inl ⟨rfl, rfl, rfl, rfl, rfl, hkept.getPairCount, rfl⟩
  | still _ hresult =>
      subst hresult
      exact Or.inl ⟨rfl, rfl, rfl, rfl, rfl, rfl, rfl⟩
  | created hcreate => exact Or.inr ⟨_, _, _, _, _, _, _, _, rfl, hcreate⟩
  | froze _ _ _ hcall hresult =>
      subst hresult
      rw [hcall.result]
      exact Or.inl ⟨rfl, rfl, rfl, rfl, rfl, rfl, rfl⟩
  | froze_unknown _ _ _ hresult =>
      subst hresult
      exact Or.inl ⟨rfl, rfl, rfl, rfl, rfl, rfl, rfl⟩
  | deposited hresult =>
      subst hresult
      exact Or.inl ⟨rfl, rfl, rfl, rfl, rfl, rfl, rfl⟩
  | proposed _ _ _ hresult =>
      subst hresult
      exact Or.inl ⟨rfl, rfl, rfl, rfl, rfl, rfl, rfl⟩
  | executed _ _ hresult =>
      subst hresult
      refine Or.inl ⟨rfl, rfl, rfl, rfl, rfl, ?_, rfl⟩
      simp only [FactoryContract.getPairCount, setFactory, Option.map_map]
      rfl
  | cancelled _ hresult =>
      subst hresult
      exact Or.inl ⟨rfl, rfl, rfl, rfl, rfl, rfl, rfl⟩
  | called _ hcall =>
      rw [hcall.result]
      exact Or.inl ⟨rfl, rfl, rfl, rfl, rfl, rfl, rfl⟩
  | reinitialized _ _ hresult =>
      subst hresult
      exact Or.inl ⟨rfl, rfl, rfl, rfl, rfl, rfl, rfl⟩

theorem Creates.pairList {tokenA tokenB token0 token1 pair lpToken : Address}
    {storage : FactoryStorage Address} {w : World Address}
    (hcreate : Creates d env p tokenA tokenB token0 token1 pair lpToken storage w p') :
    p'.factory.pairList = p.factory.pairList ++ [pair] := by
  rw [hcreate.result]
  rfl

theorem Creates.getPair {tokenA tokenB token0 token1 pair lpToken : Address}
    {storage : FactoryStorage Address} {w : World Address}
    (hcreate : Creates d env p tokenA tokenB token0 token1 pair lpToken storage w p')
    (first second : Address) :
    p'.factory.getPair first second =
      if first = token0 ∧ second = token1 ∨ first = token1 ∧ second = token0 then some pair
      else p.factory.getPair first second := by
  rw [hcreate.result]
  exact getPair_storePair ..

theorem SameRegistry.not_creates (hsame : SameRegistry p p')
    {tokenA tokenB token0 token1 pair lpToken : Address} {storage : FactoryStorage Address}
    {w : World Address} :
    ¬Creates d env p tokenA tokenB token0 token1 pair lpToken storage w p' := by
  intro hcreate
  have hlist := hsame.pairList.symm.trans hcreate.pairList
  simp at hlist

/-! ### The invariant -/

/-- The parts of the registry agree: each listed pair, and no other, is flagged, deployed and has a pool, which is filed
under the tokens it was initialised with. -/
structure Registered (d : Deployment Address) (p : Protocol Address) : Prop where
  pairCount : p.factory.getPairCount = p.factory.pairList.length
  totalPairs : p.factory.totalPairs = p.factory.pairList.length
  nodup : p.factory.pairList.Nodup
  flagged : ∀ who, p.factory.isPairEntry who = if who ∈ p.factory.pairList then some true else none
  occupied : ∀ who ∈ p.factory.pairList, p.occupied who = true
  pool : ∀ who, (p.pool who).isSome = true ↔ who ∈ p.factory.pairList
  filed : ∀ tokenA tokenB pair, p.factory.getPair tokenA tokenB = some pair →
    p.factory.getPair tokenB tokenA = some pair ∧ pair ∈ p.factory.pairList ∧
      d.getPairAddress tokenA tokenB = .ok pair
  opened : ∀ pair w, p.pool pair = some w → ∃ state, w.pair.pairState = some state ∧
    state.factory = d.factory ∧ p.factory.getPair state.tokenA state.tokenB = some pair

theorem registered_deployed (d : Deployment Address) : Registered d (deployed d) where
  pairCount := rfl
  totalPairs := rfl
  nodup := List.nodup_nil
  flagged := fun _ => rfl
  occupied := fun _ hlisted => absurd hlisted List.not_mem_nil
  pool := fun _ => iff_of_false Bool.false_ne_true List.not_mem_nil
  filed := fun _ _ _ hnone => nomatch hnone
  opened := fun _ _ hnone => nomatch hnone

theorem registered_of_sameRegistry (hregistered : Registered d p) (hsame : SameRegistry p p')
    (hpools : ∀ pair, PoolStep d env p p' pair) : Registered d p' := by
  have hgetPair : p'.factory.getPair = p.factory.getPair := hsame.pairEntry
  have hpool : ∀ pair, p'.pool pair = p.pool pair ∨ ∃ byFactory op w w', p.pool pair = some w ∧
      CoralSwap.exec w (pairEnv d env p byFactory pair, op) = .ok w' ∧ p'.pool pair = some w' := by
    intro pair
    cases hpools pair with
    | same hpool => exact Or.inl hpool
    | opened _ hcreate => exact (hsame.not_creates hcreate).elim
    | called hbefore hexec hafter => exact Or.inr ⟨_, _, _, _, hbefore, hexec, hafter⟩
  refine ⟨?_, ?_, ?_, ?_, ?_, ?_, ?_, ?_⟩
  · rw [hsame.pairCount, hsame.pairList]
    exact hregistered.pairCount
  · rw [hsame.totalPairs, hsame.pairList]
    exact hregistered.totalPairs
  · rw [hsame.pairList]
    exact hregistered.nodup
  · rw [hsame.isPairEntry, hsame.pairList]
    exact hregistered.flagged
  · rw [hsame.pairList, hsame.occupied]
    exact hregistered.occupied
  · intro who
    rw [hsame.pairList, ← hregistered.pool who]
    rcases hpool who with heq | ⟨_, _, _, _, hbefore, -, hafter⟩
    · rw [heq]
    · rw [hbefore, hafter]
      exact iff_of_true rfl rfl
  · rw [hgetPair, hsame.pairList]
    exact hregistered.filed
  · intro pair w' hafter
    rw [hgetPair]
    rcases hpool pair with heq | ⟨_, _, w, _, hbefore, hexec, heq⟩
    · exact hregistered.opened pair w' (heq.symm.trans hafter)
    · obtain rfl := Option.some.inj (heq.symm.trans hafter)
      obtain ⟨state, hstate, hfactory, hfiled⟩ := hregistered.opened pair w hbefore
      obtain ⟨state', hstate', hsameState⟩ := identity_of_exec hstate hexec
      refine ⟨state', hstate', hsameState.factory.trans hfactory, ?_⟩
      rw [hsameState.tokenA, hsameState.tokenB]
      exact hfiled

section Creation

variable {tokenA tokenB token0 token1 pair lpToken : Address}
variable {storage : FactoryStorage Address} {w : World Address}

/-- A second deployment to an address traps. -/
theorem Creates.unlisted (hregistered : Registered d p)
    (hcreate : Creates d env p tokenA tokenB token0 token1 pair lpToken storage w p') :
    pair ∉ p.factory.pairList := by
  intro hlisted
  cases hcreate.free.symm.trans (hregistered.occupied pair hlisted)

theorem filed_of_creates (hregistered : Registered d p)
    (hcreate : Creates d env p tokenA tokenB token0 token1 pair lpToken storage w p')
    {first second filed : Address} (hfiled : p'.factory.getPair first second = some filed) :
    p'.factory.getPair second first = some filed ∧ filed ∈ p'.factory.pairList ∧
      d.getPairAddress first second = .ok filed := by
  rw [hcreate.getPair] at hfiled ⊢
  rw [hcreate.pairList]
  obtain ⟨haddress, hswapped⟩ := getPairAddress_of_lt (d := d) hcreate.lt
  rw [← hcreate.pair_eq] at haddress hswapped
  split at hfiled
  · rename_i htokens
    obtain rfl := Option.some.inj hfiled
    refine ⟨if_pos (by tauto), by simp, ?_⟩
    rcases htokens with ⟨rfl, rfl⟩ | ⟨rfl, rfl⟩
    · exact haddress
    · exact hswapped
  · rename_i htokens
    obtain ⟨hsymm, hlisted, haddress⟩ := hregistered.filed first second filed hfiled
    refine ⟨?_, by simp [hlisted], haddress⟩
    rw [if_neg (by tauto), hsymm]

theorem opened_of_creates (hregistered : Registered d p)
    (hcreate : Creates d env p tokenA tokenB token0 token1 pair lpToken storage w p')
    {who : Address} {v : World Address} (hpool : p'.pool who = some v) :
    ∃ state, v.pair.pairState = some state ∧ state.factory = d.factory ∧
      p'.factory.getPair state.tokenA state.tokenB = some who := by
  by_cases hwho : who = pair
  · subst hwho
    obtain rfl := Option.some.inj (hcreate.pool_self.symm.trans hpool)
    obtain ⟨-, -, hopened⟩ := initializePair_ok hcreate.opened
    rw [hopened]
    refine ⟨_, rfl, rfl, ?_⟩
    rw [hcreate.getPair]
    exact if_pos (Or.inl ⟨rfl, rfl⟩)
  · rw [hcreate.pool_of_ne hwho] at hpool
    obtain ⟨state, hstate, hfactory, hfiled⟩ := hregistered.opened who v hpool
    refine ⟨state, hstate, hfactory, ?_⟩
    -- the tokens of the new pair were filed nowhere, in neither order
    have hsymm := (hregistered.filed _ _ _ hfiled).1
    rw [hcreate.getPair, if_neg, hfiled]
    rintro (⟨htokenA, htokenB⟩ | ⟨htokenA, htokenB⟩)
    · rw [htokenA, htokenB, hcreate.isNew] at hfiled
      cases hfiled
    · rw [htokenA, htokenB, hcreate.isNew] at hsymm
      cases hsymm

theorem registered_of_creates (hregistered : Registered d p)
    (hcreate : Creates d env p tokenA tokenB token0 token1 pair lpToken storage w p') :
    Registered d p' := by
  have hunlisted := hcreate.unlisted hregistered
  have hlist := hcreate.pairList
  refine ⟨?_, ?_, ?_, ?_, ?_, ?_, ?_, ?_⟩
  · have hcount := hregistered.pairCount
    rw [FactoryContract.getPairCount, hcreate.stored] at hcount
    rw [hlist, List.length_append, ← hcount, hcreate.result]
    rfl
  · rw [hcreate.result]
    rfl
  · rw [hlist]
    exact hregistered.nodup.append (List.nodup_singleton pair) (by simpa using hunlisted)
  · intro who
    rw [hlist, hcreate.result]
    by_cases hwho : who = pair
    · subst hwho
      simp [FactoryContract.storePair]
    · simpa [FactoryContract.storePair, hwho] using hregistered.flagged who
  · intro who hlisted
    rw [hlist, List.mem_append, List.mem_singleton] at hlisted
    rw [hcreate.result]
    simp only [Function.update_apply]
    split_ifs with hlp hpair
    · rfl
    · rfl
    · exact hregistered.occupied who (hlisted.resolve_right hpair)
  · intro who
    rw [hlist, List.mem_append, List.mem_singleton, ← hregistered.pool who]
    by_cases hwho : who = pair
    · subst hwho
      rw [hcreate.pool_self]
      exact iff_of_true rfl (Or.inr rfl)
    · rw [hcreate.pool_of_ne hwho]
      simp [hwho]
  · intro first second filed hfiled
    exact filed_of_creates hregistered hcreate hfiled
  · intro who v hpool
    exact opened_of_creates hregistered hcreate hpool

end Creation

theorem registered_of_exec (hreach : PoolsReachable p) (hregistered : Registered d p) {op : Op Address}
    (hexec : exec d p (env, op) = .ok p') : Registered d p' := by
  rcases registry_of_exec hexec with hsame | ⟨_, _, _, _, _, _, _, _, -, hcreate⟩
  · exact registered_of_sameRegistry hregistered hsame (poolStep_of_exec hreach hexec)
  · exact registered_of_creates hregistered hcreate

/-- **Invariants of the protocol.** What every accepted call preserves, from a consistent registry and pools in
reachable states, holds after every run. -/
theorem after_invariant {I : Protocol Address → Prop} (hdeployed : I (deployed d))
    (hstep : ∀ p env op p', PoolsReachable p → Registered d p → I p → exec d p (env, op) = .ok p' → I p')
    (calls : List (ProtocolCall Address)) : I (after d calls) := by
  refine (Machine.run_invariant_all (m := machine d)
    (I := fun p => PoolsReachable p ∧ Registered d p ∧ I p) ?_
    ⟨poolsReachable d [], registered_deployed d, hdeployed⟩ calls).2.2
  rintro p ⟨env, op⟩ p' ⟨hreach, hregistered, hinv⟩ hexec
  exact ⟨poolsReachable_of_exec hreach hexec, registered_of_exec hreach hregistered hexec,
    hstep p env op p' hreach hregistered hinv hexec⟩

theorem registered_after (d : Deployment Address) (calls : List (ProtocolCall Address)) :
    Registered d (after d calls) :=
  after_invariant (registered_deployed d)
    (fun _ _ _ _ hreach _ hregistered hexec => registered_of_exec hreach hregistered hexec) calls

theorem pairList_prefix_of_exec {op : Op Address} (hexec : exec d p (env, op) = .ok p') :
    p.factory.pairList <+: p'.factory.pairList := by
  rcases registry_of_exec hexec with hsame | ⟨_, _, _, _, pair, _, _, _, -, hcreate⟩
  · rw [hsame.pairList]
  · rw [hcreate.pairList]
    exact List.prefix_append _ _

theorem pairList_prefix_of_run (p : Protocol Address) (calls : List (ProtocolCall Address)) :
    p.factory.pairList <+: ((machine d).run p calls).factory.pairList := by
  refine Machine.run_invariant_all (m := machine d)
    (I := fun p' => p.factory.pairList <+: p'.factory.pairList) ?_ (List.prefix_refl _) calls
  rintro p₁ ⟨env, op⟩ p₂ hprefix hexec
  exact hprefix.trans (pairList_prefix_of_exec hexec)

/-! ### What the registry reports -/

structure PoolContracts (Address : Type) where
  tokenA : Address
  tokenB : Address
  lpToken : Address
  deriving DecidableEq

/-- The contracts of the pool at `pair`, as it was initialised with them. -/
def contractsOf (p : Protocol Address) (pair : Address) : Option (PoolContracts Address) :=
  ((p.pool pair).bind fun w => w.pair.pairState).map fun state =>
    ⟨state.tokenA, state.tokenB, state.lpToken⟩

/-- The two tokens of a pool, in no order. -/
def tokensOf (p : Protocol Address) (pair : Address) : Option (Sym2 Address) :=
  (contractsOf p pair).map fun contracts => s(contracts.tokenA, contracts.tokenB)

structure RegistryCoherent (d : Deployment Address) (p : Protocol Address) : Prop where
  counter : p.factory.getPairCount = p.factory.pairList.length
  total : p.factory.totalPairs = p.factory.pairList.length
  nodup : p.factory.pairList.Nodup
  symmetric : ∀ tokenA tokenB, p.factory.getPair tokenA tokenB = p.factory.getPair tokenB tokenA
  derived : ∀ tokenA tokenB pair, p.factory.getPair tokenA tokenB = some pair →
    d.getPairAddress tokenA tokenB = .ok pair ∧ pair ∈ p.factory.pairList
  member : ∀ who, p.factory.isPair who = true ↔ who ∈ p.factory.pairList
  /-- Each listed pair is a pool, and is the one reported for its two tokens. -/
  filed : ∀ pair ∈ p.factory.pairList, ∃ tokenA tokenB, tokensOf p pair = some s(tokenA, tokenB) ∧
    p.factory.getPair tokenA tokenB = some pair
  onePool : ∀ first ∈ p.factory.pairList, ∀ second ∈ p.factory.pairList,
    tokensOf p first = tokensOf p second → first = second

theorem Registered.isPair_iff (hregistered : Registered d p) (who : Address) :
    p.factory.isPair who = true ↔ who ∈ p.factory.pairList := by
  unfold FactoryContract.isPair
  rw [hregistered.flagged who]
  by_cases hlisted : who ∈ p.factory.pairList <;> simp [hlisted]

theorem Registered.exists_pool (hregistered : Registered d p) {pair : Address}
    (hlisted : pair ∈ p.factory.pairList) : ∃ w, p.pool pair = some w :=
  Option.isSome_iff_exists.mp ((hregistered.pool pair).mpr hlisted)

theorem Registered.filed_tokens (hregistered : Registered d p) {pair : Address}
    (hlisted : pair ∈ p.factory.pairList) :
    ∃ tokenA tokenB, tokensOf p pair = some s(tokenA, tokenB) ∧
      p.factory.getPair tokenA tokenB = some pair := by
  obtain ⟨w, hpool⟩ := hregistered.exists_pool hlisted
  obtain ⟨state, hstate, -, hfiled⟩ := hregistered.opened pair w hpool
  exact ⟨state.tokenA, state.tokenB, by simp [tokensOf, contractsOf, hpool, hstate], hfiled⟩

theorem Registered.getPair_comm (hregistered : Registered d p) (tokenA tokenB : Address) :
    p.factory.getPair tokenA tokenB = p.factory.getPair tokenB tokenA := by
  apply Option.ext
  intro pair
  constructor
  · exact fun hfiled => (hregistered.filed tokenA tokenB pair hfiled).1
  · exact fun hfiled => (hregistered.filed tokenB tokenA pair hfiled).1

theorem Registered.coherent (hregistered : Registered d p) : RegistryCoherent d p where
  counter := hregistered.pairCount
  total := hregistered.totalPairs
  nodup := hregistered.nodup
  symmetric := hregistered.getPair_comm
  derived := fun tokenA tokenB pair hfiled =>
    have hpair := (hregistered.filed tokenA tokenB pair hfiled).2
    ⟨hpair.2, hpair.1⟩
  member := hregistered.isPair_iff
  filed := fun _ hlisted => hregistered.filed_tokens hlisted
  onePool := by
    intro first hfirst second hsecond htokens
    obtain ⟨tokenA, tokenB, hfirstTokens, hfirstFiled⟩ := hregistered.filed_tokens hfirst
    obtain ⟨tokenA', tokenB', hsecondTokens, hsecondFiled⟩ := hregistered.filed_tokens hsecond
    rw [hfirstTokens, hsecondTokens] at htokens
    rcases Sym2.eq_iff.mp (Option.some.inj htokens) with ⟨rfl, rfl⟩ | ⟨rfl, rfl⟩
    · exact Option.some.inj (hfirstFiled.symm.trans hsecondFiled)
    · rw [hregistered.getPair_comm] at hfirstFiled
      exact Option.some.inj (hfirstFiled.symm.trans hsecondFiled)

/-! ### What pools are made of -/

theorem contractsOf_of_sameRegistry (hregistered : Registered d p) (hsame : SameRegistry p p')
    (hpools : ∀ pair, PoolStep d env p p' pair) : contractsOf p' = contractsOf p := by
  funext pair
  cases hpools pair with
  | same hpool => rw [contractsOf, hpool, contractsOf]
  | opened _ hcreate => exact (hsame.not_creates hcreate).elim
  | called hbefore hexec hafter =>
      obtain ⟨state, hstate, -⟩ := hregistered.opened pair _ hbefore
      obtain ⟨state', hstate', hkept⟩ := identity_of_exec hstate hexec
      simp only [contractsOf, hbefore, hafter, Option.bind_some, hstate, hstate', Option.map_some,
        hkept.tokenA, hkept.tokenB, hkept.lpToken]

theorem contractsOf_of_creates {tokenA tokenB token0 token1 pair lpToken : Address}
    {storage : FactoryStorage Address} {w : World Address}
    (hcreate : Creates d env p tokenA tokenB token0 token1 pair lpToken storage w p') (other : Address) :
    contractsOf p' other =
      if other = pair then some ⟨token0, token1, lpToken⟩ else contractsOf p other := by
  unfold contractsOf
  by_cases hother : other = pair
  · subst hother
    obtain ⟨-, -, hopened⟩ := initializePair_ok hcreate.opened
    rw [if_pos rfl, hcreate.pool_self, hopened]
    rfl
  · rw [if_neg hother, hcreate.pool_of_ne hother]

/-- **The pair registry.** -/
theorem registryCoherent (d : Deployment Address) (calls : List (ProtocolCall Address)) :
    RegistryCoherent d (after d calls) ∧
      ∀ more, (after d calls).factory.pairList <+: (after d (calls ++ more)).factory.pairList := by
  constructor
  · exact (registered_after d calls).coherent
  · intro more
    rw [after, after, Machine.run_append]
    exact pairList_prefix_of_run _ more

end CoralSwap.Protocol
