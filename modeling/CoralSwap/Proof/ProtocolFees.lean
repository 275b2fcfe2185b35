import CoralSwap.Proof.PairRegistry
import CoralSwap.Proof.SwapRequests

/-!
# Three records of the protocol fees

A swap forwards the protocol's part of its fee, the pair counts it, and the factory keeps a balance for
each token, which pairs are to report to. No pair does: the counters follow what is forwarded, the
factory's balance stays at zero.
-/

namespace CoralSwap

open Host Host.Call

/-! ### The counters of a pair -/

section Pair

variable {Address : Type} [DecidableEq Address] {contract : Address}
variable {env : Env contract} {w w' : World Address} {op : Op Address}

def World.collected (w : World Address) (isA : Bool) : ℤ :=
  if isA then (getProtocolFeeBalance w).1 else (getProtocolFeeBalance w).2

/-- The amounts of the two sides that are amounts of `token`. -/
def PairStorage.amountOf (state : PairStorage Address) (token : Address) (amount : Bool → ℤ) : ℤ :=
  (if state.tokenA = token then amount true else 0) + if state.tokenB = token then amount false else 0

/-- What the pair has counted of the protocol fees in `token`. -/
def World.collectedOf (w : World Address) (token : Address) : ℤ :=
  (w.pair.pairState.map fun state => state.amountOf token w.collected).getD 0

/-- What a call forwards of `token` to the fee recipient. -/
def takenOf (env : Env contract) (w : World Address) (op : Op Address) (token : Address) : ℤ :=
  (w.pair.pairState.map fun state => state.amountOf token (feesTaken env w op)).getD 0

theorem PairStorage.amountOf_nonneg {state : PairStorage Address} {amount : Bool → ℤ}
    (hnonneg : ∀ isA, 0 ≤ amount isA) (token : Address) : 0 ≤ state.amountOf token amount := by
  have hA := hnonneg true
  have hB := hnonneg false
  unfold amountOf
  split_ifs <;> omega

theorem takenOf_nonneg (env : Env contract) (w : World Address) (op : Op Address) (token : Address) :
    0 ≤ takenOf env w op token := by
  unfold takenOf
  cases w.pair.pairState with
  | none => exact le_rfl
  | some state => exact PairStorage.amountOf_nonneg (feesTaken_nonneg env w op) token

omit [DecidableEq Address] in
theorem SameCounters.collected (hcounters : SameCounters w w') : w'.collected = w.collected := by
  unfold World.collected getProtocolFeeBalance
  rw [hcounters.protocolFeeA, hcounters.protocolFeeB]

/-- A counter goes up by what was taken, up to the end of its range. -/
theorem collected_of_exec (hexec : exec w (env, op) = .ok w') (isA : Bool) :
    (w'.collected isA = w.collected isA ∧ feesTaken env w op isA = 0) ∨
      w'.collected isA = i128.saturatingAdd (w.collected isA) (feesTaken env w op isA) := by
  cases swapsWithin_of_exec hexec with
  | none hrequest hcounters =>
      left
      rw [hcounters.collected, feesTaken, hrequest]
      exact ⟨rfl, rfl⟩
  | @some request swapped event hrequest hruns hcounters =>
      obtain ⟨hA, hB⟩ := protocolFees_of_swapInner hruns
      obtain ⟨htakenA, htakenB⟩ := feesTaken_of_runs hrequest hruns
      have hnonnegA := feesTaken_nonneg env w op true
      have hnonnegB := feesTaken_nonneg env w op false
      rw [htakenA, htakenB, pair_of_swapRequest hrequest] at hA hB
      rw [hcounters.collected]
      by_cases hcollects : 0 < feesTaken env w op true ∨ 0 < feesTaken env w op false
      · rw [if_pos hcollects] at hA hB
        right
        cases isA
        · exact hB
        · exact hA
      · rw [if_neg hcollects] at hA hB
        left
        cases isA
        · exact ⟨hB, by omega⟩
        · exact ⟨hA, by omega⟩

theorem collected_nonneg_of_exec (hnonneg : ∀ isA, 0 ≤ w.collected isA)
    (hexec : exec w (env, op) = .ok w') (isA : Bool) : 0 ≤ w'.collected isA := by
  rcases collected_of_exec hexec isA with ⟨hsame, -⟩ | hsum
  · rw [hsame]
    exact hnonneg isA
  · rw [hsum]
    exact Word.saturate_nonneg (by decide) (add_nonneg (hnonneg isA) (feesTaken_nonneg env w op isA))

theorem collected_nonneg_of_reachable (hreach : Reachable contract w) (isA : Bool) :
    0 ≤ w.collected isA := by
  obtain ⟨tokenA, tokenB, calls, rfl⟩ := hreach
  refine Machine.run_invariant_all (I := fun w : World Address => ∀ isA, 0 ≤ w.collected isA) ?_ ?_ calls isA
  · rintro w ⟨env, op⟩ w' hnonneg hexec isA
    exact collected_nonneg_of_exec hnonneg hexec isA
  · intro isA
    cases isA <;> exact le_rfl

/-- No counter of the pair reaches the end of its range in a call. -/
def CountersFit (env : Env contract) (w : World Address) (op : Op Address) : Prop :=
  ∀ isA, w.collected isA + feesTaken env w op isA ≤ i128.max

instance (env : Env contract) (w : World Address) (op : Op Address) : Decidable (CountersFit env w op) :=
  inferInstanceAs (Decidable (∀ _, _))

theorem collected_eq_add (hnonneg : ∀ isA, 0 ≤ w.collected isA) (hfits : CountersFit env w op)
    (hexec : exec w (env, op) = .ok w') (isA : Bool) :
    w'.collected isA = w.collected isA + feesTaken env w op isA := by
  rcases collected_of_exec hexec isA with ⟨hsame, hzero⟩ | hsum
  · rw [hsame, hzero, add_zero]
  · rw [hsum]
    have hlow : i128.min ≤ 0 := by decide
    refine Word.saturate_of_mem (hlow.trans ?_) (hfits isA)
    exact add_nonneg (hnonneg isA) (feesTaken_nonneg env w op isA)

theorem PairStorage.amountOf_add {state state' : PairStorage Address}
    (hidentity : SameIdentity state state') (token : Address) {amount left right : Bool → ℤ}
    (hamount : ∀ isA, amount isA = left isA + right isA) :
    state'.amountOf token amount = state.amountOf token left + state.amountOf token right := by
  have hA := hamount true
  have hB := hamount false
  unfold amountOf
  rw [hidentity.tokenA, hidentity.tokenB]
  split_ifs <;> omega

theorem collectedOf_eq_add {state : PairStorage Address} (hstate : w.pair.pairState = some state)
    (hnonneg : ∀ isA, 0 ≤ w.collected isA) (hfits : CountersFit env w op)
    (hexec : exec w (env, op) = .ok w') (token : Address) :
    w'.collectedOf token = w.collectedOf token + takenOf env w op token := by
  obtain ⟨state', hstate', hidentity⟩ := identity_of_exec hstate hexec
  simp only [World.collectedOf, takenOf, hstate, hstate', Option.map_some, Option.getD_some]
  exact PairStorage.amountOf_add hidentity token (collected_eq_add hnonneg hfits hexec)

end Pair

namespace Protocol

variable {Address : Type} [LinearOrder Address]
variable {d : Deployment Address} {env : ProtocolEnv Address} {p p' : Protocol Address}

def collectedBy (p : Protocol Address) (token pair : Address) : ℤ :=
  (p.pool pair).elim 0 fun w => w.collectedOf token

/-- What all registered pairs together have counted of the protocol fees in `token`. -/
def totalCollected (p : Protocol Address) (token : Address) : ℤ :=
  ∑ pair ∈ p.factory.pairList.toFinset, collectedBy p token pair

/-- What a call forwards of `token` to the fee recipient. -/
def takenIn (d : Deployment Address) (token : Address) (p : Protocol Address)
    (call : ProtocolCall Address) : ℤ :=
  match call.2.asPairCall with
  | some (byFactory, pair, op) =>
      (p.pool pair).elim 0 fun w => takenOf (pairEnv d call.1 p byFactory pair) w op token
  | none => 0

/-- What the pairs have transferred of `token` to fee recipients, from the deployment on. -/
def transferred (d : Deployment Address) (token : Address) (calls : List (ProtocolCall Address)) : ℤ :=
  (machine d).total (takenIn d token) (deployed d) calls

/-- No pair signs the call: pairs call the factory's views, and nothing else of it. -/
def PairsSilent (p : Protocol Address) (call : ProtocolCall Address) : Prop :=
  ∀ pair, p.factory.isPair pair = true → call.1.auth pair = false

def CountersFitIn (d : Deployment Address) (p : Protocol Address) (call : ProtocolCall Address) : Prop :=
  ∀ called ∈ call.2.asPairCall, ∀ w ∈ p.pool called.2.1,
    CountersFit (pairEnv d call.1 p called.1 called.2.1) w called.2.2

/-- If the call is accepted, no counter of a pool saturates in it. -/
def Unsaturated (d : Deployment Address) (p : Protocol Address) (call : ProtocolCall Address) : Prop :=
  (machine d).Accepts p call → CountersFitIn d p call

instance (d : Deployment Address) (p : Protocol Address) (call : ProtocolCall Address) :
    Decidable (CountersFitIn d p call) :=
  inferInstanceAs (Decidable (∀ _ ∈ _, ∀ _ ∈ _, _))

/-! ### One call -/

theorem callPair_of_exec {op : Op Address} {byFactory : Bool} {pair : Address}
    {pairOp : CoralSwap.Op Address} (hop : op.asPairCall = some (byFactory, pair, pairOp))
    (hexec : exec d p (env, op) = .ok p') : p.callPair d env byFactory pair pairOp = .ok p' := by
  cases op with
  | pair contract op =>
      cases hop
      exact mapCode_eq_ok.mp hexec
  | setPairLpTokenPaused setter contract paused =>
      cases hop
      simp only [exec, setPairLpTokenPaused, mapCode_eq_ok, bind_eq_ok, nested_eq_ok] at hexec
      exact hexec.choose_spec.2
  | setPairStaleThreshold setter contract threshold =>
      cases hop
      simp only [exec, setPairStaleThreshold, mapCode_eq_ok, bind_eq_ok, nested_eq_ok] at hexec
      exact hexec.choose_spec.2
  | _ => cases hop

theorem totalCollected_of_eq (token : Address) (hlist : p'.factory.pairList = p.factory.pairList)
    (hpools : p'.pool = p.pool) : totalCollected p' token = totalCollected p token := by
  unfold totalCollected collectedBy
  rw [hlist, hpools]

/-- A call of one pair changes the total by what it adds to the counters of that pair. -/
theorem totalCollected_of_calls {byFactory : Bool} {pair token : Address} {op : CoralSwap.Op Address}
    {w w' : World Address} {relayed : Protocol Address} {amount : ℤ} (hregistered : Registered d p)
    (hcall : CallsPool d env p byFactory pair op w w' relayed)
    (hadded : w'.collectedOf token = w.collectedOf token + amount) :
    totalCollected relayed token = totalCollected p token + amount := by
  have hlisted : pair ∈ p.factory.pairList.toFinset := by
    rw [List.mem_toFinset, ← hregistered.pool, hcall.pool]
    rfl
  have heach : ∀ other, collectedBy relayed token other =
      collectedBy p token other + if pair = other then amount else 0 := by
    intro other
    unfold collectedBy
    by_cases hother : other = pair
    · subst hother
      rw [hcall.pool_self, hcall.pool, if_pos rfl]
      exact hadded
    · rw [hcall.pool_of_ne hother, if_neg (Ne.symm hother), add_zero]
  have hlist : relayed.factory.pairList = p.factory.pairList := by
    rw [hcall.result]
    rfl
  unfold totalCollected
  rw [hlist, Finset.sum_congr rfl fun other _ => heach other, Finset.sum_add_distrib,
    Finset.sum_ite_eq, if_pos hlisted]

theorem totalCollected_of_setFrozen {pair : Address} {frozen : Bool} {w w' : World Address}
    {relayed : Protocol Address} (hregistered : Registered d p)
    (hcall : CallsPool d env p true pair (.setFrozen frozen) w w' relayed) (token : Address) :
    totalCollected relayed token = totalCollected p token := by
  have hkept : w'.collectedOf token = w.collectedOf token + 0 := by
    rw [setFrozen_ok hcall.called, add_zero]
    rfl
  exact (totalCollected_of_calls hregistered hcall hkept).trans (add_zero _)

theorem totalCollected_of_creates {tokenA tokenB token0 token1 pair lpToken : Address}
    {storage : FactoryStorage Address} {w : World Address} (hregistered : Registered d p)
    (hcreate : Creates d env p tokenA tokenB token0 token1 pair lpToken storage w p') (token : Address) :
    totalCollected p' token = totalCollected p token := by
  have hunlisted := hcreate.unlisted hregistered
  have hnew : collectedBy p' token pair = 0 := by
    obtain ⟨-, -, hopened⟩ := initializePair_ok hcreate.opened
    unfold collectedBy
    rw [hcreate.pool_self, hopened]
    unfold World.collectedOf PairStorage.amountOf
    simp [World.collected, getProtocolFeeBalance, World.deployed]
  have hkept : ∀ other ∈ p.factory.pairList.toFinset,
      collectedBy p' token other = collectedBy p token other := by
    intro other hother
    unfold collectedBy
    rw [hcreate.pool_of_ne]
    rintro rfl
    exact hunlisted (List.mem_toFinset.mp hother)
  have hset : p'.factory.pairList.toFinset = insert pair p.factory.pairList.toFinset := by
    rw [hcreate.pairList, List.toFinset_append, Finset.union_comm]
    rfl
  unfold totalCollected
  rw [hset, Finset.sum_insert fun hmem => hunlisted (List.mem_toFinset.mp hmem), hnew, zero_add,
    Finset.sum_congr rfl hkept]

/-- **Step.** The counters of all pairs together go up by what the call forwards. -/
theorem totalCollected_of_exec {op : Op Address} (hreach : PoolsReachable p)
    (hregistered : Registered d p) (hfits : Unsaturated d p (env, op))
    (hexec : exec d p (env, op) = .ok p') (token : Address) :
    totalCollected p' token = totalCollected p token + takenIn d token p (env, op) := by
  cases hop : op.asPairCall with
  | some called =>
      obtain ⟨byFactory, pair, pairOp⟩ := called
      simp only [takenIn, hop]
      rcases callPair_ok (callPair_of_exec hop hexec) with ⟨w, w', hcall⟩ | ⟨hpool, rfl⟩
      · rw [hcall.pool]
        obtain ⟨state, hstate, -⟩ := hregistered.opened pair w hcall.pool
        exact totalCollected_of_calls hregistered hcall (collectedOf_eq_add hstate
          (collected_nonneg_of_reachable (hreach pair w hcall.pool))
          (hfits ⟨p', hexec⟩ _ hop w hcall.pool) hcall.called token)
      · rw [hpool]
        exact (add_zero _).symm
  | none =>
      simp only [takenIn, hop, add_zero]
      cases effect_of_exec hexec with
      | recorded _ _ hresult =>
          subst hresult
          exact totalCollected_of_eq token rfl rfl
      | still _ hresult => rw [hresult]
      | created hcreate => exact totalCollected_of_creates hregistered hcreate token
      | froze _ _ _ hcall hresult =>
          subst hresult
          rw [← totalCollected_of_setFrozen hregistered hcall token]
          refine totalCollected_of_eq token ?_ rfl
          rw [hcall.result]
          rfl
      | froze_unknown _ _ _ hresult =>
          subst hresult
          exact totalCollected_of_eq token rfl rfl
      | deposited hresult =>
          subst hresult
          exact totalCollected_of_eq token rfl rfl
      | proposed _ _ _ hresult =>
          subst hresult
          exact totalCollected_of_eq token rfl rfl
      | executed _ _ hresult =>
          subst hresult
          exact totalCollected_of_eq token rfl rfl
      | cancelled _ hresult =>
          subst hresult
          exact totalCollected_of_eq token rfl rfl
      | called hcalled => cases hop.symm.trans hcalled
      | reinitialized hpool hinit =>
          have hadmin := admin_of_reachable (hreach _ _ hpool)
          exact (not_reinitialized (by rw [hadmin]; rfl) hinit).elim

/-- Nobody but a pair can report to the factory. -/
theorem protocolFeeBalance_of_exec {op : Op Address} (hsilent : PairsSilent p (env, op))
    (hexec : exec d p (env, op) = .ok p') :
    p'.factory.protocolFeeBalance = p.factory.protocolFeeBalance := by
  cases effect_of_exec hexec with
  | @deposited pair =>
      simp only [exec, factoryCall, FactoryContract.depositProtocolFee, bind_eq_ok, mapCode_eq_ok,
        require_eq_ok, failIf_eq_ok, Bool.not_eq_false] at hexec
      obtain ⟨_, ⟨-, hauth, -, -, -, -, -, hpair, -⟩, -⟩ := hexec
      rw [hsilent pair hpair] at hauth
      cases hauth
  | recorded _ _ hresult => rw [hresult]; rfl
  | still _ hresult => rw [hresult]
  | created hcreate => rw [hcreate.result]; rfl
  | froze _ _ _ _ hresult => rw [hresult]; rfl
  | froze_unknown _ _ _ hresult => rw [hresult]; rfl
  | proposed _ _ _ hresult => rw [hresult]; rfl
  | executed _ _ hresult => rw [hresult]; rfl
  | cancelled _ hresult => rw [hresult]; rfl
  | called _ hcall => rw [hcall.result]; rfl
  | reinitialized _ _ hresult => rw [hresult]; rfl

/-! ### Runs -/

theorem takenIn_nonneg (token : Address) (p : Protocol Address) (call : ProtocolCall Address) :
    0 ≤ takenIn d token p call := by
  unfold takenIn
  split
  · cases p.pool _ with
    | none => exact le_rfl
    | some w => exact takenOf_nonneg _ w _ token
  · exact le_rfl

/-- The three records agree. -/
structure FeeLedgersAgree (d : Deployment Address) (calls : List (ProtocolCall Address)) : Prop where
  reported : ∀ token, (after d calls).factory.getProtocolFeeBalance token =
    totalCollected (after d calls) token
  counted : ∀ token, totalCollected (after d calls) token = transferred d token calls

variable {calls : List (ProtocolCall Address)}

/-- What the pairs count is what they transfer. -/
theorem totalCollected_eq_transferred
    (hfits : (machine d).Along (Unsaturated d) (deployed d) calls) (token : Address) :
    totalCollected (after d calls) token = transferred d token calls := by
  have hstep : ∀ p sum (call : ProtocolCall Address) p',
      (PoolsReachable p ∧ Registered d p ∧ totalCollected p token = sum) → Unsaturated d p call →
      (machine d).exec p call = .ok p' →
      PoolsReachable p' ∧ Registered d p' ∧ totalCollected p' token = sum + takenIn d token p call := by
    rintro p sum ⟨env, op⟩ p' ⟨hreach, hregistered, htotal⟩ hcall hexec
    refine ⟨poolsReachable_of_exec hreach hexec, registered_of_exec hreach hregistered hexec, ?_⟩
    rw [totalCollected_of_exec hreach hregistered hcall hexec, htotal]
  have hrun := Machine.run_total hstep ⟨poolsReachable d [], registered_deployed d, rfl⟩ hfits
  exact hrun.2.2.trans (zero_add _)

theorem protocolFeeBalance_eq_zero
    (hsilent : (machine d).Along PairsSilent (deployed d) calls) (token : Address) :
    (after d calls).factory.getProtocolFeeBalance token = 0 := by
  refine Machine.run_invariant (m := machine d)
    (I := fun p => p.factory.getProtocolFeeBalance token = 0) ?_ rfl hsilent
  rintro p ⟨env, op⟩ p' hzero hcall hexec
  unfold FactoryContract.getProtocolFeeBalance at *
  rw [protocolFeeBalance_of_exec hcall hexec, hzero]

/-- No accepted call of the run forwards a fee: wherever it swaps, the protocol fee is off, or the
protocol's share of the fee on what came in rounds to nothing. -/
def NothingTaken (d : Deployment Address) (p : Protocol Address) (call : ProtocolCall Address) : Prop :=
  (machine d).Accepts p call → ∀ token, takenIn d token p call = 0

theorem along_nothingTaken_iff (p : Protocol Address) :
    (machine d).Along (NothingTaken d) p calls ↔
      ∀ token, (machine d).Along (fun p call => (machine d).Accepts p call → takenIn d token p call = 0)
        p calls := by
  induction calls generalizing p with
  | nil => exact iff_of_true trivial fun _ => trivial
  | cons call rest ih =>
      unfold Machine.Along
      rw [ih]
      constructor
      · rintro ⟨hhead, htail⟩ token
        exact ⟨fun haccepts => hhead haccepts token, htail token⟩
      · intro h
        exact ⟨fun haccepts token => (h token).1 haccepts, fun token => (h token).2⟩

/-- **Fee records.** In a run in which no counter saturates, the factory's balances agree with what the
pairs have counted and transferred exactly when no swap of the run has forwarded a fee. -/
theorem feeLedgersAgree_iff (hsilent : (machine d).Along PairsSilent (deployed d) calls)
    (hfits : (machine d).Along (Unsaturated d) (deployed d) calls) :
    FeeLedgersAgree d calls ↔ (machine d).Along (NothingTaken d) (deployed d) calls := by
  have hcounted := totalCollected_eq_transferred hfits
  have hreported := protocolFeeBalance_eq_zero hsilent
  have hzero : ∀ token, transferred d token calls = 0 ↔
      (machine d).Along (fun p call => (machine d).Accepts p call → takenIn d token p call = 0)
        (deployed d) calls := fun token => Machine.total_eq_zero_iff (takenIn_nonneg token)
  rw [along_nothingTaken_iff]
  constructor
  · intro hagree token
    rw [← hzero, ← hcounted, ← hagree.reported, hreported]
  · intro hnothing
    refine ⟨fun token => ?_, hcounted⟩
    rw [hreported, hcounted, (hzero token).mpr (hnothing token)]

/-! ### A fee that is not reported -/

/-- Address 1 governs the factory and holds the tokens. -/
def feeEnv : ProtocolEnv ℕ where
  auth := fun who => who = 1
  sequence := 0
  timestamp := 0
  uploaded := fun _ => true
  token := fun _ => .issued 1 5000000 (by decide)
  accepts := fun _ => false

def feeDeployment : Deployment ℕ where
  factory := 0
  crypto :=
    { toXdr := fun who => [UInt8.ofNat who]
      sha256 := id
      ed25519Verify := fun _ _ _ => false }
  deployedAddress := fun salt => salt.foldl (fun sum byte => sum * 256 + byte.toNat) 0 + 1000

/-- With the protocol fee on, a pool is opened at 1258 and takes a million in. -/
def feeCalls : List (ProtocolCall ℕ) :=
  [.factory (.initializeFactory [1] (.replicate 32 0) (.replicate 32 0) (.replicate 32 0) 1),
    .factory (.setFeeConfig 1 (some 5) 30), .createPair 1 2,
    .pair 1258 (.external (.transferA 1 1258 1000000)),
    .pair 1258 (.external (.transferB 1 1258 1000000)), .pair 1258 (.mint 1),
    .pair 1258 (.external (.transferA 1 1258 1000000)),
    .pair 1258 (.swap 0 400000 1)].map fun op => (feeEnv, op)

theorem pairsSilent_feeCalls :
    (machine feeDeployment).Along PairsSilent (deployed feeDeployment) feeCalls := by
  have hunlisted : (machine feeDeployment).Along (fun p _ => p.factory.isPair 1 = false)
      (deployed feeDeployment) feeCalls := by decide +kernel
  have henv : (machine feeDeployment).Along (fun _ call => call.1 = feeEnv) (deployed feeDeployment)
      feeCalls := Machine.along_of_forall_mem (by simp [feeCalls]) _
  refine (hunlisted.and henv).mono ?_
  rintro p call ⟨hnone, hcall⟩ pair hpair
  rw [hcall]
  refine decide_eq_false ?_
  rintro rfl
  cases hnone.symm.trans hpair

theorem unsaturated_feeCalls :
    (machine feeDeployment).Along (Unsaturated feeDeployment) (deployed feeDeployment) feeCalls := by
  have hfit : (machine feeDeployment).Along (CountersFitIn feeDeployment) (deployed feeDeployment)
      feeCalls := by decide +kernel
  refine hfit.mono ?_
  intro p call hcall _
  exact hcall

theorem not_feeLedgersAgree_feeCalls : ¬FeeLedgersAgree feeDeployment feeCalls := by
  intro hagree
  have hreported := hagree.reported 1
  have hzero : (after feeDeployment feeCalls).factory.getProtocolFeeBalance 1 = 0 := by decide +kernel
  have htotal : totalCollected (after feeDeployment feeCalls) 1 = 9 := by decide +kernel
  rw [hzero, htotal] at hreported
  cases hreported

/-- A swap forwards nine units of the fee, and counts them; the factory reports none. -/
theorem not_feeLedgersAgree_of_swap :
    ¬∀ (d : Deployment ℕ) (calls : List (ProtocolCall ℕ)),
      (machine d).Along PairsSilent (deployed d) calls →
        (machine d).Along (Unsaturated d) (deployed d) calls → FeeLedgersAgree d calls := by
  intro hagree
  exact not_feeLedgersAgree_feeCalls
    (hagree feeDeployment feeCalls pairsSilent_feeCalls unsaturated_feeCalls)

theorem taken_feeCalls :
    ¬(machine feeDeployment).Along (NothingTaken feeDeployment) (deployed feeDeployment) feeCalls := by
  intro hnothing
  exact not_feeLedgersAgree_feeCalls
    ((feeLedgersAgree_iff pairsSilent_feeCalls unsaturated_feeCalls).mpr hnothing)

end Protocol

end CoralSwap
