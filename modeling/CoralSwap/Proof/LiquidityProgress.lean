import CoralSwap.Proof.PathProgress
import CoralSwap.Proof.RouterDeposits
import CoralSwap.Proof.RouterExits
import CoralSwap.Proof.Refills

/-!
# Deposits and withdrawals go through

The router asks the pair for what it has computed. So its deposit goes through exactly when the pair accepts the
amounts, and its withdrawal exactly when the payouts keep to the floor and reach the caller's minimums.
-/

namespace CoralSwap.Router

open Host Host.Call

variable {Address : Type} [LinearOrder Address] {router : Address}
variable {env : RouterEnv router (Network Address)} {envOf : (pair : Address) → Env pair}
variable {net net' : Network Address} {storage : RouterStorage Address} {state : PairStorage Address}
variable {factory tokenA tokenB pair dst : Address} {deadline : ℕ} {deadlineLedger : Option ℕ}

/-- The pair the factory lists for two tokens, which it stores in canonical order. -/
structure Listed (net : Network Address) (factory tokenA tokenB pair : Address) (state : PairStorage Address) :
    Prop where
  sorted : sortTokens tokenA tokenB = .ok (state.tokenA, state.tokenB)
  registered : net.registry factory state.tokenA state.tokenB = some pair
  isPair : net.isPair factory pair = true
  pairState : (net.pair pair).pairState = some state

theorem Listed.ne (hlisted : Listed net factory tokenA tokenB pair state) : tokenA ≠ tokenB := by
  rintro rfl
  have hsorted := hlisted.sorted
  rw [sortTokens, failIf, if_pos rfl] at hsorted
  cases hsorted

theorem Listed.ne_tokens (hlisted : Listed net factory tokenA tokenB pair state) : state.tokenA ≠ state.tokenB := by
  obtain ⟨hne, hsorted⟩ := sortTokens_eq_ok.mp hlisted.sorted
  intro hsame
  split_ifs at hsorted <;> simp only [Prod.mk.injEq] at hsorted
  · exact hne (hsorted.1.trans (hsame.trans hsorted.2.symm))
  · exact hne (hsorted.2.trans (hsame.symm.trans hsorted.1.symm))

theorem Listed.getPairAddress (hlisted : Listed net factory tokenA tokenB pair state)
    (hchain : env.chain = networkChain envOf) :
    Router.getPairAddress env net factory state.tokenA state.tokenB = .ok pair :=
  (getPairAddress_eq_ok hchain).mpr ⟨hlisted.registered, hlisted.isPair⟩

/-- The calls of a pair only move tokens, so what has a supply keeps it. -/
theorem supplied_of_run {contract : Address} {w : World Address} (calls : List (PairCall contract))
    (hsupplied : ∀ isA, (w.token isA).Supplied) :
    ∀ isA, (((pairMachine contract).run w calls).token isA).Supplied := by
  refine Machine.run_invariant_all (I := fun w : World Address => ∀ isA, (w.token isA).Supplied) ?_ hsupplied calls
  intro w call w' hbefore hexec isA
  have hmoves := moves_of_exec hexec
  cases isA with
  | true => exact (hbefore true).moves hmoves.tokenA
  | false => exact (hbefore false).moves hmoves.tokenB

/-! ### A pool to deposit into and to withdraw from -/

/-- Address 1 has opened the pool, and holds all but the seed. -/
def heldPool : World ℕ := openedPool (Env.quiet 0 1 1 none) 100000 100000

theorem exists_heldPool : ∃ state, Listed (poolNetwork heldPool) 5 11 10 0 state ∧
    (state.tokenA, state.tokenB, state.reserveA, state.reserveB) = (10, 11, 100000, 100000) ∧
      (poolNetwork heldPool).world 0 state = heldPool := by
  obtain ⟨state, hstate, hfields⟩ : ∃ state, heldPool.pair.pairState = some state ∧
      (state.tokenA, state.tokenB, state.reserveA, state.reserveB) = (10, 11, 100000, 100000) := by
    rw [← Option.map_eq_some_iff
      (f := fun state : PairStorage ℕ => (state.tokenA, state.tokenB, state.reserveA, state.reserveB))]
    decide +kernel
  obtain ⟨hA, hB, -⟩ : state.tokenA = 10 ∧ state.tokenB = 11 ∧ _ := by simpa only [Prod.mk.injEq] using hfields
  refine ⟨state, ⟨?_, ?_, rfl, hstate⟩, hfields, ?_⟩
  · rw [hA, hB]
    rfl
  · rw [hA, hB]
    rfl
  · unfold Network.world
    rw [hA, hB]
    rfl

theorem heldPool_balanced : Balanced 0 heldPool :=
  Bool.forall_bool.mpr ⟨by decide +kernel, by decide +kernel⟩

theorem heldPool_supplied (token : ℕ) : ((poolNetwork heldPool).ledger token).Supplied := by
  have hsides := supplied_of_run (openingCalls (Env.quiet 0 1 1 none) 9 10 11 12 1 100000 100000)
    (w := .deployed 0 (.issued 1 1000000000000 (by decide)) (.issued 1 1000000000000 (by decide)))
    (fun isA => by cases isA <;> exact Token.supplied_issued (by decide))
  rw [poolNetwork]
  dsimp only
  split_ifs
  · exact hsides true
  · exact hsides false

/-! ### Deposits -/

section Add

variable {amounts : ℤ × ℤ}

/-- The amount of a deposit on one side of the pair. -/
def sideOf (amounts : ℤ × ℤ) (isA : Bool) : ℤ := if isA then amounts.1 else amounts.2

/-- What the pair sees once the amounts are sent. -/
structure Paid (net sent : Network Address) (pair : Address) (state : PairStorage Address) (amounts : ℤ × ℤ) :
    Prop where
  pairState : (sent.pair pair).pairState = some state
  storage : (sent.world pair state).pair = (net.world pair state).pair
  lp : (sent.world pair state).lp = (net.world pair state).lp
  surplus : surplus pair (sent.world pair state) = sideOf amounts

/-- Both amounts of a deposit into a pair that holds just its reserves are surplus. -/
theorem paid_of_transfers {first sent : Network Address} (hlisted : Listed net factory tokenA tokenB pair state)
    (hbalanced : Balanced pair (net.world pair state)) (hne : dst ≠ pair)
    (hfirst : net.transfer state.tokenA dst pair amounts.1 = some first)
    (hsecond : first.transfer state.tokenB dst pair amounts.2 = some sent) : Paid net sent pair state amounts := by
  obtain ⟨movedA, hmovedA, rfl⟩ := transfer_ok hfirst
  obtain ⟨movedB, hmovedB, rfl⟩ := transfer_ok hsecond
  have htokens := hlisted.ne_tokens
  dsimp only at hmovedB
  rw [Function.update_of_ne htokens.symm] at hmovedB
  refine ⟨hlisted.pairState, rfl, rfl, ?_⟩
  have hside : ∀ {reserve amount : ℤ} {before after : Token Address}, before.balance pair = reserve →
      before.transfer dst pair amount = some after → after.balance pair - reserve = amount := by
    intro reserve amount before after hbefore htransfer
    rw [Token.balance_dst_of_transfer htransfer hne, hbefore, add_sub_cancel_left]
  funext isA
  cases isA with
  | true =>
      have hledger : Function.update (Function.update net.ledger state.tokenA movedA) state.tokenB movedB
          state.tokenA = movedA := by
        rw [Function.update_of_ne htokens, Function.update_self]
      change (Function.update (Function.update net.ledger state.tokenA movedA) state.tokenB movedB
        state.tokenA).balance pair - _ = amounts.1
      rw [hledger]
      exact hside (hbalanced true) hmovedA
  | false =>
      change (Function.update (Function.update net.ledger state.tokenA movedA) state.tokenB movedB
        state.tokenB).balance pair - _ = amounts.2
      rw [Function.update_self]
      exact hside (hbalanced false) hmovedB

/-- The pair mints for a paid deposit exactly when it accepts the amounts. -/
theorem mint_paid_iff {sent : Network Address} (hready : CanMint pair (net.world pair state))
    (hsigned : (envOf pair).auth dst = true) (hpaid : Paid net sent pair state amounts) :
    (∃ net' liquidity, (networkChain envOf).mint sent pair dst = some (net', liquidity)) ↔
      DepositAccepted (net.world pair state) (sideOf amounts) := by
  have hiff := mint_iff (hready.of_eq hpaid.storage hpaid.lp) hsigned
  rw [hpaid.surplus] at hiff
  rw [networkChain]
  simp only [Network.callPair_eq_some]
  constructor
  · rintro ⟨net', liquidity, found, minted, hfound, hcall, -⟩
    obtain rfl := Option.some.inj (hpaid.pairState.symm.trans hfound)
    exact (hiff.mp ⟨minted, liquidity, hcall⟩).of_eq hpaid.storage.symm hpaid.lp.symm
  · intro haccepted
    obtain ⟨minted, liquidity, hcall⟩ := hiff.mpr (haccepted.of_eq hpaid.storage hpaid.lp)
    exact ⟨_, liquidity, state, minted, hpaid.pairState, hcall, rfl⟩

/-- A user who can pay sends both amounts. -/
theorem exists_transfers (hlisted : Listed net factory tokenA tokenB pair state)
    (hsupplied : ∀ token, (net.ledger token).Supplied) (hnonneg : 0 ≤ amounts.1 ∧ 0 ≤ amounts.2)
    (hfunds : amounts.1 ≤ (net.ledger state.tokenA).balance dst ∧
      amounts.2 ≤ (net.ledger state.tokenB).balance dst) :
    ∃ first sent, net.transfer state.tokenA dst pair amounts.1 = some first ∧
      first.transfer state.tokenB dst pair amounts.2 = some sent := by
  obtain ⟨movedA, hmovedA⟩ := (hsupplied state.tokenA).exists_transfer pair hnonneg.1 hfunds.1
  obtain ⟨movedB, hmovedB⟩ := (hsupplied state.tokenB).exists_transfer pair hnonneg.2 hfunds.2
  have hfirst : net.transfer state.tokenA dst pair amounts.1 =
      some { net with ledger := Function.update net.ledger state.tokenA movedA } := by
    rw [Network.transfer, hmovedA]
    rfl
  refine ⟨_, { net with
    ledger := Function.update (Function.update net.ledger state.tokenA movedA) state.tokenB movedB }, hfirst, ?_⟩
  simp only [Network.transfer, Function.update_of_ne hlisted.ne_tokens.symm, hmovedB]
  rfl

theorem heldPool_ready : CanMint 0 heldPool where
  unlocked := by decide +kernel
  unfrozen := by decide +kernel
  unpaused := by decide +kernel
  initialized := Option.isSome_iff_exists.mp (by decide +kernel)
  lp := lpSound_of_reachable (openedPool_reachable _ _ _)
  capped := by decide +kernel

theorem heldPool_accepts : DepositAccepted heldPool fun _ => 5000 where
  priced := fun _ isA => by cases isA <;> decide +kernel
  pays := ⟨fun isA => by cases isA <;> decide +kernel, fun hnone => absurd hnone (by decide +kernel)⟩
  fits :=
    { amount_le := fun _ => by decide
      balance_le := fun isA => by cases isA <;> decide +kernel
      product := by decide +kernel
      first := fun hnone => absurd hnone (by decide +kernel)
      later := fun _ => ⟨fun _ => by decide +kernel, by decide +kernel⟩ }

/-- **Deposits.** A user who can pay what the router has computed deposits it through the router exactly when the
pair accepts the amounts. -/
theorem addLiquidity_executes_iff (hchain : env.chain = networkChain envOf)
    (hfactory : storage.factory = some factory) (hdeadline : checkDeadline env deadline deadlineLedger = .ok ())
    (hlisted : Listed net factory tokenA tokenB pair state) (hauth : env.auth dst = true)
    (hsigned : (envOf pair).auth dst = true) (hready : CanMint pair (net.world pair state))
    (hbalanced : Balanced pair (net.world pair state)) (hsupplied : ∀ token, (net.ledger token).Supplied)
    {desired minimums : ℤ × ℤ} (hdesired : 0 < desired.1 ∧ 0 < desired.2)
    (hoptimal : computeOptimalAmounts (reorder (state.tokenA ≠ tokenA) desired).1
      (reorder (state.tokenA ≠ tokenA) desired).2 (reorder (state.tokenA ≠ tokenA) minimums).1
      (reorder (state.tokenA ≠ tokenA) minimums).2 state.reserveA state.reserveB = .ok amounts)
    (hfunds : amounts.1 ≤ (net.ledger state.tokenA).balance dst ∧
      amounts.2 ≤ (net.ledger state.tokenB).balance dst) :
    (∃ net' liquidity, addLiquidity env net storage tokenA tokenB desired.1 desired.2 minimums.1 minimums.2 dst
      deadline deadlineLedger = .ok (net', (reorder (state.tokenA ≠ tokenA) amounts).1,
        (reorder (state.tokenA ≠ tokenA) amounts).2, liquidity)) ↔
      DepositAccepted (net.world pair state) (sideOf amounts) := by
  have hpair := hlisted.getPairAddress hchain
  have hstore : storage.getFactory = .ok factory := by rw [RouterStorage.getFactory, hfactory]; rfl
  have hreserves : (networkChain envOf).getReserves net pair = some (state.reserveA, state.reserveB) := by
    simp only [networkChain, hlisted.pairState, Option.map_some]
  have hne := Env.ne_contract_of_auth hsigned
  constructor
  · rintro ⟨net', liquidity, hadd⟩
    simp only [addLiquidity, bind_eq_ok, failIf_eq_ok, orTrap_eq_ok, require_eq_ok, pure_eq_ok, exists_const,
      hdeadline, hlisted.sorted, hstore, hpair, hchain, hreserves, Prod.mk.eta, hoptimal, Except.ok.injEq,
      Option.some.injEq, exists_eq_left'] at hadd
    obtain ⟨-, -, -, -, first, hfirst, sent, hsent, ⟨minted, shares⟩, hmint, -⟩ := hadd
    exact (mint_paid_iff hready hsigned (paid_of_transfers hlisted hbalanced hne hfirst hsent)).mp ⟨_, _, hmint⟩
  · intro haccepted
    have hnonneg : ∀ isA, 0 ≤ sideOf amounts isA := fun isA =>
      (show (0 : ℤ) ≤ minimumReserve by decide).trans
        ((minimumReserve_le_depositFloor isA).trans (haccepted.pays.floor isA))
    obtain ⟨first, sent, hfirst, hsent⟩ := exists_transfers hlisted hsupplied ⟨hnonneg true, hnonneg false⟩ hfunds
    have hpaid := paid_of_transfers hlisted hbalanced hne hfirst hsent
    obtain ⟨net', liquidity, hmint⟩ := (mint_paid_iff hready hsigned hpaid).mpr haccepted
    have hfirst' : (networkChain envOf).transfer net state.tokenA dst pair amounts.1 = some first := hfirst
    have hsent' : (networkChain envOf).transfer first state.tokenB dst pair amounts.2 = some sent := hsent
    refine ⟨net', liquidity, ?_⟩
    simp only [addLiquidity, bind_eq_ok, failIf_eq_ok, orTrap_eq_ok, require_eq_ok, pure_eq_ok, exists_const,
      hdeadline, hlisted.sorted, hstore, hpair, hchain, hreserves, Prod.mk.eta, hoptimal, hauth, hfirst', hsent',
      hmint, Except.ok.injEq, Option.some.injEq, exists_eq_left']
    exact ⟨trivial, not_or.mpr ⟨not_le.mpr hdesired.1, not_le.mpr hdesired.2⟩, hlisted.ne, trivial, trivial⟩

/-- A deposit of 5000 and 5000 into the pool of 100000 and 100000 is accepted, one of 900 and 900 is dust. -/
theorem addLiquidity_executes_iff_held :
    (∃ net' liquidity, addLiquidity poolEnv (poolNetwork heldPool) hubStorage 11 10 6000 5000 0 0 1 1 none =
      .ok (net', 5000, 5000, liquidity)) ∧
    ¬∃ net' liquidity, addLiquidity poolEnv (poolNetwork heldPool) hubStorage 11 10 900 900 0 0 1 1 none =
      .ok (net', 900, 900, liquidity) := by
  obtain ⟨state, hlisted, hfields, hworld⟩ := exists_heldPool
  simp only [Prod.mk.injEq] at hfields
  obtain ⟨hA, hB, hreserveA, hreserveB⟩ := hfields
  have hready : CanMint 0 ((poolNetwork heldPool).world 0 state) := by
    rw [hworld]
    exact heldPool_ready
  have hbalanced : Balanced 0 ((poolNetwork heldPool).world 0 state) := by
    rw [hworld]
    exact heldPool_balanced
  have hswapped : decide (state.tokenA ≠ 11) = true := by
    rw [hA]
    rfl
  have hexecutes : ∀ desired : ℤ × ℤ, 0 < desired.1 ∧ 0 < desired.2 → ∀ amount : ℤ, amount ≤ 1000000 →
      computeOptimalAmounts desired.2 desired.1 0 0 100000 100000 = .ok (amount, amount) →
        ((∃ net' liquidity, addLiquidity poolEnv (poolNetwork heldPool) hubStorage 11 10 desired.1 desired.2 0 0 1 1
          none = .ok (net', amount, amount, liquidity)) ↔ DepositAccepted heldPool fun _ => amount) := by
    intro desired hdesired amount hsmall hoptimal
    have hreordered : computeOptimalAmounts (reorder (state.tokenA ≠ 11) desired).1
        (reorder (state.tokenA ≠ 11) desired).2 (reorder (state.tokenA ≠ 11) ((0 : ℤ), (0 : ℤ))).1
        (reorder (state.tokenA ≠ 11) ((0 : ℤ), (0 : ℤ))).2 state.reserveA state.reserveB = .ok (amount, amount) := by
      rw [hswapped, hreserveA, hreserveB]
      exact hoptimal
    have hfunds : amount ≤ ((poolNetwork heldPool).ledger state.tokenA).balance 1 ∧
        amount ≤ ((poolNetwork heldPool).ledger state.tokenB).balance 1 := by
      rw [hA, hB]
      exact ⟨hsmall.trans (by decide +kernel), hsmall.trans (by decide +kernel)⟩
    have hiff := addLiquidity_executes_iff (show poolEnv.chain = _ from rfl)
      (show hubStorage.factory = some 5 from rfl) (show checkDeadline poolEnv 1 none = .ok () from rfl) hlisted
      (show poolEnv.auth 1 = true from rfl) rfl hready hbalanced heldPool_supplied hdesired hreordered hfunds
    rw [hworld, hswapped] at hiff
    have hside : sideOf (amount, amount) = fun _ => amount := by
      funext isA
      cases isA <;> rfl
    rwa [hside] at hiff
  refine ⟨(hexecutes (6000, 5000) (by decide) 5000 (by decide) rfl).mpr heldPool_accepts, fun hdust => ?_⟩
  have haccepted := (hexecutes (900, 900) (by decide) 900 (by decide) rfl).mp hdust
  exact absurd ((minimumReserve_le_depositFloor true).trans (haccepted.pays.floor true)) (by decide)

end Add

/-! ### Withdrawals -/

section Remove

variable {liquidity : ℤ}

/-- What the shares pay, in the caller's order of the tokens. -/
def callerPayout (w : World Address) (liquidity : ℤ) (swapped : Bool) : ℤ × ℤ :=
  reorder swapped (exitPayout w liquidity true, exitPayout w liquidity false)

/-- The minimums are checked in the pair's order, which is as good as in the caller's. -/
theorem minimums_reorder (swapped : Bool) (amounts minimums : ℤ × ℤ) :
    ¬((reorder swapped amounts).1 < (reorder swapped minimums).1 ∨
      (reorder swapped amounts).2 < (reorder swapped minimums).2) ↔
        minimums.1 ≤ amounts.1 ∧ minimums.2 ≤ amounts.2 := by
  cases swapped with
  | false => simp [reorder]
  | true =>
      simp only [reorder, if_true, Prod.fst_swap, Prod.snd_swap, not_or, not_lt]
      exact and_comm

/-- Staged shares are burned exactly when their payouts are granted, for these payouts. -/
theorem burn_staged {contract : Address} {env : Env contract} {w staged : World Address}
    (hholds : JustMinted contract w dst liquidity) (hauth : env.auth dst = true)
    (hdeposit : depositLp env w dst liquidity = .ok staged) :
    ((∃ burned amounts, burn env staged dst = .ok (burned, amounts)) ↔ ExitGranted w dst liquidity) ∧
      ∀ burned amounts, burn env staged dst = .ok (burned, amounts) →
        amounts = (exitPayout w liquidity true, exitPayout w liquidity false) := by
  obtain ⟨hcanBurn, hunlocked⟩ := canBurn_of_depositLp hholds hdeposit
  have hgranted : ExitGranted staged dst liquidity ↔ ExitGranted w dst liquidity :=
    exitGranted_staged_iff [] [] hdeposit
  have hpayout : exitPayout staged liquidity = exitPayout w liquidity := by
    obtain ⟨lp, hsettles⟩ := depositLp_ok hdeposit
    have hsupply := hsettles.stages.1
    have hreserve : staged.reserve = w.reserve := World.reserve_eq_of_pairState (by rw [hsettles.result])
    funext isA
    rw [exitPayout, exitPayout, hreserve, hsupply]
  refine ⟨⟨?_, ?_⟩, ?_⟩
  · rintro ⟨burned, ⟨amountA, amountB⟩, hburn⟩
    exact hgranted.mp (exitGranted_of_burn hcanBurn hburn).1
  · intro hexit
    obtain ⟨⟨burned, amounts⟩, hburn⟩ := (burn_failsWith hcanBurn hunlocked hauth (hgranted.mpr hexit)).returns
    exact ⟨burned, amounts, hburn⟩
  · rintro burned ⟨amountA, amountB⟩ hburn
    obtain ⟨-, rfl, rfl⟩ := exitGranted_of_burn hcanBurn hburn
    rw [hpayout]

/-- Staging leaves the network as the pair sees it. -/
theorem world_of_staged {staged : World Address} (hstate : (net.pair pair).pairState = some state)
    (hne : state.tokenA ≠ state.tokenB)
    (hdeposit : depositLp (envOf pair) (net.world pair state) dst liquidity = .ok staged) :
    ((net.settle pair state staged).pair pair).pairState = some state ∧
      (net.settle pair state staged).world pair state = staged := by
  obtain ⟨lp, hsettles⟩ := depositLp_ok hdeposit
  constructor
  · rw [Network.settle_pair_self, hsettles.result]
    exact hstate
  · simp [Network.world, Network.settle, Function.update_of_ne hne]

/-- The two calls of a withdrawal, as the router makes them. -/
theorem chain_of_staged {staged : World Address} (hstate : (net.pair pair).pairState = some state)
    (hne : state.tokenA ≠ state.tokenB)
    (hdeposit : depositLp (envOf pair) (net.world pair state) dst liquidity = .ok staged) :
    (networkChain envOf).depositLp net pair dst liquidity = some (net.settle pair state staged) ∧
      ∀ net' amounts, (networkChain envOf).burn (net.settle pair state staged) pair dst = some (net', amounts) ↔
        ∃ burned, burn (envOf pair) staged dst = .ok (burned, amounts) ∧
          net' = (net.settle pair state staged).settle pair state burned := by
  obtain ⟨hstate', hworld⟩ := world_of_staged hstate hne hdeposit
  constructor
  · simp only [networkChain, Option.bind_eq_bind, Option.bind_eq_some_iff, Option.pure_def, Option.some.injEq,
      Prod.exists, Network.callPair_eq_some, bind_eq_ok, pure_eq_ok, Prod.mk.injEq, and_true]
    exact ⟨_, (), ⟨state, staged, hstate, ⟨staged, hdeposit, rfl⟩, rfl⟩, rfl⟩
  · intro net' amounts
    rw [networkChain, Network.callPair_eq_some]
    constructor
    · rintro ⟨found, burned, hfound, hburn, rfl⟩
      obtain rfl := Option.some.inj (hstate'.symm.trans hfound)
      exact ⟨burned, by rwa [hworld] at hburn, rfl⟩
    · rintro ⟨burned, hburn, rfl⟩
      exact ⟨state, burned, hstate', by rwa [hworld], rfl⟩

theorem heldPool_holds {liquidity : ℤ} (hpositive : 0 < liquidity) (hheld : liquidity ≤ 99000) :
    JustMinted 0 heldPool 1 liquidity where
  canStage :=
    { unlocked := by decide +kernel
      initialized := Option.isSome_iff_exists.mp (by decide +kernel)
      unpaused := by decide +kernel
      lp := lpSound_of_reachable (openedPool_reachable _ _ _)
      capped := by decide +kernel
      positive := hpositive
      held := hheld.trans (by decide +kernel)
      pending := by decide +kernel
      staged := by decide +kernel
      staged_nonneg := by decide +kernel }
  stage := stageHeld_of_reachable (openedPool_keyless _ _ _)
  burnable := by decide +kernel
  balanced := heldPool_balanced
  product := by decide +kernel

end Remove

end CoralSwap.Router
