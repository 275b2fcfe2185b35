import CoralSwap.Proof.Dilution
import CoralSwap.Proof.FlashGrowth
import CoralSwap.Proof.LpHolders
import CoralSwap.Proof.RoundTrip

/-!
# Waiting with a staged withdrawal

Between staging and burning a user waits while others burn, stage, borrow, donate and sync. None of it
lowers what a share is worth in either token: exits are rounded in favour of those who stay, and the rest
only adds to the reserves. What could is a burn of a negative amount at the LP token, or a pool whose
seed was never locked.
-/

namespace CoralSwap

open Host Host.Call

variable {Address : Type} [DecidableEq Address] {contract : Address}

/-- The calls others make while `user` waits. -/
def Op.SparesStage (user : Address) : Op Address → Prop
  | .burn dst => dst ≠ user
  | .depositLp src _ => src ≠ user
  | .flashLoan .. | .sync | .external _ => True
  | _ => False

/-- A call by others, in which nobody signs for the pair and nobody forges shares. -/
structure Bystands (user : Address) (w : World Address) (call : PairCall contract) : Prop where
  op : call.2.SparesStage user
  keyless : Keyless call
  honest : ForgesNoShares w call

/-- The shares that are redeemed for the reserves: all but the seed. -/
def World.shares (w : World Address) : ℤ := w.lp.totalSupply - minimumLiquidity

/-- No share loses value on either side. -/
def PriceKept (w w' : World Address) : Prop :=
  ∀ isA, 0 ≤ w.reserve isA → 0 ≤ w'.reserve isA ∧
    Shares.NotCheaper (w.reserve isA) w.shares (w'.reserve isA) w'.shares

/-- While `user` waits with `staged` shares pending. -/
structure Awaits (contract user : Address) (staged : ℤ) (w : World Address) : Prop where
  pendingLp : w.pair.pendingLp user = staged
  escrow : ∃ e, Stages w e
  covered : Covered contract w
  seeded : Seeded contract w
  sound : LpSound contract w
  solvent : Solvent contract w

omit [DecidableEq Address] in
theorem Stages.addsUp {w : World Address} {e : Escrow Address} (hstages : Stages w e) :
    Ledger.AddsUp w.pair.pendingLp w.pair.pendingLpTotal :=
  ⟨e.staged, hstages.pendingLp, hstages.pendingLpTotal⟩

section Call

variable {env : Env contract} {w w' : World Address} {user dst : Address} {staged : ℤ}

omit [DecidableEq Address] in
/-- What is staged is part of the shares, and so is what anybody else can burn besides it. -/
theorem Awaits.burnable (hawaits : Awaits contract user staged w) {burnLp : ℤ}
    (hne : dst ≠ user) (hredeems : Redeems w contract dst burnLp) : burnLp + staged ≤ w.shares := by
  obtain ⟨e, hstages⟩ := hawaits.escrow
  have hseeded := hawaits.seeded
  have hheld := hawaits.sound.backed.balance_le contract
  have hboth := hstages.addsUp.add_balance_le hne
  have hone := hstages.addsUp.balance_le user
  rw [hawaits.pendingLp] at hboth hone
  unfold World.shares
  unfold Seeded at hseeded
  rcases hredeems with ⟨-, hamount⟩ | ⟨-, hamount⟩
  · omega
  · omega

omit [DecidableEq Address] in
theorem Awaits.staged_le (hawaits : Awaits contract user staged w) : staged ≤ w.shares := by
  obtain ⟨e, hstages⟩ := hawaits.escrow
  have hseeded := hawaits.seeded
  have hheld := hawaits.sound.backed.balance_le contract
  have hone := hstages.addsUp.balance_le user
  rw [hawaits.pendingLp] at hone
  unfold World.shares
  unfold Seeded at hseeded
  omega

omit [DecidableEq Address] in
theorem priceKept_of_le (hshares : 0 ≤ w.shares) (hreserve : ∀ isA, w.reserve isA ≤ w'.reserve isA)
    (hsupply : w'.lp.totalSupply ≤ w.lp.totalSupply) : PriceKept w w' := by
  intro isA hnonneg
  refine ⟨hnonneg.trans (hreserve isA), ?_⟩
  exact Shares.notCheaper_of_le hnonneg hshares (hreserve isA) (sub_le_sub_right hsupply _)

/-- An exit by somebody else leaves at least the shares that are staged, and their price. -/
theorem priceKept_of_burn {state : PairStorage Address} {burnLp amountA amountB : ℤ}
    {lp : LpToken Address} {tokenA tokenB : Token Address} (hawaits : Awaits contract user staged w)
    (hstaged : 0 < staged) (hne : dst ≠ user)
    (hburn : BurnSettles env w dst state burnLp lp tokenA tokenB w' amountA amountB) :
    PriceKept w w' := by
  obtain ⟨-, -, hlp⟩ := LpToken.burn_ok hburn.burned
  have hpositive := hburn.positive
  have hburnable := hawaits.burnable hne hburn.redeems
  have hshares : w'.shares = w.shares - burnLp := by
    rw [World.shares, hburn.result, hlp]
    exact sub_right_comm _ _ _
  have hreserve : ∀ isA, w'.reserve isA =
      w.reserve isA - Shares.redeemed burnLp (w.reserve isA) w.shares := by
    intro isA
    rw [World.reserve_of_pairState isA hburn.pairState, World.shares, hburn.result]
    cases isA
    · exact congrArg (state.reserveB - ·) hburn.shareB
    · exact congrArg (state.reserveA - ·) hburn.shareA
  intro isA hnonneg
  rw [hreserve, hshares]
  refine ⟨sub_nonneg.mpr ?_, Shares.notCheaper_of_redeemed hpositive.le hnonneg (by omega)⟩
  exact Shares.redeemed_le hpositive.le hnonneg (by omega) (by omega)

theorem totalSupply_le_of_flashLoan {receiver : Address} {amountA amountB : ℤ} {dataLen : ℕ}
    {callback : Callback Address} (hadmin : w.lp.admin = some contract)
    (hhonest : ForgesNoShares w (env, Op.flashLoan receiver amountA amountB dataLen callback))
    (hloan : flashLoan env w receiver amountA amountB dataLen callback = .ok w') :
    w'.lp.totalSupply ≤ w.lp.totalSupply := by
  rcases flashLoan_ok hloan with rfl | ⟨state, lentA, lentB, called, hsettles⟩
  · exact le_rfl
  · rw [hsettles.result, hsettles.called_eq]
    exact totalSupply_le_of_run hadmin hhonest

/-- **Step.** What others do while `user` waits lowers the price of no share. -/
theorem priceKept_of_exec {op : Op Address} (hawaits : Awaits contract user staged w)
    (hstaged : 0 < staged) (hbystands : Bystands user w (env, op))
    (hexec : exec w (env, op) = .ok w') : PriceKept w w' := by
  have hshares : 0 ≤ w.shares := hstaged.le.trans hawaits.staged_le
  cases callEffect_of_exec hexec with
  | depositLp hdeposit =>
      obtain ⟨-, -, -, hlp⟩ := LpToken.transfer_ok hdeposit.moved
      obtain rfl := hdeposit.result
      refine priceKept_of_le hshares (fun isA => le_rfl) ?_
      rw [hlp]
  | burn hburn => exact priceKept_of_burn hawaits hstaged hbystands.op hburn
  | flashLoan =>
      exact priceKept_of_le hshares (reserve_le_of_flashLoan hawaits.solvent hexec)
        (totalSupply_le_of_flashLoan hawaits.sound.admin hbystands.honest hexec)
  | emptyFlashLoan hresult =>
      subst hresult
      exact priceKept_of_le hshares (fun _ => le_rfl) le_rfl
  | sync hstate hresult =>
      subst hresult
      refine priceKept_of_le hshares (fun isA => ?_) le_rfl
      cases isA
      · exact hawaits.solvent.reserveB_le
      · exact hawaits.solvent.reserveA_le
  | @external action heffect =>
      have hframe := outsideFrame_of_external heffect
      have hsupply : ((externalMachine contract).run w [action]).lp.totalSupply ≤ w.lp.totalSupply :=
        totalSupply_le_of_run hawaits.sound.admin hbystands.honest
      rw [Machine.run_cons, Machine.run_nil,
        Machine.step_of_exec_ok (m := externalMachine contract) hexec] at hsupply
      refine priceKept_of_le hshares (fun isA => ?_) hsupply
      rw [World.reserve_eq_of_pairState (by rw [hframe.pair])]
  | _ => exact hbystands.op.elim

theorem pendingLp_of_bystander {op : Op Address} {e : Escrow Address} (hstages : Stages w e)
    (hop : op.SparesStage user) (hexec : exec w (env, op) = .ok w') :
    w'.pair.pendingLp user = w.pair.pendingLp user := by
  have hchange := changesOwnPending_of_stages hstages (env, op) user
  rw [Machine.step_of_exec_ok (m := pairMachine contract) hexec] at hchange
  by_contra hne
  obtain ⟨-, -, ⟨amount, rfl, -⟩ | ⟨rfl, -⟩⟩ := hchange hne
  · exact hop rfl
  · exact hop rfl

theorem awaits_of_exec {op : Op Address} (hawaits : Awaits contract user staged w)
    (hbystands : Bystands user w (env, op)) (hexec : exec w (env, op) = .ok w') :
    Awaits contract user staged w' := by
  obtain ⟨e, hstages⟩ := hawaits.escrow
  have hfirst : FirstSharesMinted w (env, op) := by
    refine Machine.Along.mono ?_ hbystands.honest
    intro t lpCall hburns _
    exact hburns
  obtain ⟨hcovered, hseeded⟩ := covered_of_exec hbystands.keyless hfirst hawaits.covered hexec
  refine ⟨?_, ⟨_, stages_of_exec hstages hexec⟩, hcovered, hseeded hawaits.seeded,
    lpSound_of_exec hawaits.sound hexec, solvent_of_exec hawaits.solvent ?_ hexec⟩
  · exact (pendingLp_of_bystander hstages hbystands.op hexec).trans hawaits.pendingLp
  · have hop := hbystands.op
    cases op <;> first | exact fun hmint => hmint | exact hop.elim

end Call

/-! ### Runs -/

omit [DecidableEq Address] in
theorem PriceKept.trans {w w' w'' : World Address} (hshares : 0 ≤ w.shares) (hshares' : 0 < w'.shares)
    (hshares'' : 0 ≤ w''.shares) (h : PriceKept w w') (h' : PriceKept w' w'') : PriceKept w w'' := by
  intro isA hnonneg
  obtain ⟨hnonneg', hprice⟩ := h isA hnonneg
  obtain ⟨hnonneg'', hprice'⟩ := h' isA hnonneg'
  exact ⟨hnonneg'', hprice.trans hshares hshares' hshares'' hprice'⟩

theorem priceKept_of_run {w : World Address} {user : Address} {staged : ℤ}
    {calls : List (PairCall contract)} (hstaged : 0 < staged) (hawaits : Awaits contract user staged w)
    (hcalls : (pairMachine contract).Along (Bystands user) w calls) :
    Awaits contract user staged ((pairMachine contract).run w calls) ∧
      PriceKept w ((pairMachine contract).run w calls) := by
  refine Machine.run_invariant (m := pairMachine contract)
    (I := fun w' => Awaits contract user staged w' ∧ PriceKept w w') ?_
    ⟨hawaits, fun isA hnonneg => ⟨hnonneg, Shares.NotCheaper.refl _ _⟩⟩ hcalls
  rintro w₁ ⟨env, op⟩ w₂ ⟨hawaits₁, hprice⟩ hbystands hexec
  have hawaits₂ := awaits_of_exec hawaits₁ hbystands hexec
  have hstep := priceKept_of_exec hawaits₁ hstaged hbystands hexec
  refine ⟨hawaits₂, hprice.trans ?_ ?_ ?_ hstep⟩
  · exact hstaged.le.trans hawaits.staged_le
  · exact hstaged.trans_le hawaits₁.staged_le
  · exact hstaged.le.trans hawaits₂.staged_le

omit [DecidableEq Address] in
theorem PriceKept.redeemed_le {w w' : World Address} {staged paid : ℤ} (isA : Bool)
    (hprice : PriceKept w w') (hstaged : 0 ≤ staged) (hshares : 0 < w.shares) (hshares' : 0 < w'.shares)
    (hpaid : paid = Shares.redeemed staged (w'.reserve isA) w'.shares) (hfloor : 0 ≤ paid) :
    Shares.redeemed staged (w.reserve isA) w.shares ≤ paid := by
  by_cases hnonneg : 0 ≤ w.reserve isA
  · obtain ⟨hnonneg', hcheaper⟩ := hprice isA hnonneg
    rw [hpaid]
    exact hcheaper.redeemed_le hstaged hnonneg hnonneg' hshares hshares'
  · exact (Shares.redeemed_nonpos hstaged (by omega) hshares.le).trans hfloor

/-- **Staged withdrawals.** Whatever others do while a user waits, the burn pays of each token at least
what it would have paid at the start, if the seed is locked and nobody forges shares. -/
theorem stagedExit_kept {w w' : World Address} {user : Address} {env : Env contract}
    {calls : List (PairCall contract)} {quotedA quotedB amountA amountB : ℤ}
    (hreach : KeylessReachable contract w) (hsolvent : Solvent contract w)
    (hseeded : Seeded contract w) (hpending : 0 < w.pair.pendingLp user)
    (hquoted : burnAmounts (w.pair.pendingLp user) w.reserveA w.reserveB
      (w.lp.totalSupply - minimumLiquidity) = .ok (quotedA, quotedB))
    (hcalls : (pairMachine contract).Along (Bystands user) w calls)
    (hburn : burn env ((pairMachine contract).run w calls) user = .ok (w', amountA, amountB)) :
    quotedA ≤ amountA ∧ quotedB ≤ amountB := by
  have hheld := stageHeld_of_reachable hreach
  have hawaits : Awaits contract user (w.pair.pendingLp user) w :=
    ⟨rfl, stages_of_reachable hreach.reachable, ⟨hheld.staged, hheld.held, Or.inr hseeded⟩, hseeded,
      lpSound_of_reachable hreach.reachable, hsolvent⟩
  obtain ⟨hawaits', hprice⟩ := priceKept_of_run hpending hawaits hcalls
  have hshares : 0 < w.shares := hpending.trans_le hawaits.staged_le
  have hshares' := hpending.trans_le hawaits'.staged_le
  have hpending' := hawaits'.pendingLp
  obtain ⟨_, _, _, _, _, hsettles⟩ := burn_ok hburn
  obtain ⟨hpaidA, hpaidB⟩ := hsettles.redeemsStage (by rwa [hpending'])
  rw [hpending'] at hpaidA hpaidB
  have hfloor : (0 : ℤ) ≤ minimumReserve := by decide
  simp only [burnAmounts, bind_eq_ok, share_eq_ok, pure_eq_ok, and_assoc, exists_and_left,
    exists_eq_left'] at hquoted
  obtain ⟨-, -, -, -, -, -, -, -, -, -, hresult⟩ := hquoted
  cases hresult
  exact ⟨hprice.redeemed_le true hpending.le hshares hshares' hpaidA (hfloor.trans hsettles.floorA),
    hprice.redeemed_le false hpending.le hshares hshares' hpaidB (hfloor.trans hsettles.floorB)⟩

/-! ### A stage of fifty thousand shares -/

def stagingEnv : Env 0 := Env.quiet 0 1 1 none

/-- The provider hands 20000 shares to address 2 and stages 50000. -/
def stagingCalls : List (PairCall 0) :=
  openingCalls stagingEnv 9 10 11 12 1 100000 100000 ++
    [(stagingEnv, .external
        (.lpCall ⟨1, fun who => who = 1, Crypto.rejecting ℕ⟩ (.transfer 1 2 20000))),
      (stagingEnv, .depositLp 1 50000)]

def stagedPool : World ℕ :=
  (pairMachine 0).run
    (World.deployed 0 (.issued 1 7000000 (by decide)) (.issued 1 7000000 (by decide))) stagingCalls

def bystanderCalls : List (PairCall 0) :=
  [(stagingEnv, .depositLp 2 10000), (stagingEnv, .external (.transferA 1 0 700)),
    (stagingEnv, .burn 2), (stagingEnv, .flashLoan 1 5000 0 0 ⟨[.transferA 1 0 5015], true⟩),
    (stagingEnv, .sync)]

theorem stagedPool_reachable : KeylessReachable 0 stagedPool := by
  refine ⟨_, _, stagingCalls, ?_, rfl⟩
  simp [stagingCalls, openingCalls, depositCalls, Keyless, outsideLpCalls, outsideActions,
    External.toLpCall, LpToken.Signs, Crypto.rejecting]

theorem stagedPool_solvent : Solvent 0 stagedPool := ⟨by decide +kernel, by decide +kernel⟩

theorem stagedPool_quoted : burnAmounts (stagedPool.pair.pendingLp 1) stagedPool.reserveA
    stagedPool.reserveB (stagedPool.lp.totalSupply - minimumLiquidity) = .ok (50505, 50505) := by
  decide +kernel

theorem bystands_bystanderCalls :
    (pairMachine 0).Along (Bystands 1) stagedPool bystanderCalls := by
  have hquiet : ∀ call ∈ bystanderCalls,
      call.2.SparesStage 1 ∧ outsideLpCalls call = [] := by
    simp [bystanderCalls, Op.SparesStage, outsideLpCalls, outsideActions, External.toLpCall]
  refine (Machine.along_of_forall_mem (m := pairMachine 0) hquiet stagedPool).mono ?_
  rintro w call ⟨hop, hnone⟩
  refine ⟨hop, fun lpCall hcall => ?_, ?_⟩
  · rw [hnone] at hcall
    cases hcall
  · rw [ForgesNoShares, hnone]
    trivial

theorem stagedExit_kept_bystanders : ∃ w',
    burn stagingEnv ((pairMachine 0).run stagedPool bystanderCalls) 1 = .ok (w', 50906, 50505) ∧
      (50505 : ℤ) ≤ 50906 ∧ (50505 : ℤ) ≤ 50505 := by
  obtain ⟨⟨w', amountA, amountB⟩, hburn, hpaid⟩ := exists_ok_of_map_eq
    (show Prod.snd <$> burn stagingEnv ((pairMachine 0).run stagedPool bystanderCalls) 1 =
      .ok (50906, 50505) by decide +kernel)
  cases hpaid
  exact ⟨w', hburn, stagedExit_kept stagedPool_reachable stagedPool_solvent
    (by unfold Seeded; decide +kernel) (by decide +kernel) stagedPool_quoted bystands_bystanderCalls hburn⟩

/-- A receiver that burns `-100000` shares while it is lent 5000 tokens halves what the stage is worth. -/
theorem stagedExit_kept_fails :
    ¬∀ (w w' : World ℕ) (user : ℕ) (env : Env 0) (calls : List (PairCall 0))
      (quotedA quotedB amountA amountB : ℤ), KeylessReachable 0 w → Solvent 0 w →
      0 < w.pair.pendingLp user →
      burnAmounts (w.pair.pendingLp user) w.reserveA w.reserveB
        (w.lp.totalSupply - minimumLiquidity) = .ok (quotedA, quotedB) →
      (∀ call ∈ calls, call.2.SparesStage user ∧ Keyless call) →
      burn env ((pairMachine 0).run w calls) user = .ok (w', amountA, amountB) →
      quotedA ≤ amountA ∧ quotedB ≤ amountB := by
  intro hlaw
  let callback : Callback ℕ :=
    ⟨[.lpCall ⟨1, fun who => who = 1, Crypto.rejecting ℕ⟩ (.burn 1 (-100000)),
      .transferA 1 0 5015], true⟩
  let calls : List (PairCall 0) := [(stagingEnv, .flashLoan 1 5000 0 0 callback)]
  have hcalls : ∀ call ∈ calls, call.2.SparesStage 1 ∧ Keyless call := by
    simp [calls, callback, Op.SparesStage, Keyless, outsideLpCalls, outsideActions, External.toLpCall,
      LpToken.Signs, Crypto.rejecting]
  obtain ⟨⟨w', amountA, amountB⟩, hburn, hpaid⟩ := exists_ok_of_map_eq
    (show Prod.snd <$> burn stagingEnv ((pairMachine 0).run stagedPool calls) 1 = .ok (25129, 25125) by
      decide +kernel)
  cases hpaid
  have hkept := hlaw stagedPool w' 1 stagingEnv calls 50505 50505 25129 25125 stagedPool_reachable
    stagedPool_solvent (by decide +kernel) stagedPool_quoted hcalls hburn
  omega

end CoralSwap
