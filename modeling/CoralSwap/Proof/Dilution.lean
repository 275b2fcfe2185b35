import CoralSwap.Lib.Shares
import CoralSwap.Proof.ConstantProduct
import CoralSwap.Proof.Invariants
import CoralSwap.Proof.OutsideCalls
import CoralSwap.Proof.Solvency

/-!
# Exits and trades do not dilute those who stay

The circulating shares are the LP supply less the seed, and what one of them is worth is the product
of the reserves per squared share. An exit takes at most its proportional part of both reserves, a
trade does not lower their product, and neither issues shares. A flash loan's receiver may call the
LP token, where a burn of a negative amount is the one way to issue shares without the pair.
-/

namespace CoralSwap

open Host Host.Call ConstantProduct

variable {Address : Type} [DecidableEq Address] {contract : Address}

def World.pool (w : World Address) : Pool ℤ :=
  ⟨w.reserveA, w.reserveB, w.lp.totalSupply - minimumLiquidity⟩

/-- The product of the reserves per squared circulating share does not decrease. -/
def Undiluted (w w' : World Address) : Prop :=
  w.reserveA * w.reserveB * (w'.lp.totalSupply - minimumLiquidity) ^ 2 ≤
    w'.reserveA * w'.reserveB * (w.lp.totalSupply - minimumLiquidity) ^ 2

structure Live (contract : Address) (w : World Address) : Prop where
  reserveA_pos : 0 < w.reserveA
  reserveB_pos : 0 < w.reserveB
  solvent : Solvent contract w
  supply : minimumLiquidity < w.lp.totalSupply

/-- No burn of a negative amount goes through while outsiders act. -/
def ForgesNoShares (w : World Address) (call : PairCall contract) : Prop :=
  LpToken.machine.Along (fun t lpCall => ¬LpToken.BurnsNegative t lpCall) w.lp (outsideLpCalls call)

theorem totalSupply_le_of_run {w : World Address} {actions : List (External Address)}
    (hadmin : w.lp.admin = some contract)
    (hburns : LpToken.machine.Along (fun t call => ¬LpToken.BurnsNegative t call) w.lp
      (actions.filterMap (External.toLpCall contract))) :
    ((externalMachine contract).run w actions).lp.totalSupply ≤ w.lp.totalSupply := by
  rw [lp_run_eq]
  exact LpToken.totalSupply_le_of_run hadmin (fun _ hcall => auth_of_mem_lpCalls hcall) hburns

/-! ### One call -/

section Call

variable {env : Env contract} {w w' : World Address} {dst : Address}

structure Holds (w w' : World Address) : Prop where
  reserveA_pos : 0 < w'.reserveA
  reserveB_pos : 0 < w'.reserveB
  undiluted : Undiluted w w'

omit [DecidableEq Address] in
theorem Holds.of_product_le (hlive : Live contract w) (hproduct : w.product ≤ w'.product)
    (hreserveA : 0 ≤ w'.reserveA) (hreserveB : 0 ≤ w'.reserveB)
    (hissued : w'.lp.totalSupply ≤ w.lp.totalSupply)
    (hsupply : minimumLiquidity < w'.lp.totalSupply) : Holds w w' := by
  have hpositive : 0 < w'.reserveA * w'.reserveB :=
    (mul_pos hlive.reserveA_pos hlive.reserveB_pos).trans_le hproduct
  refine ⟨pos_of_mul_pos_left hpositive hreserveB,
    pos_of_mul_pos_right hpositive hreserveA, ?_⟩
  exact Pool.keeps_of_le (p := w.pool) (q := w'.pool) hproduct hpositive.le
    (sub_nonneg.mpr hsupply.le) (sub_le_sub_right hissued _)

omit [DecidableEq Address] in
theorem Holds.of_side (isA : Bool) (hreserve : 0 < w'.reserve isA) (hother : 0 < w'.reserve (!isA))
    (hkeeps : Pool.Keeps ⟨w.reserve isA, w.reserve (!isA), w.lp.totalSupply - minimumLiquidity⟩
      ⟨w'.reserve isA, w'.reserve (!isA), w'.lp.totalSupply - minimumLiquidity⟩) : Holds w w' := by
  cases isA
  · exact ⟨hother, hreserve, hkeeps.swap⟩
  · exact ⟨hreserve, hother, hkeeps⟩

omit [DecidableEq Address] in
/-- Whoever redeems some but not all circulating shares leaves reserves behind, and dilutes nobody. -/
theorem keeps_of_redeemed {x y shares burned : ℤ} (hx : 0 < x) (hy : 0 < y) (hburned : 0 ≤ burned)
    (hlt : burned < shares) :
    0 < x - Shares.redeemed burned x shares ∧ 0 < y - Shares.redeemed burned y shares ∧
      Pool.Keeps ⟨x, y, shares⟩
        ⟨x - Shares.redeemed burned x shares, y - Shares.redeemed burned y shares,
          shares - burned⟩ := by
  have hshares : 0 < shares := hburned.trans_lt hlt
  refine ⟨sub_pos.mpr (Shares.redeemed_lt hburned hx hlt),
    sub_pos.mpr (Shares.redeemed_lt hburned hy hlt), ?_⟩
  exact Pool.keeps_of_exit (p := ⟨x, y, shares⟩) hx.le hy.le hlt.le
    (Shares.redeemed_mul_le hburned hx.le hshares) (Shares.redeemed_mul_le hburned hy.le hshares)

theorem holds_of_burn {state : PairStorage Address} {burnLp amountA amountB : ℤ}
    {lp : LpToken Address} {tokenA tokenB : Token Address} (hlive : Live contract w)
    (hburn : BurnSettles env w dst state burnLp lp tokenA tokenB w' amountA amountB)
    (hsupply : minimumLiquidity < w'.lp.totalSupply) : Holds w w' := by
  obtain ⟨-, -, hlp⟩ := LpToken.burn_ok hburn.burned
  have hburned := hburn.positive
  have hshareA := hburn.shareA
  have hshareB := hburn.shareB
  rw [← World.reserveA_of_pairState hburn.pairState] at hshareA
  rw [← World.reserveB_of_pairState hburn.pairState] at hshareB
  have hsupply' : w'.lp.totalSupply = w.lp.totalSupply - burnLp := by rw [hburn.result, hlp]
  have hreserveA' : w'.reserveA = w.reserveA - amountA := by
    rw [World.reserveA_of_pairState hburn.pairState, hburn.result]
    rfl
  have hreserveB' : w'.reserveB = w.reserveB - amountB := by
    rw [World.reserveB_of_pairState hburn.pairState, hburn.result]
    rfl
  obtain ⟨hposA, hposB, hkeeps⟩ := keeps_of_redeemed hlive.reserveA_pos hlive.reserveB_pos hburned.le
    (show burnLp < w.lp.totalSupply - minimumLiquidity by omega)
  rw [Shares.redeemed, ← hshareA, ← hreserveA'] at hposA
  rw [Shares.redeemed, ← hshareB, ← hreserveB'] at hposB
  refine ⟨hposA, hposB, ?_⟩
  unfold Undiluted
  rw [hsupply', hreserveA', hreserveB', hshareA, hshareB, sub_right_comm]
  exact hkeeps

/-- The internal swap of a single-sided burn leaves some of the preferred reserve, and at least the
product it found. -/
theorem internalSwap_le {reservePreferred reserveUnwanted shareUnwanted out : ℤ} {feeBps : ℕ}
    (hfee : feeBps ≤ 10000) (hreserve : 0 < reservePreferred) (hshare : 0 ≤ shareUnwanted)
    (hle : shareUnwanted ≤ reserveUnwanted)
    (hquote : singleSideSwapOut shareUnwanted (reserveUnwanted - shareUnwanted) reservePreferred
      feeBps = .ok out)
    (hcheck : reservePreferred * (reserveUnwanted - shareUnwanted) * 100000000 ≤
      (reservePreferred - out) * bpsDenominator * feeScaled reserveUnwanted shareUnwanted feeBps) :
    0 < reservePreferred - out ∧
      reservePreferred * (reserveUnwanted - shareUnwanted) ≤
        (reservePreferred - out) * reserveUnwanted := by
  have hleft : 0 < reservePreferred - out := by
    rcases singleSideSwapOut_ok hquote with rfl | hout
    · omega
    · exact sub_pos.mpr (quoteOutputAmount_lt hout)
  have hfee' : (feeBps : ℤ) ≤ bpsDenominator := by
    unfold bpsDenominator
    exact_mod_cast hfee
  have hscaled : 0 ≤ reserveUnwanted * bpsDenominator - shareUnwanted * feeBps :=
    sub_nonneg.mpr (mul_le_mul hle hfee' (Int.natCast_nonneg _) (hshare.trans hle))
  refine ⟨hleft, ?_⟩
  -- only the unwanted side is charged, and nothing is taken out
  have huncharged : 0 ≤ (reservePreferred - out) * bpsDenominator - 0 := by
    rw [sub_zero]
    exact mul_nonneg hleft.le (by decide)
  have hcharge : 0 * bpsDenominator ≤ shareUnwanted * feeBps := by
    rw [zero_mul]
    exact mul_nonneg hshare (Int.natCast_nonneg _)
  have hnothing : (0 : ℤ) * bpsDenominator ≤ 0 := by rw [zero_mul]
  have hproduct := product_le_of_scaled (by decide) huncharged hscaled hnothing hcharge
    (by rw [sub_zero]; exact hcheck)
  rwa [sub_zero, sub_zero] at hproduct

theorem holds_of_burnSingleSide {preferredToken : Address}
    {lpAmount sharePreferred shareUnwanted swapOut totalOut : ℤ} {state : PairStorage Address}
    {stored : FeeState} {isA : Bool} {lp : LpToken Address} (hlive : Live contract w)
    (hcapped : FeeCapped w)
    (hburn : BurnSingleSideSettles env w dst lpAmount preferredToken state stored isA lp
      sharePreferred shareUnwanted swapOut w' totalOut)
    (hsupply : minimumLiquidity < w'.lp.totalSupply) : Holds w w' := by
  obtain ⟨-, -, hlp⟩ := LpToken.burn_ok hburn.burned
  have hburned := hburn.positive
  have hsupply' : w'.lp.totalSupply = w.lp.totalSupply - lpAmount := by rw [hburn.lp', hlp]
  have hreserve : ∀ side, 0 < w.reserve side := by
    intro side
    cases side
    · exact hlive.reserveB_pos
    · exact hlive.reserveA_pos
  -- what leaves is the proportional part of both reserves
  have hsharePreferred := hburn.sharePreferred_eq
  have hshareUnwanted := hburn.shareUnwanted_eq
  have hquote := hburn.quoted
  have hcheck := hburn.product
  rw [← World.reserve_of_pairState isA hburn.pairState] at hsharePreferred hquote hcheck
  rw [← World.reserve_of_pairState (!isA) hburn.pairState] at hshareUnwanted hquote hcheck
  obtain ⟨hposPreferred, hposUnwanted, hexit⟩ := keeps_of_redeemed (hreserve isA) (hreserve !isA)
    hburned.le (show lpAmount < w.lp.totalSupply - minimumLiquidity by omega)
  rw [Shares.redeemed, ← hsharePreferred] at hposPreferred hexit
  rw [Shares.redeemed, ← hshareUnwanted] at hposUnwanted hexit
  -- and the unwanted part is traded in for some more of the preferred one
  have hfee : burnSingleSideFeeBps stored ≤ 10000 := by
    have hmax := hcapped stored hburn.feeState
    refine stored.computeFeeBps_le_max.trans ?_
    rw [hmax]
    decide
  obtain ⟨hleft, htrade⟩ := internalSwap_le hfee hposPreferred hburn.shareUnwanted_pos.le
    (by omega) hquote hcheck
  have hpreferred' : w'.reserve isA = w.reserve isA - sharePreferred - swapOut := by
    rw [World.reserve_of_pairState isA hburn.pairState,
      World.reserve_of_pairState isA (by rw [hburn.pair'])]
    cases isA <;> rfl
  have hunwanted' : w'.reserve (!isA) = w.reserve (!isA) := by
    rw [World.reserve_of_pairState (!isA) hburn.pairState,
      World.reserve_of_pairState (!isA) (by rw [hburn.pair'])]
    cases isA <;> rfl
  refine Holds.of_side isA (by rwa [hpreferred']) (by rw [hunwanted']; exact hreserve !isA) ?_
  rw [hpreferred', hunwanted', hsupply', sub_right_comm w.lp.totalSupply]
  have hrest : 0 < w.lp.totalSupply - minimumLiquidity - lpAmount := by omega
  refine hexit.trans hrest ?_
  exact Pool.keeps_of_le htrade (mul_pos hleft (hreserve !isA)).le hrest.le le_rfl

theorem holds_of_swap {amountAOut amountBOut : ℤ} {before after : PairStorage Address}
    {stored decayed : FeeState} {paidA paidB : Token Address} {event : SwapEvent}
    (hlive : Live contract w) (hfee : event.feeBps ≤ 10000)
    (hswap : SwapSettles env w amountAOut amountBOut dst before after stored decayed paidA paidB w'
      event) : Holds w w' := by
  have hlp := hswap.frame.1
  refine Holds.of_product_le hlive (product_le_of_swapSettles hswap hfee) ?_ ?_ (by rw [hlp])
    (by rw [hlp]; exact hlive.supply)
  · rw [World.reserveA_of_pairState hswap.pairState']
    exact hswap.sideA.reserve_nonneg hfee
  · rw [World.reserveB_of_pairState hswap.pairState']
    exact hswap.sideB.reserve_nonneg hfee

theorem holds_of_flashLoan {receiver : Address} {amountA amountB : ℤ} {callback : Callback Address}
    {state : PairStorage Address} {lentA lentB : Token Address} {called : World Address}
    (hlive : Live contract w) (hadmin : w.lp.admin = some contract)
    (hloan : FlashLoanSettles contract w receiver amountA amountB callback state lentA lentB called w')
    (hburns : LpToken.machine.Along (fun t call => ¬LpToken.BurnsNegative t call) w.lp
      (callback.actions.filterMap (External.toLpCall contract)))
    (hsupply : minimumLiquidity < w'.lp.totalSupply) : Holds w w' := by
  have hissued : w'.lp.totalSupply ≤ w.lp.totalSupply := by
    rw [hloan.result, hloan.called_eq]
    exact totalSupply_le_of_run hadmin hburns
  refine Holds.of_product_le hlive ?_ ?_ ?_ hissued hsupply
  · unfold World.product
    rw [World.reserveA_of_pairState hloan.pairState, World.reserveB_of_pairState hloan.pairState,
      hloan.result]
    exact hloan.product
  · rw [hloan.result]
    exact called.tokenA.nonneg contract
  · rw [hloan.result]
    exact called.tokenB.nonneg contract

omit [DecidableEq Address] in
theorem holds_of_reserves_le (hlive : Live contract w) (hA : w.reserveA ≤ w'.reserveA)
    (hB : w.reserveB ≤ w'.reserveB) (hlp : w'.lp = w.lp) : Holds w w' :=
  Holds.of_product_le hlive
    (mul_le_mul hA hB hlive.reserveB_pos.le (hlive.reserveA_pos.le.trans hA))
    (hlive.reserveA_pos.le.trans hA) (hlive.reserveB_pos.le.trans hB) (by rw [hlp])
    (by rw [hlp]; exact hlive.supply)

def Op.IsExitOrTrade : Op Address → Prop
  | .burn _ | .burnSingleSide .. | .swap .. | .flashLoan .. | .sync => True
  | .external (.transferA ..) | .external (.transferB ..) => True
  | _ => False

/-- **Step.** What an accepted exit or trade leaves. -/
theorem holds_of_exec {op : Op Address} (hlive : Live contract w) (hcapped : FeeCapped w)
    (hadmin : w.lp.admin = some contract) (hop : op.IsExitOrTrade) (hgoverned : env.Governed)
    (hforged : ForgesNoShares w (env, op)) (hsupply : minimumLiquidity < w'.lp.totalSupply)
    (hexec : exec w (env, op) = .ok w') : Holds w w' := by
  cases callEffect_of_exec hexec with
  | burn hburn => exact holds_of_burn hlive hburn hsupply
  | burnSingleSide hburn => exact holds_of_burnSingleSide hlive hcapped hburn hsupply
  | swap hswap =>
      refine holds_of_swap hlive ?_ hswap
      exact (chargedFeeBps_le hgoverned hcapped (chargedFeeBps_of_swap hswap)).trans (by decide)
  | flashLoan hloan => exact holds_of_flashLoan hlive hadmin hloan hforged hsupply
  | emptyFlashLoan hresult =>
      subst hresult
      exact holds_of_reserves_le hlive le_rfl le_rfl rfl
  | sync hstate hresult =>
      subst hresult
      exact holds_of_reserves_le hlive hlive.solvent.reserveA_le hlive.solvent.reserveB_le rfl
  | @external action heffect =>
      cases heffect with
      | movedA => exact holds_of_reserves_le hlive le_rfl le_rfl rfl
      | movedB => exact holds_of_reserves_le hlive le_rfl le_rfl rfl
      | calledLp => exact hop.elim
  | _ => exact hop.elim

end Call

/-! ### Runs -/

/-- An exit or trade, told its fee by a factory, that leaves circulating shares. -/
structure ExitOrTrade (w : World Address) (call : PairCall contract) : Prop where
  op : call.2.IsExitOrTrade
  governed : call.1.Governed
  supply : minimumLiquidity < ((pairMachine contract).step w call).lp.totalSupply

def DilutesNobody (w : World Address) (call : PairCall contract) : Prop :=
  ∀ w', (pairMachine contract).exec w call = .ok w' → Undiluted w w'

structure Trading (contract : Address) (w : World Address) : Prop where
  live : Live contract w
  capped : FeeCapped w
  admin : w.lp.admin = some contract

theorem trading_of_exec {w w' : World Address} {call : PairCall contract}
    (htrading : Trading contract w) (hcall : ExitOrTrade w call) (hforged : ForgesNoShares w call)
    (hexec : (pairMachine contract).exec w call = .ok w') :
    Holds w w' ∧ Trading contract w' := by
  obtain ⟨env, op⟩ := call
  have hsupply := hcall.supply
  rw [Machine.step_of_exec_ok hexec] at hsupply
  have hholds := holds_of_exec htrading.live htrading.capped htrading.admin hcall.op hcall.governed
    hforged hsupply hexec
  refine ⟨hholds, ⟨hholds.reserveA_pos, hholds.reserveB_pos, ?_, hsupply⟩,
    feeCapped_of_exec htrading.capped hexec, admin_of_exec htrading.admin hexec⟩
  refine solvent_of_exec htrading.live.solvent (fun hmint => ?_) hexec
  have hop := hcall.op
  cases op <;> first | exact hmint.elim | exact hop.elim

/-- **No dilution.** Along every run of exits and trades from a live pair, as long as shares remain in
circulation and no receiver forges any, the product of the reserves per squared circulating share
never decreases. -/
theorem exits_and_trades_dilute_nobody {w : World Address} (hreach : Reachable contract w)
    (hlive : Live contract w) {calls : List (PairCall contract)}
    (hcalls : (pairMachine contract).Along ExitOrTrade w calls)
    (hforged : (pairMachine contract).Along ForgesNoShares w calls) :
    (pairMachine contract).Along DilutesNobody w calls := by
  have hstart : Trading contract w := ⟨hlive, feeCapped_of_reachable hreach, admin_of_reachable hreach⟩
  refine Machine.along_of_invariant ?_ ?_ hstart (hcalls.and hforged)
  · intro w₁ call w₂ htrading hcall hexec
    exact (trading_of_exec htrading hcall.1 hcall.2 hexec).2
  · intro w₁ call htrading hcall w₂ hexec
    exact (trading_of_exec htrading hcall.1 hcall.2 hexec).1.undiluted

theorem live_openedPool : Live 0 (openedPool (Env.quiet 0 1 1 none) 100000 100000) where
  reserveA_pos := by decide +kernel
  reserveB_pos := by decide +kernel
  solvent := ⟨by decide +kernel, by decide +kernel⟩
  supply := by decide +kernel

theorem exits_and_trades_dilute_nobody_opened :
    let env : Env 0 := Env.quiet 0 1 1 none
    (pairMachine 0).Along DilutesNobody (openedPool env 100000 100000)
      [(env, .external (.transferA 1 0 1000)), (env, .swap 0 900 1), (env, .burnSingleSide 1 5000 10 1),
        (env, .flashLoan 1 5000 0 0 ⟨[.transferA 1 0 5015], true⟩), (env, .sync)] := by
  intro env
  have hgoverned : env.Governed := Or.inr ⟨Factory.deployed, ⟨[], rfl⟩, rfl⟩
  refine exits_and_trades_dilute_nobody (openedPool_reachable _ _ _)
    live_openedPool
    ?_ ?_
  · exact ⟨⟨trivial, hgoverned, by decide +kernel⟩, ⟨trivial, hgoverned, by decide +kernel⟩,
      ⟨trivial, hgoverned, by decide +kernel⟩, ⟨trivial, hgoverned, by decide +kernel⟩,
      ⟨trivial, hgoverned, by decide +kernel⟩, trivial⟩
  · exact ⟨trivial, trivial, trivial, trivial, trivial, trivial⟩

/-- A receiver that burns `-100000` shares while it is lent 5000 tokens doubles the supply for a fee
of 15. -/
theorem exits_and_trades_dilute_nobody_fails :
    ¬∀ (w : World ℕ) (calls : List (PairCall 0)), Reachable 0 w → Live 0 w →
      (pairMachine 0).Along ExitOrTrade w calls → (pairMachine 0).Along DilutesNobody w calls := by
  intro hlaw
  let env : Env 0 := Env.quiet 0 1 1 none
  let callback : Callback ℕ :=
    ⟨[.lpCall ⟨1, fun who => who = 1, Crypto.rejecting ℕ⟩ (.burn 1 (-100000)),
      .transferA 1 0 5015], true⟩
  have halong := hlaw (openedPool env 100000 100000) [(env, .flashLoan 1 5000 0 0 callback)]
    (openedPool_reachable _ _ _)
    live_openedPool
    ⟨⟨trivial, Or.inr ⟨Factory.deployed, ⟨[], rfl⟩, rfl⟩, by decide +kernel⟩, trivial⟩
  obtain ⟨w', hexec, hresult⟩ := exists_ok_of_map_eq
    (show (fun w' : World ℕ => (w'.reserveA, w'.reserveB, w'.lp.totalSupply)) <$>
      (pairMachine 0).exec (openedPool env 100000 100000) (env, .flashLoan 1 5000 0 0 callback) =
        .ok (100015, 100000, 200000) by decide +kernel)
  have hundiluted := halong.1 w' hexec
  have hbefore : ((openedPool env 100000 100000).reserveA, (openedPool env 100000 100000).reserveB,
      (openedPool env 100000 100000).lp.totalSupply) = (100000, 100000, 100000) := by decide +kernel
  simp only [Prod.mk.injEq] at hbefore hresult
  unfold Undiluted at hundiluted
  rw [hbefore.1, hbefore.2.1, hbefore.2.2, hresult.1, hresult.2.1, hresult.2.2] at hundiluted
  exact absurd hundiluted (by decide)

end CoralSwap
