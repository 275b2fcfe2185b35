import CoralSwap.Proof.OneTokenMint
import CoralSwap.Proof.OneFee
import CoralSwap.Proof.RoundTrip

/-!
# The single-sided burn against its parts

`burn_single_side` recomputes the shares, the quote and the reserves without touching the token that is
not preferred. The parts, called one after the other by the user, pay both shares out, take one back and
swap it. Where the swap charges the stored fee the two end in the same reserves and pay the same.
-/

namespace CoralSwap

open Host Host.Call

variable {Address : Type} [DecidableEq Address] {contract : Address}

/-- The shares are staged and burned, the share that is not preferred is sent back, and swapped for what
the pool quotes for it. Each step has its own environment; the swap's comes last. -/
def burnThenSwap (staging burning env : Env contract) (w : World Address) (dst : Address)
    (lpAmount : ℤ) (preferredToken : Address) : Call PairError (World Address × ℤ) := do
  let state ← w.getPairState
  let preferA ← tokenSide state preferredToken
  let staged ← depositLp staging w dst lpAmount
  let (burned, shareA, shareB) ← burn burning staged dst
  let sharePreferred := if preferA then shareA else shareB
  let shareUnwanted := if preferA then shareB else shareA
  let returned ← moveToken burned (!preferA) dst contract shareUnwanted
  let feeBps ← chargedFeeBps env returned
  let swapOut ← getAmountOut shareUnwanted (returned.reserve (!preferA)) (returned.reserve preferA) feeBps
  let (swapped, _) ← swap env returned (if preferA then swapOut else 0) (if preferA then 0 else swapOut)
    dst
  pure (swapped, sharePreferred + swapOut)

/-- Two worlds agree on the pair's reserves, on the LP supply and on what `dst` holds of each token. -/
structure SameExit (dst : Address) (w₁ w₂ : World Address) : Prop where
  reserve : ∀ isA, w₁.reserve isA = w₂.reserve isA
  totalSupply : w₁.lp.totalSupply = w₂.lp.totalSupply
  held : ∀ isA, (w₁.token isA).balance dst = (w₂.token isA).balance dst

/-- The fee as it is stored is the fee at `env`: no decay is pending. -/
def NoPendingDecay (env : Env contract) (w : World Address) : Prop :=
  ∀ fs, w.pair.feeState = some fs → fs.decayStaleEma env = .ok fs

/-- `dst` has given up `lpAmount` shares for `totalOut` of the token on the side `isA`, and for nothing on
the other side. -/
structure ExitsFor (w w' : World Address) (dst : Address) (isA : Bool) (lpAmount totalOut : ℤ) : Prop where
  preferred : w'.reserve isA = w.reserve isA - totalOut
  unwanted : w'.reserve (!isA) = w.reserve (!isA)
  paid : (w'.token isA).balance dst = (w.token isA).balance dst + totalOut
  kept : (w'.token (!isA)).balance dst = (w.token (!isA)).balance dst
  totalSupply : w'.lp.totalSupply = w.lp.totalSupply - lpAmount

omit [DecidableEq Address] in
theorem ExitsFor.same {w w₁ w₂ : World Address} {dst : Address} {isA : Bool} {lpAmount totalOut : ℤ}
    (h₁ : ExitsFor w w₁ dst isA lpAmount totalOut) (h₂ : ExitsFor w w₂ dst isA lpAmount totalOut) :
    SameExit dst w₁ w₂ where
  reserve side := by
    by_cases hside : side = isA
    · rw [hside, h₁.preferred, h₂.preferred]
    · rw [Bool.eq_not.mpr hside, h₁.unwanted, h₂.unwanted]
  totalSupply := h₁.totalSupply.trans h₂.totalSupply.symm
  held side := by
    by_cases hside : side = isA
    · rw [hside, h₁.paid, h₂.paid]
    · rw [Bool.eq_not.mpr hside, h₁.kept, h₂.kept]

/-- `amount` of a token leaves the pair for `dst`. -/
structure PaysOut (contract dst : Address) (t t' : Token Address) (amount : ℤ) : Prop where
  pair : t'.balance contract = t.balance contract - amount
  user : t'.balance dst = t.balance dst + amount

section Steps

variable {env : Env contract} {w w' : World Address} {dst : Address}

theorem paysOut_of_transfer {t t' : Token Address} {amount : ℤ} (hne : dst ≠ contract)
    (htransfer : t.transfer contract dst amount = some t') : PaysOut contract dst t t' amount :=
  ⟨Token.balance_src_of_transfer htransfer hne.symm, Token.balance_dst_of_transfer htransfer hne.symm⟩

/-! ### The single call -/

theorem BurnSingleSideSettles.exitsFor {lpAmount : ℤ} {preferredToken : Address}
    {state : PairStorage Address} {stored : FeeState} {isA : Bool} {lp : LpToken Address}
    {sharePreferred shareUnwanted swapOut totalOut : ℤ}
    (hburn : BurnSingleSideSettles env w dst lpAmount preferredToken state stored isA lp sharePreferred
      shareUnwanted swapOut w' totalOut) : ExitsFor w w' dst isA lpAmount totalOut := by
  have hne := Env.ne_contract_of_auth hburn.authorised
  obtain ⟨-, -, hlp⟩ := LpToken.burn_ok hburn.burned
  have hstate := congrArg Pair.pairState hburn.pair'
  refine ⟨?_, ?_, (paysOut_of_transfer hne hburn.paid).user, by rw [hburn.kept], ?_⟩
  · rw [World.reserve_of_pairState isA hstate, World.reserve_of_pairState isA hburn.pairState,
      hburn.total]
    cases isA
    · exact sub_sub _ _ _
    · exact sub_sub _ _ _
  · rw [World.reserve_of_pairState _ hstate, World.reserve_of_pairState _ hburn.pairState]
    cases isA <;> rfl
  · rw [hburn.lp', hlp]

omit [DecidableEq Address] in
theorem singleSideSwapOut_of_quoted {shareUnwanted reserveUnwanted reservePreferred out : ℤ} {feeBps : ℕ}
    (hquoted : getAmountOut shareUnwanted reserveUnwanted reservePreferred feeBps = .ok out) :
    singleSideSwapOut shareUnwanted reserveUnwanted reservePreferred feeBps = .ok out := by
  obtain ⟨-, -, hreserve, -⟩ := quoteOutputAmount_ok (getAmountOut_eq_ok.mp hquoted)
  rw [singleSideSwapOut, if_neg hreserve.ne', hquoted]
  rfl

/-! ### The parts -/

theorem DepositLpSettles.keeps {amount : ℤ} {lp : LpToken Address}
    (hdeposit : DepositLpSettles env w dst amount lp w') :
    w'.token = w.token ∧ w'.reserve = w.reserve ∧ w'.pair.feeState = w.pair.feeState := by
  obtain rfl := hdeposit.result
  exact ⟨rfl, rfl, rfl⟩

theorem BurnSettles.paysShare {state : PairStorage Address} {burnLp amountA amountB : ℤ}
    {lp : LpToken Address} {tokenA tokenB : Token Address} (isA : Bool)
    (hburn : BurnSettles env w dst state burnLp lp tokenA tokenB w' amountA amountB) :
    w'.reserve isA = w.reserve isA - (if isA then amountA else amountB) ∧
      PaysOut contract dst (w.token isA) (w'.token isA) (if isA then amountA else amountB) := by
  have hne := Env.ne_contract_of_auth hburn.authorised
  have hpaidA := paysOut_of_transfer hne hburn.paidA
  have hpaidB := paysOut_of_transfer hne hburn.paidB
  obtain rfl := hburn.result
  rw [World.reserve_of_pairState isA hburn.pairState]
  cases isA
  · exact ⟨rfl, hpaidB⟩
  · exact ⟨rfl, hpaidA⟩

theorem BurnSettles.keeps {state : PairStorage Address} {burnLp amountA amountB : ℤ}
    {lp : LpToken Address} {tokenA tokenB : Token Address}
    (hburn : BurnSettles env w dst state burnLp lp tokenA tokenB w' amountA amountB)
    (hpending : 0 < w.pair.pendingLp dst) :
    w'.lp.totalSupply = w.lp.totalSupply - w.pair.pendingLp dst ∧
      w'.pair.feeState = w.pair.feeState := by
  have hstage := hburn.burnLp_eq hpending
  obtain ⟨-, -, hlp⟩ := LpToken.burn_ok hburn.burned
  obtain rfl := hburn.result
  rw [hlp, hstage]
  exact ⟨rfl, rfl⟩

theorem SideSettles.paysOut {feeBps : ℕ} {reserve amountOut amountIn reserve' : ℤ}
    {before paid after : Token Address} (hoff : env.ProtocolFeeOff) (hne : dst ≠ contract)
    (hout : 0 < amountOut)
    (hside : SideSettles env feeBps dst reserve amountOut before paid after amountIn reserve') :
    PaysOut contract dst before after amountOut ∧ reserve' = after.balance contract := by
  obtain ⟨rfl, hreserve⟩ := hside.books_paid hoff
  obtain ⟨-, htransfer⟩ | ⟨hnonpos, -⟩ := payOut_ok hside.payout
  · exact ⟨paysOut_of_transfer hne htransfer, hreserve⟩
  · exact absurd hout (not_lt.mpr hnonpos)

theorem SwapSettles.swapsBack {isA : Bool} {swapOut : ℤ} {before after : PairStorage Address}
    {stored decayed : FeeState} {paidA paidB : Token Address} {event : SwapEvent}
    (hoff : env.ProtocolFeeOff) (hne : dst ≠ contract) (hout : 0 < swapOut)
    (hswap : SwapSettles env w (if isA then swapOut else 0) (if isA then 0 else swapOut) dst before
      after stored decayed paidA paidB w' event) :
    (PaysOut contract dst (w.token isA) (w'.token isA) swapOut ∧
        after.reserve isA = (w'.token isA).balance contract) ∧
      w'.token (!isA) = w.token (!isA) ∧ after.reserve (!isA) = (w.token (!isA)).balance contract := by
  cases isA
  · exact ⟨hswap.sideB.paysOut hoff hne hout, hswap.sideA.books_balance hoff⟩
  · exact ⟨hswap.sideA.paysOut hoff hne hout, hswap.sideB.books_balance hoff⟩

end Steps

variable {single staging burning env : Env contract} {w burnedSingle exited : World Address}
variable {dst preferredToken : Address} {lpAmount minAmountOut totalOut paidOut : ℤ}

/-- The share `lpAmount` redeems on one side. -/
def shareOf (w : World Address) (lpAmount : ℤ) (isA : Bool) : ℤ :=
  Shares.redeemed lpAmount (w.reserve isA) (w.lp.totalSupply - minimumLiquidity)

/-- `dst` has given up `lpAmount` shares for what they redeem on both sides. -/
structure RedeemedBy (contract : Address) (w w' : World Address) (dst : Address) (lpAmount : ℤ) :
    Prop where
  reserve : ∀ isA, w'.reserve isA = w.reserve isA - shareOf w lpAmount isA
  pays : ∀ isA, PaysOut contract dst (w.token isA) (w'.token isA) (shareOf w lpAmount isA)
  totalSupply : w'.lp.totalSupply = w.lp.totalSupply - lpAmount
  feeState : w'.pair.feeState = w.pair.feeState

theorem burn_of_stage {staged burned : World Address} {shareA shareB : ℤ}
    (hpending : w.pair.pendingLp dst = 0) (hstaged : depositLp staging w dst lpAmount = .ok staged)
    (hburned : burn burning staged dst = .ok (burned, shareA, shareB)) :
    dst ≠ contract ∧ RedeemedBy contract w burned dst lpAmount ∧
      ∀ isA, (if isA then shareA else shareB) = shareOf w lpAmount isA := by
  obtain ⟨_, hstaged⟩ := depositLp_ok hstaged
  obtain ⟨_, _, _, _, _, hburned⟩ := burn_ok hburned
  have hpositive := hstaged.positive
  obtain ⟨htoken, hreserve, hfee⟩ := hstaged.keeps
  obtain ⟨hsupply, -, -, hstagedPending⟩ := hstaged.stages
  rw [hpending, zero_add] at hstagedPending
  have hstage : 0 < staged.pair.pendingLp dst := by rwa [hstagedPending]
  obtain ⟨hburnedSupply, hburnedFee⟩ := hburned.keeps hstage
  obtain ⟨hshareA, hshareB⟩ := hburned.redeemsStage hstage
  have hshare : ∀ isA, (if isA then shareA else shareB) = shareOf w lpAmount isA := by
    intro isA
    rw [shareOf, ← hreserve, ← hsupply, ← hstagedPending]
    cases isA
    · exact hshareB
    · exact hshareA
  have hpays := fun isA => hburned.paysShare isA
  simp only [hshare, hreserve, htoken] at hpays
  rw [hsupply, hstagedPending] at hburnedSupply
  exact ⟨Env.ne_contract_of_auth hstaged.authorised,
    ⟨fun isA => (hpays isA).1, fun isA => (hpays isA).2, hburnedSupply, hburnedFee.trans hfee⟩, hshare⟩

/-- Once the unwanted share is sent back and swapped, only the preferred token has left the pair. -/
theorem exitsFor_of_swap {burned returned : World Address} {isA : Bool} {swapOut : ℤ} {event : SwapEvent}
    (hoff : env.ProtocolFeeOff) (hne : dst ≠ contract)
    (hbalance : ∀ isA, (w.token isA).balance contract = w.reserve isA)
    (hredeemed : RedeemedBy contract w burned dst lpAmount)
    (hreturned : moveToken burned (!isA) dst contract (shareOf w lpAmount (!isA)) = .ok returned)
    (hout : 0 < swapOut)
    (hswap : swap env returned (if isA then swapOut else 0) (if isA then 0 else swapOut) dst =
      .ok (exited, event)) :
    ExitsFor w exited dst isA lpAmount (shareOf w lpAmount isA + swapOut) := by
  obtain ⟨htransfer, hkept, -, hlp⟩ := moveToken_ok hreturned
  rw [Bool.not_not] at hkept
  obtain ⟨-, -, _, after, _, _, _, _, hswap⟩ := swap_ok hswap
  obtain ⟨⟨hpaid, hreserve⟩, hother, hreserveOther⟩ := hswap.swapsBack hoff hne hout
  have hback := Token.balance_dst_of_transfer htransfer hne
  have hsent := Token.balance_src_of_transfer htransfer hne
  have hpreferred := hredeemed.pays isA
  have hunwanted := hredeemed.pays (!isA)
  constructor
  · rw [World.reserve_of_pairState isA hswap.pairState', hreserve, hpaid.pair, hkept, hpreferred.pair,
      hbalance, sub_sub]
  · rw [World.reserve_of_pairState (!isA) hswap.pairState', hreserveOther, hback, hunwanted.pair,
      hbalance, sub_add_cancel]
  · rw [hpaid.user, hkept, hpreferred.user, add_assoc]
  · rw [hother, hsent, hunwanted.user, add_sub_cancel_right]
  · rw [hswap.frame.1, hlp, hredeemed.totalSupply]

/-- The parts pay the preferred share, and what the stored fee makes the pool quote for the other. -/
theorem burnThenSwap_ok {stored : FeeState} {state : PairStorage Address} {isA : Bool}
    (hoff : env.ProtocolFeeOff) (hnone : ∀ overrideBps, ¬env.Overrides overrideBps)
    (hdecay : NoPendingDecay env w)
    (hbalance : ∀ isA, (w.token isA).balance contract = w.reserve isA)
    (hpending : w.pair.pendingLp dst = 0) (hstored : w.pair.feeState = some stored)
    (hstate : w.pair.pairState = some state) (hside : tokenSide state preferredToken = .ok isA)
    (hparts : burnThenSwap staging burning env w dst lpAmount preferredToken = .ok (exited, paidOut)) :
    ∃ swapOut, paidOut = shareOf w lpAmount isA + swapOut ∧
      getAmountOut (shareOf w lpAmount (!isA)) (w.reserve (!isA) - shareOf w lpAmount (!isA))
        (w.reserve isA - shareOf w lpAmount isA) stored.computeFeeBps = .ok swapOut ∧
      ExitsFor w exited dst isA lpAmount paidOut := by
  simp only [burnThenSwap, bind_eq_ok, World.getPairState_eq_ok, pure_eq_ok, Prod.exists] at hparts
  obtain ⟨state', hstate', isA', hside', staged, hstaged, burned, shareA, shareB, hburned, returned,
    hreturned, feeBps, hfee, swapOut, hquoted, swapped, event, hswap, hresult⟩ := hparts
  obtain rfl : state' = state := Option.some.inj (hstate'.symm.trans hstate)
  obtain rfl : isA' = isA := Except.ok.inj (hside'.symm.trans hside)
  cases hresult
  obtain ⟨hne, hredeemed, hshare⟩ := burn_of_stage hpending hstaged hburned
  have hunwanted : (if isA' then shareB else shareA) = shareOf w lpAmount (!isA') := by
    rw [← hshare]
    cases isA' <;> rfl
  rw [hunwanted] at hreturned hquoted
  obtain ⟨-, -, hpair, -⟩ := moveToken_ok hreturned
  have hreserve := World.reserve_eq_of_pairState (congrArg Pair.pairState hpair)
  rw [hreserve, hredeemed.reserve, hredeemed.reserve] at hquoted
  -- the rate of the swap is the stored one
  obtain ⟨read, decayed, hread, hdecayed, hfeeBps⟩ := chargedFeeBps_ok.mp hfee
  rw [hpair, hredeemed.feeState] at hread
  obtain rfl : decayed = read := Except.ok.inj (hdecayed.symm.trans (hdecay _ hread))
  obtain rfl : decayed = stored := Option.some.inj (hread.symm.trans hstored)
  rw [effectiveFeeBps_of_not_overrides hnone] at hfeeBps
  rw [← hfeeBps] at hquoted
  obtain ⟨-, -, -, -, hout, -⟩ := quoteOutputAmount_ok (getAmountOut_eq_ok.mp hquoted)
  refine ⟨swapOut, by rw [hshare], hquoted, ?_⟩
  rw [hshare]
  exact exitsFor_of_swap hoff hne hbalance hredeemed hreturned hout hswap

/-- **One call or its parts.** With nothing but the stored fee at work, burning on one side leaves the
reserves and the supply that burning and swapping the unwanted share leave, and pays the same. -/
theorem burnSingleSide_eq_burnThenSwap (hoff : env.ProtocolFeeOff)
    (hnone : ∀ overrideBps, ¬env.Overrides overrideBps) (hdecay : NoPendingDecay env w)
    (hbalance : ∀ isA, (w.token isA).balance contract = w.reserve isA)
    (hpending : w.pair.pendingLp dst = 0)
    (hsingle : burnSingleSide single w dst lpAmount preferredToken minAmountOut =
      .ok (burnedSingle, totalOut))
    (hparts : burnThenSwap staging burning env w dst lpAmount preferredToken = .ok (exited, paidOut)) :
    SameExit dst burnedSingle exited ∧ totalOut = paidOut := by
  obtain ⟨state, stored, isA, lp, sharePreferred, shareUnwanted, singleOut, hburn⟩ :=
    burnSingleSide_ok hsingle
  obtain ⟨swapOut, hpaid, hquoted, hexits⟩ := burnThenSwap_ok hoff hnone hdecay hbalance hpending
    hburn.feeState hburn.pairState hburn.side hparts
  have hpreferred : sharePreferred = shareOf w lpAmount isA := by
    rw [shareOf, World.reserve_of_pairState isA hburn.pairState]
    exact hburn.sharePreferred_eq
  have hunwanted : shareUnwanted = shareOf w lpAmount (!isA) := by
    rw [shareOf, World.reserve_of_pairState (!isA) hburn.pairState]
    exact hburn.shareUnwanted_eq
  have hsingleOut := hburn.quoted
  rw [hpreferred, hunwanted, ← World.reserve_of_pairState isA hburn.pairState,
    ← World.reserve_of_pairState (!isA) hburn.pairState] at hsingleOut
  obtain rfl : singleOut = swapOut :=
    Except.ok.inj (hsingleOut.symm.trans (singleSideSwapOut_of_quoted hquoted))
  have htotal : totalOut = paidOut := by rw [hburn.total, hpaid, hpreferred]
  exact ⟨ExitsFor.same hburn.exitsFor (htotal ▸ hexits), htotal⟩

theorem burnSingleSide_eq_burnThenSwap_opened :
    let env : Env 0 := Env.quiet 0 1 1 none
    ∃ burnedSingle exited,
      burnSingleSide env (openedPool env 100000 100000) 1 10000 10 1 = .ok (burnedSingle, 19157) ∧
        burnThenSwap env env env (openedPool env 100000 100000) 1 10000 10 = .ok (exited, 19157) ∧
        SameExit 1 burnedSingle exited := by
  intro env
  have hsingle : Prod.snd <$> burnSingleSide env (openedPool env 100000 100000) 1 10000 10 1 =
      .ok 19157 := by decide +kernel
  have hparts : Prod.snd <$> burnThenSwap env env env (openedPool env 100000 100000) 1 10000 10 =
      .ok 19157 := by decide +kernel
  obtain ⟨⟨burnedSingle, _⟩, hsingle, rfl⟩ := exists_ok_of_map_eq hsingle
  obtain ⟨⟨exited, _⟩, hparts, rfl⟩ := exists_ok_of_map_eq hparts
  have hdecay : NoPendingDecay env (openedPool env 100000 100000) := by
    have hinitial : (openedPool env 100000 100000).pair.feeState = some FeeState.initial := by
      decide +kernel
    intro fs hfs
    obtain rfl := Option.some.inj (hinitial.symm.trans hfs)
    decide
  have hbalance : ∀ isA, ((openedPool env 100000 100000).token isA).balance 0 =
      (openedPool env 100000 100000).reserve isA := by decide +kernel
  exact ⟨burnedSingle, exited, hsingle, hparts, (burnSingleSide_eq_burnThenSwap (Or.inl rfl)
    (fun _ hoverride => by cases hoverride.1) hdecay hbalance (by decide +kernel) hsingle hparts).1⟩

end CoralSwap
