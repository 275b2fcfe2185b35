import CoralSwap.Proof.StagedExits

/-!
# Deposits and trades do not lower the value of a share

With the locked seed counted as a share like any other, the product of the reserves per squared share
does not fall when others deposit, trade, borrow, donate or sync. What a circulating share redeems is
worked out without the seed, so such runs cost it at most the part of the pool that the seed had.
-/

namespace CoralSwap

open Host Host.Call ConstantProduct

variable {Address : Type} [DecidableEq Address] {contract : Address}

/-- The pool with all its shares, the seed included. -/
def World.wholePool (w : World Address) : Pool ℤ := ⟨w.reserveA, w.reserveB, w.lp.totalSupply⟩

/-- The calls of those who deposit two tokens or trade, and everything third parties and the factory do. -/
def Op.IsDepositOrTrade : Op Address → Prop
  | .mintWithOneToken .. | .burn _ | .burnSingleSide .. => False
  | _ => True

/-- A deposit or a trade at a rate a factory sets, in which nobody signs for the pair or forges shares. -/
structure DepositOrTrade (w : World Address) (call : PairCall contract) : Prop where
  op : call.2.IsDepositOrTrade
  governed : call.1.Governed
  keyless : Keyless call
  honest : ForgesNoShares w call

/-- A pool that holds its reserves, with its seed locked. -/
structure Stocked (contract : Address) (w : World Address) : Prop where
  reserveA_pos : 0 < w.reserveA
  reserveB_pos : 0 < w.reserveB
  solvent : Solvent contract w
  capped : FeeCapped w
  escrow : ∃ e, Stages w e
  covered : Covered contract w
  seeded : Seeded contract w
  sound : LpSound contract w

omit [DecidableEq Address] in
theorem Stocked.minimumLiquidity_le {w : World Address} (hstocked : Stocked contract w) :
    minimumLiquidity ≤ w.lp.totalSupply := by
  obtain ⟨e, hstages⟩ := hstocked.escrow
  have hseeded := hstocked.seeded
  have hheld := hstocked.sound.backed.balance_le contract
  have htotal := hstages.addsUp.total_nonneg
  unfold Seeded at hseeded
  omega

/-- The reserves are still there, and a share is worth no less. -/
structure ValueKept (w w' : World Address) : Prop where
  reserveA_pos : 0 < w'.reserveA
  reserveB_pos : 0 < w'.reserveB
  keeps : w.wholePool.Keeps w'.wholePool

/-! ### One call -/

section Call

variable {env : Env contract} {w w' : World Address} {dst : Address}

omit [DecidableEq Address] in
/-- A call that issues no shares and does not lower the product. -/
theorem valueKept_of_product_le (hstocked : Stocked contract w) (hproduct : w.product ≤ w'.product)
    (hreserveA : 0 ≤ w'.reserveA) (hreserveB : 0 ≤ w'.reserveB) (hsupply : 0 ≤ w'.lp.totalSupply)
    (hissued : w'.lp.totalSupply ≤ w.lp.totalSupply) : ValueKept w w' := by
  have hpositive : 0 < w'.reserveA * w'.reserveB :=
    (mul_pos hstocked.reserveA_pos hstocked.reserveB_pos).trans_le hproduct
  refine ⟨pos_of_mul_pos_left hpositive hreserveB, pos_of_mul_pos_right hpositive hreserveA, ?_⟩
  exact Pool.keeps_of_le hproduct hpositive.le hsupply hissued

omit [DecidableEq Address] in
theorem valueKept_of_reserves_le (hstocked : Stocked contract w) (hA : w.reserveA ≤ w'.reserveA)
    (hB : w.reserveB ≤ w'.reserveB) (hsupply : 0 ≤ w'.lp.totalSupply)
    (hissued : w'.lp.totalSupply ≤ w.lp.totalSupply) : ValueKept w w' := by
  have hreserveA := hstocked.reserveA_pos.le.trans hA
  refine valueKept_of_product_le hstocked ?_ hreserveA (hstocked.reserveB_pos.le.trans hB) hsupply hissued
  exact mul_le_mul hA hB hstocked.reserveB_pos.le hreserveA

/-- A deposit is issued the shares of its smaller side, rounded down. -/
theorem valueKept_of_mint {state : PairStorage Address} {seeded lp : LpToken Address} {liquidity : ℤ}
    (hstocked : Stocked contract w) (hmint : MintSettles env w dst state seeded lp w' liquidity) :
    ValueKept w w' := by
  have hsupply : 0 < w.lp.totalSupply := lt_of_lt_of_le (by decide) hstocked.minimumLiquidity_le
  rcases mintedLiquidity_ok hmint.priced with ⟨hnone, -⟩ | ⟨-, rfl, -, -, hliquidity⟩
  · exact absurd hnone hsupply.ne'
  obtain ⟨-, -, -, hlp⟩ := LpToken.mint_ok hmint.minted
  have hA := hstocked.reserveA_pos
  have hB := hstocked.reserveB_pos
  rw [World.reserveA_of_pairState hmint.pairState] at hA
  rw [World.reserveB_of_pairState hmint.pairState] at hB
  have hfloor : (0 : ℤ) ≤ minimumReserve := by decide
  have hinA : 0 ≤ w.tokenA.balance contract - state.reserveA := hfloor.trans hmint.depositA
  have hinB : 0 ≤ w.tokenB.balance contract - state.reserveB := hfloor.trans hmint.depositB
  have hissued : 0 ≤ liquidity := le_trans (by decide) hmint.worth
  have hshareA : liquidity * state.reserveA ≤
      (w.tokenA.balance contract - state.reserveA) * w.lp.totalSupply :=
    calc
      _ ≤ _ := mul_le_mul_of_nonneg_right (hliquidity.trans_le (min_le_left _ _)) hA.le
      _ ≤ _ := tdiv_mul_le (mul_nonneg hinA hsupply.le) hA
  have hshareB : liquidity * state.reserveB ≤
      (w.tokenB.balance contract - state.reserveB) * w.lp.totalSupply :=
    calc
      _ ≤ _ := mul_le_mul_of_nonneg_right (hliquidity.trans_le (min_le_right _ _)) hB.le
      _ ≤ _ := tdiv_mul_le (mul_nonneg hinB hsupply.le) hB
  have hkeeps := Pool.keeps_of_deposit (p := ⟨state.reserveA, state.reserveB, w.lp.totalSupply⟩)
    hA.le hB.le hsupply.le hissued hshareA hshareB
  simp only [add_sub_cancel] at hkeeps
  refine ⟨?_, ?_, ?_⟩
  · rw [hmint.result]
    exact hA.trans_le (sub_nonneg.mp hinA)
  · rw [hmint.result]
    exact hB.trans_le (sub_nonneg.mp hinB)
  · have hsupply' : w'.lp.totalSupply = w.lp.totalSupply + liquidity := by rw [hmint.result, hlp]
    unfold World.wholePool
    rw [hsupply', World.reserveA_of_pairState hmint.pairState, World.reserveB_of_pairState hmint.pairState,
      hmint.result]
    exact hkeeps

theorem valueKept_of_swap {amountAOut amountBOut : ℤ} {before after : PairStorage Address}
    {stored decayed : FeeState} {paidA paidB : Token Address} {event : SwapEvent}
    (hstocked : Stocked contract w) (hfee : event.feeBps ≤ 10000)
    (hswap : SwapSettles env w amountAOut amountBOut dst before after stored decayed paidA paidB w' event) :
    ValueKept w w' := by
  have hlp := hswap.frame.1
  have hsupply : 0 ≤ w.lp.totalSupply := le_trans (by decide) hstocked.minimumLiquidity_le
  apply valueKept_of_product_le hstocked (product_le_of_swapSettles hswap hfee)
  · rw [World.reserveA_of_pairState hswap.pairState']
    exact hswap.sideA.reserve_nonneg hfee
  · rw [World.reserveB_of_pairState hswap.pairState']
    exact hswap.sideB.reserve_nonneg hfee
  · rwa [hlp]
  · rw [hlp]

/-- **Step.** What a deposit or a trade does to the value of a share. -/
theorem valueKept_of_exec {op : Op Address} (hstocked : Stocked contract w) (hcall : DepositOrTrade w (env, op))
    (hsupply : 0 ≤ w'.lp.totalSupply) (hexec : exec w (env, op) = .ok w') : ValueKept w w' := by
  have hsame : w'.pair.pairState = w.pair.pairState → w'.lp.totalSupply ≤ w.lp.totalSupply →
      ValueKept w w' := by
    intro hpairState hissued
    apply valueKept_of_reserves_le hstocked _ _ hsupply hissued
    · rw [World.reserveA, World.reserveA, hpairState]
    · rw [World.reserveB, World.reserveB, hpairState]
  cases callEffect_of_exec hexec with
  | initializePair hnone =>
      have hempty : w.reserveA = 0 := by rw [World.reserveA, hnone]; rfl
      exact absurd hempty hstocked.reserveA_pos.ne'
  | mint hmint => exact valueKept_of_mint hstocked hmint
  | depositLp hdeposit =>
      obtain ⟨-, -, -, hlp⟩ := LpToken.transfer_ok hdeposit.moved
      obtain rfl := hdeposit.result
      apply hsame rfl
      rw [hlp]
  | swap hswap =>
      refine valueKept_of_swap hstocked ?_ hswap
      exact (chargedFeeBps_le hcall.governed hstocked.capped (chargedFeeBps_of_swap hswap)).trans (by decide)
  | flashLoan =>
      apply valueKept_of_reserves_le hstocked _ _ hsupply
      · exact totalSupply_le_of_flashLoan hstocked.sound.admin hcall.honest hexec
      · exact reserve_le_of_flashLoan hstocked.solvent hexec true
      · exact reserve_le_of_flashLoan hstocked.solvent hexec false
  | emptyFlashLoan hresult => exact hsame (by rw [hresult]) (by rw [hresult])
  | sync hstate hresult =>
      subst hresult
      exact valueKept_of_reserves_le hstocked hstocked.solvent.reserveA_le hstocked.solvent.reserveB_le hsupply
        le_rfl
  | setStaleThreshold hfs hresult => exact hsame (by rw [hresult]; rfl) (by rw [hresult]; rfl)
  | setLpTokenPaused hlp hresult =>
      obtain ⟨-, rfl⟩ := LpToken.setPaused_ok hlp
      exact hsame (by rw [hresult]) (by rw [hresult])
  | setFrozen hresult => exact hsame (by rw [hresult]) (by rw [hresult])
  | @external action heffect =>
      have hframe := outsideFrame_of_external heffect
      have hissued : ((externalMachine contract).run w [action]).lp.totalSupply ≤ w.lp.totalSupply :=
        totalSupply_le_of_run hstocked.sound.admin hcall.honest
      rw [Machine.run_cons, Machine.run_nil,
        Machine.step_of_exec_ok (m := externalMachine contract) hexec] at hissued
      exact hsame (by rw [hframe.pair]) hissued
  | _ => exact hcall.op.elim

theorem stocked_of_exec {op : Op Address} (hstocked : Stocked contract w) (hcall : DepositOrTrade w (env, op))
    (hexec : exec w (env, op) = .ok w') : ValueKept w w' ∧ Stocked contract w' := by
  have hfirst : FirstSharesMinted w (env, op) := by
    refine Machine.Along.mono ?_ hcall.honest
    intro t lpCall hburns _
    exact hburns
  obtain ⟨hcovered, hseeded⟩ := covered_of_exec hcall.keyless hfirst hstocked.covered hexec
  obtain ⟨e, hstages⟩ := hstocked.escrow
  have hsound := lpSound_of_exec hstocked.sound hexec
  have hkept := valueKept_of_exec hstocked hcall hsound.backed.total_nonneg hexec
  refine ⟨hkept, hkept.reserveA_pos, hkept.reserveB_pos, solvent_of_exec hstocked.solvent ?_ hexec,
    feeCapped_of_exec hstocked.capped hexec, ⟨_, stages_of_exec hstages hexec⟩, hcovered,
    hseeded hstocked.seeded, hsound⟩
  have hop := hcall.op
  cases op <;> first | exact fun hmint => hmint | exact hop.elim

end Call

/-! ### Runs -/

theorem keeps_of_run {w : World Address} {calls : List (PairCall contract)} (hstocked : Stocked contract w)
    (hcalls : (pairMachine contract).Along DepositOrTrade w calls) :
    Stocked contract ((pairMachine contract).run w calls) ∧
      w.wholePool.Keeps ((pairMachine contract).run w calls).wholePool := by
  refine Machine.run_invariant (m := pairMachine contract)
    (I := fun w' => Stocked contract w' ∧ w.wholePool.Keeps w'.wholePool) ?_ ⟨hstocked, le_rfl⟩ hcalls
  rintro w₁ ⟨env, op⟩ w₂ ⟨hstocked₁, hkeeps⟩ hcall hexec
  obtain ⟨hkept, hstocked₂⟩ := stocked_of_exec hstocked₁ hcall hexec
  have hsupply : 0 < w₁.lp.totalSupply := lt_of_lt_of_le (by decide) hstocked₁.minimumLiquidity_le
  exact ⟨hstocked₂, hkeeps.trans hsupply hkept.keeps⟩

/-- Others deposit, trade, borrow and donate while 50000 shares are staged. -/
def depositorCalls : List (PairCall 0) :=
  [(stagingEnv, .external (.transferA 1 0 5000)), (stagingEnv, .external (.transferB 1 0 7000)),
    (stagingEnv, .mint 2), (stagingEnv, .external (.transferA 1 0 3000)), (stagingEnv, .swap 0 2000 1),
    (stagingEnv, .flashLoan 1 5000 0 0 ⟨[.transferA 1 0 5015], true⟩),
    (stagingEnv, .external (.lpCall ⟨1, fun who => who = 2, Crypto.rejecting ℕ⟩ (.burn 2 1000))),
    (stagingEnv, .sync)]

end CoralSwap
