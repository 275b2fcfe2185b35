import CoralSwap.Lib.ConstantProduct
import CoralSwap.Pair.Machine
import CoralSwap.Proof.ExactQuotes
import CoralSwap.Proof.SingleSidedEffects
import CoralSwap.Proof.SwapFaults

/-!
# The internal swap of a single-sided burn

The burn quotes its swap against the reserves it has just redeemed from, so the product check that
follows repeats what the quote already rounded down. Both reserves are drained together, by a burn of
every redeemable share, and then there is nothing to quote.
-/

namespace CoralSwap

open Host Host.Call Exchange

variable {Address : Type} [DecidableEq Address] {contract : Address}

/-- A fault other than the two the internal swap could raise. -/
def OutsideSwap (fault : Fault PairError) : Prop :=
  fault ≠ .error .invalidK ∧ fault ≠ .error .insufficientLiquidity

instance : DecidablePred OutsideSwap := fun _ => inferInstanceAs (Decidable (_ ∧ _))

variable {amountIn reserveIn reserveOut out lpAmount supply reserve other : ℤ} {feeBps : ℕ}

/-! ### The redeemed shares -/

theorem redeemed_le (hlp : 0 ≤ lpAmount) (hle : lpAmount ≤ supply) (hsupply : 0 < supply) (hreserve : 0 ≤ reserve) :
    (lpAmount * reserve).tdiv supply ≤ reserve := by
  rw [tdiv_le_iff (mul_nonneg hlp hreserve) hsupply]
  have hpart : lpAmount * reserve ≤ supply * reserve := mul_le_mul_of_nonneg_right hle hreserve
  linarith

/-- A burn of every redeemable share drains the reserve, and no other burn does. -/
theorem redeemed_eq_iff (hlp : 0 ≤ lpAmount) (hle : lpAmount ≤ supply) (hsupply : 0 < supply)
    (hreserve : 0 < reserve) : (lpAmount * reserve).tdiv supply = reserve ↔ lpAmount = supply := by
  constructor
  · intro hdrained
    have hcovers := tdiv_mul_le (mul_nonneg hlp hreserve.le) hsupply
    rw [hdrained, mul_comm] at hcovers
    exact le_antisymm hle (le_of_mul_le_mul_right hcovers hreserve)
  · rintro rfl
    exact Int.mul_tdiv_cancel_left reserve hsupply.ne'

/-- Two sides drained only together, read from either of them. -/
theorem sides_of_drained {shareA shareB reserveA reserveB : ℤ} (isA : Bool)
    (hpositive : 0 < shareA ∧ 0 < shareB) (hleA : shareA ≤ reserveA) (hleB : shareB ≤ reserveB)
    (hdrained : shareA = reserveA ↔ shareB = reserveB) :
    0 < (if isA = true then shareB else shareA) ∧
      (if isA = true then shareA else shareB) ≤ (if isA = true then reserveA else reserveB) ∧
      ((if isA = true then reserveA else reserveB) - (if isA = true then shareA else shareB) ≠ 0 →
        0 < (if isA = true then reserveB else reserveA) - (if isA = true then shareB else shareA)) := by
  cases isA
  · simp only [Bool.false_eq_true, if_false]
    exact ⟨hpositive.1, hleB, fun hleft => by omega⟩
  · simp only [if_true]
    exact ⟨hpositive.2, hleA, fun hleft => by omega⟩

/-! ### The quote -/

theorem quoteOutputAmount_failsWith (hin : 0 < reserveIn) (hout : 0 < reserveOut) :
    FailsWith (fun fault => fault ≠ .error .insufficientLiquidity)
      (quoteOutputAmount amountIn reserveIn reserveOut feeBps) := by
  unfold quoteOutputAmount feeFactor
  refine .bind (.failIf fun _ => by simp) fun _ _ => ?_
  refine .bind (.failIf fun hempty => absurd hempty (by omega)) fun _ _ => ?_
  refine .bind (.bind (.failIf fun _ => by simp) fun _ _ => .ret _) fun _ _ => ?_
  iterate 4 refine .bind (.okOr fun _ => by simp) fun _ _ => ?_
  exact .bind (.failIf fun _ => by simp) fun _ _ => .ret _

theorem getAmountOut_failsWith (hin : 0 < reserveIn) (hout : 0 < reserveOut) :
    FailsWith OutsideSwap (getAmountOut amountIn reserveIn reserveOut feeBps) := by
  unfold getAmountOut
  split
  · exact .ok _
  · rename_i code hquote
    have hcode : code ≠ .insufficientLiquidity := fun h =>
      quoteOutputAmount_failsWith hin hout _ hquote (congrArg Fault.error h)
    apply FailsWith.fail
    cases code with
    | insufficientLiquidity => exact absurd rfl hcode
    | zeroAmount | overflow | dust | invalidFee => decide
  · exact .trap (by decide)

theorem singleSideSwapOut_failsWith (hin : reserveOut ≠ 0 → 0 < reserveIn) (hout : 0 ≤ reserveOut) :
    FailsWith OutsideSwap (singleSideSwapOut amountIn reserveIn reserveOut feeBps) := by
  unfold singleSideSwapOut
  split
  · exact .ret _
  · rename_i hreserve
    have hpositive : 0 < reserveOut := lt_of_le_of_ne hout (Ne.symm hreserve)
    have hquote : FailsWith OutsideSwap (getAmountOut amountIn reserveIn reserveOut feeBps) :=
      getAmountOut_failsWith (hin hreserve) hpositive
    split
    · exact .ret _
    · exact .ret _
    · rename_i hfault
      intro _ heq
      cases heq
      exact hquote _ hfault

/-- The output of the internal swap is covered by the burned share that goes back in. -/
theorem singleSideSwapOut_covered (hfee : (feeBps : ℤ) ≤ bpsDenominator) (hin : 0 ≤ amountIn) (hout : 0 ≤ reserveOut)
    (hquoted : singleSideSwapOut amountIn reserveIn reserveOut feeBps = .ok out) :
    out ≤ reserveOut ∧ Buys reserveIn reserveOut feeBps amountIn out := by
  rcases singleSideSwapOut_ok hquoted with rfl | hquote
  · refine ⟨hout, ?_⟩
    unfold Buys Covers
    rw [zero_mul]
    exact mul_nonneg (mul_nonneg hin (sub_nonneg.mpr hfee)) hout
  · exact ⟨(quoteOutputAmount_lt hquote).le, ((le_quoteOutputAmount_iff hquote).2 out).mp le_rfl⟩

/-- **The product check** repeats what the quote rounded down. -/
theorem product_le_of_bought (hin : 0 ≤ amountIn) (hle : out ≤ reserveOut)
    (hcovered : Buys (reserve - amountIn) reserveOut feeBps amountIn out) :
    reserveOut * (reserve - amountIn) * 100000000 ≤
      (reserveOut - out) * bpsDenominator * (reserve * bpsDenominator - amountIn * feeBps) := by
  have hproduct := ConstantProduct.product_le_of_covered (by decide) hin hle le_rfl hcovered
  calc reserveOut * (reserve - amountIn) * 100000000
      = (reserve - amountIn) * reserveOut * (bpsDenominator * bpsDenominator) := by
        unfold bpsDenominator
        ring
    _ ≤ ((reserve - amountIn) * bpsDenominator + amountIn * (bpsDenominator - feeBps)) *
          ((reserveOut - out) * bpsDenominator) := hproduct
    _ = (reserveOut - out) * bpsDenominator * (reserve * bpsDenominator - amountIn * feeBps) := by ring

/-! ### The whole burn -/

omit [DecidableEq Address] in
theorem tokenSide_failsWith (state : PairStorage Address) [DecidableEq Address] (token : Address) :
    FailsWith OutsideSwap (tokenSide state token) := by
  unfold tokenSide
  split
  · exact .ret _
  · split
    · exact .ret _
    · exact .fail (by decide)

theorem moveToken_failsWith (w : World Address) (isA : Bool) (src dst : Address) (amount : ℤ) :
    FailsWith OutsideSwap (moveToken w isA src dst amount) := by
  unfold moveToken
  cases isA
  · exact .bind (.orTrap fun _ => by decide) fun _ _ => .ret _
  · exact .bind (.orTrap fun _ => by decide) fun _ _ => .ret _

omit [DecidableEq Address] in
theorem share_outsideSwap (amount part whole : ℤ) : FailsWith OutsideSwap (share amount part whole) :=
  .bind (.okOr fun _ => by decide) fun _ _ => .okOr fun _ => by decide

/-- **A single-sided burn never fails in its own swap.** -/
theorem burnSingleSide_outsideSwap {w : World Address} {state : PairStorage Address} {stored : FeeState}
    (hstate : w.pair.pairState = some state) (hstored : w.pair.feeState = some stored)
    (hreserves : 0 < state.reserveA ∧ 0 < state.reserveB) (hfee : stored.computeFeeBps < 10000)
    (hsupply : minimumLiquidity < w.lp.totalSupply) (hlp : 0 < lpAmount)
    (hle : lpAmount ≤ w.lp.totalSupply - minimumLiquidity) (env : Env contract) (dst preferredToken : Address)
    (minAmountOut : ℤ) :
    FailsWith OutsideSwap (burnSingleSide env w dst lpAmount preferredToken minAmountOut) := by
  unfold burnSingleSide
  refine .bind (.require fun _ => by decide) fun _ _ => ?_
  refine .bind (.bind (.failIf fun _ => by decide) fun _ _ => .ret _) fun held hheld => ?_
  obtain ⟨-, rfl⟩ := World.acquireLock_eq_ok.mp hheld
  refine .bind (.failIf fun _ => by decide) fun _ _ => ?_
  refine .bind (.okOr fun _ => by decide) fun read hread => ?_
  obtain rfl : state = read := Option.some.inj (hstate.symm.trans (World.getPairState_eq_ok.mp hread))
  refine .bind (.okOr fun _ => by decide) fun fs hfs => ?_
  obtain rfl : stored = fs := Option.some.inj (hstored.symm.trans (World.getFeeState_eq_ok.mp hfs))
  refine .bind (.failIf fun _ => by decide) fun _ _ => ?_
  refine .bind (.failIf fun _ => by decide) fun _ _ => ?_
  refine .bind (tokenSide_failsWith _ _) fun preferA _ => ?_
  refine .bind (.failIf fun _ => by decide) fun _ _ => ?_
  refine .bind (.nested fun _ => by decide) fun lp _ => ?_
  -- the redeemed shares
  refine .checked (fun _ => by decide) fun _ => ?_
  refine .bind (.failIf fun _ => by decide) fun _ _ => ?_
  refine .bind (share_outsideSwap _ _ _) fun shareA hshareA => ?_
  refine .bind (share_outsideSwap _ _ _) fun shareB hshareB => ?_
  obtain ⟨-, -, -, hshareA⟩ := share_eq_ok.mp hshareA
  obtain ⟨-, -, -, hshareB⟩ := share_eq_ok.mp hshareB
  have hburnable : 0 < w.lp.totalSupply - minimumLiquidity := sub_pos.mpr hsupply
  have hleA : shareA ≤ state.reserveA := hshareA ▸ redeemed_le hlp.le hle hburnable hreserves.1.le
  have hleB : shareB ≤ state.reserveB := hshareB ▸ redeemed_le hlp.le hle hburnable hreserves.2.le
  have hdrained : shareA = state.reserveA ↔ shareB = state.reserveB := by
    rw [← hshareA, ← hshareB, redeemed_eq_iff hlp.le hle hburnable hreserves.1,
      redeemed_eq_iff hlp.le hle hburnable hreserves.2]
  refine .bind (.failIf fun _ => by decide) fun _ hpositive => ?_
  have hshares : 0 < shareA ∧ 0 < shareB := by
    have := failIf_eq_ok.mp hpositive
    omega
  obtain ⟨hunwanted, hpreferred, hdrained⟩ := sides_of_drained preferA hshares hleA hleB hdrained
  refine .checked (fun _ => by decide) fun _ => ?_
  refine .checked (fun _ => by decide) fun _ => ?_
  -- the internal swap
  refine .bind (singleSideSwapOut_failsWith hdrained (by omega)) fun swapOut hquoted => ?_
  obtain ⟨hout, hcovered⟩ := singleSideSwapOut_covered
    (show (stored.computeFeeBps : ℤ) ≤ bpsDenominator by unfold bpsDenominator; omega) hunwanted.le (by omega) hquoted
  refine .bind (.okOr fun _ => by decide) fun _ _ => .bind (.failIf fun _ => by decide) fun _ _ => ?_
  refine .checked (fun _ => by decide) fun _ => ?_
  -- the product check
  refine .checked (fun _ => by decide) fun _ => ?_
  refine .checked (fun _ => by decide) fun _ => ?_
  refine .checked (fun _ => by decide) fun _ => ?_
  refine .checked (fun _ => by decide) fun _ => ?_
  refine .checked (fun _ => by decide) fun _ => ?_
  refine .checked (fun _ => by decide) fun _ => ?_
  refine .checked (fun _ => by decide) fun _ => ?_
  have hkept := product_le_of_bought hunwanted.le hout hcovered
  refine .bind (.failIf fun hlt => absurd hlt (not_lt.mpr hkept)) fun _ _ => ?_
  refine .bind (moveToken_failsWith _ _ _ _ _) fun _ _ => ?_
  exact .bind (.okOr fun _ => by decide) fun _ _ => .ret _

/-- The product check of a single-sided burn never refuses, and its quote never finds an empty reserve. -/
theorem burnSingleSide_satisfies_product {w : World Address} {state : PairStorage Address} {stored : FeeState}
    (hstate : w.pair.pairState = some state) (hstored : w.pair.feeState = some stored)
    (hreserves : 0 < state.reserveA ∧ 0 < state.reserveB) (hfee : burnSingleSideFeeBps stored < 10000)
    (hsupply : minimumLiquidity < w.lp.totalSupply) (hlp : 0 < lpAmount)
    (hle : lpAmount ≤ w.lp.totalSupply - minimumLiquidity) (env : Env contract) (dst preferredToken : Address)
    (minAmountOut : ℤ) :
    burnSingleSide env w dst lpAmount preferredToken minAmountOut ≠ .error (.error .invalidK) ∧
      burnSingleSide env w dst lpAmount preferredToken minAmountOut ≠
        .error (.error .insufficientLiquidity) := by
  have hfails := burnSingleSide_outsideSwap hstate hstored hreserves hfee hsupply hlp hle env dst preferredToken
    minAmountOut
  exact ⟨fun hfault => (hfails _ hfault).1 rfl, fun hfault => (hfails _ hfault).2 rfl⟩

theorem burnSingleSide_satisfies_product_full_exit :
    let env : Env 0 := Env.quiet 0 1 1 none
    burnSingleSide env (openedPool env 100000 100000) 1 99000 10 1 ≠ .error (.error .invalidK) ∧
      burnSingleSide env (openedPool env 100000 100000) 1 99000 10 1 ≠
        .error (.error .insufficientLiquidity) := by
  intro env
  have hreserves : (openedPool env 100000 100000).pair.pairState.map
      (fun state => (state.reserveA, state.reserveB)) = some (100000, 100000) := by decide +kernel
  have hinitial : (openedPool env 100000 100000).pair.feeState = some FeeState.initial := by
    decide +kernel
  obtain ⟨state, hstate, hpair⟩ := Option.map_eq_some_iff.mp hreserves
  obtain ⟨hA, hB⟩ := Prod.mk.inj hpair
  exact burnSingleSide_satisfies_product hstate hinitial ⟨by omega, by omega⟩ (by decide) (by decide +kernel)
    (by decide) (by decide +kernel) env 1 10 1

end CoralSwap
