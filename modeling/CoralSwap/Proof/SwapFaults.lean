import CoralSwap.Lib.Faults
import CoralSwap.Proof.SwapEffects

/-!
# How a swap fails

The refusals of a swap in the order of the source, each under what the steps before it have
established. A swap whose outputs are covered by the reserves and whose inputs are in the balances
fails in no other way.
-/

namespace CoralSwap

open Host Host.Call

variable {Address : Type} [DecidableEq Address] {contract : Address}

def Fits (value : ℤ) : Prop := i128.min ≤ value ∧ value ≤ i128.max

theorem not_fits_of_checked {value : ℤ} (hnone : i128.checked value = none) : ¬Fits value :=
  Word.checked_eq_none.mp hnone

theorem fits_of_le {value bound : ℤ} (hnonneg : 0 ≤ value) (hle : value ≤ bound)
    (hbound : bound ≤ i128.max) : Fits value :=
  ⟨le_trans (by decide) hnonneg, hle.trans hbound⟩

theorem sub_fits {a b : ℤ} (ha : 0 ≤ a ∧ a ≤ i128.max) (hb : 0 ≤ b ∧ b ≤ i128.max) : Fits (a - b) := by
  have hmin : i128.min ≤ -i128.max := by decide
  constructor <;> omega

/-! ### Tracking never fails -/

theorem scaledPrice_bounds {reserveA reserveB : ℤ} (hA : 0 < reserveA) (hB : 0 < reserveB) :
    0 ≤ scaledPrice reserveA reserveB ∧ scaledPrice reserveA reserveB ≤ i128.max := by
  unfold scaledPrice
  cases hprice : (i128.checkedMul reserveB FeeState.scale).bind fun v => i128.checkedDiv v reserveA with
  | none => exact ⟨le_rfl, by decide⟩
  | some price =>
      simp only [Option.bind_eq_some_iff, Word.checkedMul_eq_some, Word.checkedDiv_eq_some] at hprice
      obtain ⟨_, ⟨-, rfl⟩, -, ⟨-, hhigh⟩, rfl⟩ := hprice
      exact ⟨Int.tdiv_nonneg (mul_nonneg hB.le (by decide)) hA.le, hhigh⟩

/-- The distance of two prices, subtracted in the order of their size. -/
theorem checkedSub_of_prices {before after : ℤ} (hbefore : 0 ≤ before ∧ before ≤ i128.max)
    (hafter : 0 ≤ after ∧ after ≤ i128.max) :
    (if before < after then i128.checkedSub after before else i128.checkedSub before after) =
      some |after - before| := by
  split
  · rename_i hrise
    rw [abs_of_pos (sub_pos.mpr hrise)]
    exact Word.checkedSub_eq_some.mpr ⟨sub_fits hafter hbefore, rfl⟩
  · rename_i hfall
    rw [abs_of_nonpos (sub_nonpos.mpr (not_lt.mp hfall)), neg_sub]
    exact Word.checkedSub_eq_some.mpr ⟨sub_fits hbefore hafter, rfl⟩

omit [DecidableEq Address] in
theorem updateVolatility_failsWith (env : Env contract) (fs : FeeState)
    (priceDeltaAbs tradeSize totalReserve : ℤ) :
    FailsWith (fun fault => fault ≠ .trap)
      (fs.updateVolatility env priceDeltaAbs tradeSize totalReserve) := by
  unfold FeeState.updateVolatility
  refine .bind (.failIf fun _ => by simp) fun _ _ => .bind (.failIf fun _ => by simp) fun _ _ => ?_
  iterate 9 refine .bind (.okOr fun _ => by simp) fun _ _ => ?_
  exact .ret _

omit [DecidableEq Address] in
theorem trackVolatility_failsWith (env : Env contract) (fs : FeeState)
    (before after : PairStorage Address) (amountAIn amountBIn : ℤ) :
    FailsWith (fun _ => False) (trackVolatility env fs before after amountAIn amountBIn) := by
  unfold trackVolatility
  split
  · rename_i hreserves
    obtain ⟨hbeforeA, hbeforeB, hafterA, hafterB⟩ := hreserves
    have hbefore := scaledPrice_bounds hbeforeA hbeforeB
    have hafter := scaledPrice_bounds hafterA hafterB
    refine .bind (.orTrap fun hnone => ?_) fun priceDeltaAbs _ => ?_
    · rw [checkedSub_of_prices hbefore hafter] at hnone
      cases hnone
    · dsimp only
      split
      · exact .ret _
      · exact .ret _
      · rename_i htrap
        exact absurd rfl (updateVolatility_failsWith _ _ _ _ _ _ htrap)
  · exact .ret _

/-! ### One side -/

/-- The fee on an input taken from a balance that fits does not overflow. -/
theorem feeAdjusted_failsWith {P : Fault PairError → Prop} {balance amountIn : ℤ} {feeBps : ℕ}
    (hfee : (feeBps : ℤ) ≤ bpsDenominator) (hin : 0 ≤ amountIn) (hle : amountIn ≤ balance)
    (hoverflow : ¬(Fits (balance * bpsDenominator) ∧ Fits (feeScaled balance amountIn feeBps)) →
      P (.error .overflow)) : FailsWith P (feeAdjusted balance amountIn feeBps) := by
  unfold feeAdjusted
  refine .checked (fun hover => hoverflow fun hfits => hover hfits.1) fun hfits => ?_
  refine .bind (.orTrap fun hnone => ?_) fun charged hcharged => ?_
  · -- the charge is within the scaled balance
    refine absurd (fits_of_le (mul_nonneg hin (Int.natCast_nonneg _)) ?_ hfits.2)
      (not_fits_of_checked hnone)
    exact mul_le_mul hle hfee (Int.natCast_nonneg _) (hin.trans hle)
  · obtain ⟨-, rfl⟩ := Word.checkedMul_eq_some.mp (orTrap_eq_ok.mp hcharged)
    exact .okOr fun hnone => hoverflow fun hfits => not_fits_of_checked hnone hfits.2

/-! ### The whole swap -/

/-- A swap whose outputs are covered by the reserves, in a pair that holds more than its reserve of some
token and no less of the other. -/
structure FundedSwap (w : World Address) (contract : Address) (amountAOut amountBOut : ℤ)
    (before : PairStorage Address) (stored : FeeState) : Prop where
  pairState : w.pair.pairState = some before
  feeState : w.pair.feeState = some stored
  nonneg : 0 ≤ amountAOut ∧ 0 ≤ amountBOut
  requested : 0 < amountAOut ∨ 0 < amountBOut
  covered : amountAOut < before.reserveA ∧ amountBOut < before.reserveB
  backedA : before.reserveA ≤ w.tokenA.balance contract
  backedB : before.reserveB ≤ w.tokenB.balance contract
  funded : before.reserveA < w.tokenA.balance contract ∨ before.reserveB < w.tokenB.balance contract

/-- What the checks of a swap multiply, and what they bound it by. -/
structure SwapFits (before : PairStorage Address) (feeBps : ℕ) (balanceA balanceB inA inB : ℤ) : Prop where
  sideA : Fits (balanceA * bpsDenominator) ∧ Fits (feeScaled balanceA inA feeBps)
  sideB : Fits (balanceB * bpsDenominator) ∧ Fits (feeScaled balanceB inB feeBps)
  product : Fits (before.reserveA * before.reserveB)
  scaled : Fits (before.reserveA * before.reserveB * 100000000)
  after : Fits (feeScaled balanceA inA feeBps * feeScaled balanceB inB feeBps)

/-- The refusals left once the outputs have been paid. -/
structure LateFaults (P : Fault PairError → Prop) (env : Env contract) (before : PairStorage Address)
    (feeBps : ℕ) (paidA paidB : Token Address) (inA inB : ℤ) : Prop where
  fee : (feeBps : ℤ) ≤ bpsDenominator
  overflow : ¬SwapFits before feeBps (paidA.balance contract) (paidB.balance contract) inA inB →
    P (.error .overflow)
  invalidK : SwapFits before feeBps (paidA.balance contract) (paidB.balance contract) inA inB →
    feeScaled (paidA.balance contract) inA feeBps * feeScaled (paidB.balance contract) inB feeBps <
      before.reserveA * before.reserveB * 100000000 → P (.error .invalidK)
  collectA : SwapFits before feeBps (paidA.balance contract) (paidB.balance contract) inA inB →
    (∀ t, env.collectProtocolFee paidA (env.protocolFee inA feeBps) ≠ .ok t) → P .trap
  collectB : SwapFits before feeBps (paidA.balance contract) (paidB.balance contract) inA inB →
    (∀ t, env.collectProtocolFee paidB (env.protocolFee inB feeBps) ≠ .ok t) → P .trap
  settle : SwapFits before feeBps (paidA.balance contract) (paidB.balance contract) inA inB →
    ¬(Fits (paidA.balance contract - env.protocolFee inA feeBps) ∧
        Fits (paidB.balance contract - env.protocolFee inB feeBps) ∧
        Fits ((paidA.balance contract - env.protocolFee inA feeBps) *
          (paidB.balance contract - env.protocolFee inB feeBps))) → P (.error .overflow)

/-- What a side of a swap receives. -/
def inputOf (contract : Address) (paid : Token Address) (reserve amountOut : ℤ) : ℤ :=
  max (paid.balance contract - (reserve - amountOut)) 0

structure SwapFaults (P : Fault PairError → Prop) (env : Env contract) (w : World Address)
    (amountAOut amountBOut : ℤ) (dst : Address) (before : PairStorage Address) (stored : FeeState) :
    Prop where
  dust : before.reserveA - amountAOut < minimumReserve ∨ before.reserveB - amountBOut < minimumReserve →
    P (.error .dustAmount)
  stamp : (∀ decayed, stored.decayStaleEma env ≠ .ok decayed) → P .trap
  payA : (∀ t, payOut w.tokenA contract dst amountAOut ≠ .ok t) → P .trap
  payB : (∀ t, payOut w.tokenB contract dst amountBOut ≠ .ok t) → P .trap
  late : ∀ decayed paidA paidB, stored.decayStaleEma env = .ok decayed →
    payOut w.tokenA contract dst amountAOut = .ok paidA →
    payOut w.tokenB contract dst amountBOut = .ok paidB →
      LateFaults P env before (env.effectiveFeeBps decayed.computeFeeBps) paidA paidB
        (inputOf contract paidA before.reserveA amountAOut)
        (inputOf contract paidB before.reserveB amountBOut)

theorem failsWith_trap_of {α : Type} {P : Fault PairError → Prop} {call : Call PairError α}
    (htrap : FailsWith (fun fault => fault = .trap) call) (h : (∀ a, call ≠ .ok a) → P .trap) :
    FailsWith P call := by
  intro fault hfault
  rw [htrap fault hfault]
  refine h fun a hok => ?_
  rw [hfault] at hok
  cases hok

theorem payOut_failsWith (t : Token Address) (dst : Address) (amount : ℤ) :
    FailsWith (fun fault => fault = .trap) (payOut t contract dst amount) := by
  unfold payOut
  split
  · exact .orTrap fun _ => rfl
  · exact .ret _

theorem collectProtocolFee_failsWith (env : Env contract) (t : Token Address) (fee : ℤ) :
    FailsWith (fun fault => fault = .trap) (env.collectProtocolFee t fee) := by
  unfold Env.collectProtocolFee
  split
  · exact payOut_failsWith _ _ _
  · exact .ret _

omit [DecidableEq Address] in
theorem decayStaleEma_failsWith (env : Env contract) (fs : FeeState) :
    FailsWith (fun fault => fault = .trap) (fs.decayStaleEma env) := by
  unfold FeeState.decayStaleEma
  exact .bind (.orTrap fun _ => rfl) fun _ _ => .ret _

/-- The balance a payout leaves covers what the reserve keeps. -/
theorem kept_le_of_payOut {t paid : Token Address} {dst : Address} {reserve amount : ℤ}
    (hnonneg : 0 ≤ amount) (hbacked : reserve ≤ t.balance contract)
    (hpay : payOut t contract dst amount = .ok paid) :
    reserve - amount ≤ paid.balance contract := by
  have hpaid := sub_max_le_balance_of_payOut hpay
  rw [max_eq_left hnonneg] at hpaid
  omega

omit [DecidableEq Address] in
theorem inferInput_failsWith {P : Fault PairError → Prop} {paid : Token Address}
    {reserve amountOut : ℤ} (hcovered : amountOut < reserve)
    (hkept : reserve - amountOut ≤ paid.balance contract) :
    FailsWith P (inferInput (paid.balance contract) reserve amountOut) := by
  have hbound := paid.bounded contract
  have hrange : 0 ≤ reserve - amountOut ∧ reserve - amountOut ≤ i128.max := by omega
  unfold inferInput
  refine .bind (.orTrap fun hnone => ?_) fun kept hkept' => ?_
  · exact absurd (fits_of_le hrange.1 le_rfl hrange.2) (not_fits_of_checked hnone)
  · obtain ⟨-, rfl⟩ := Word.checkedSub_eq_some.mp (orTrap_eq_ok.mp hkept')
    refine .bind (.orTrap fun hnone => ?_) fun _ _ => .ret _
    exact absurd (sub_fits ⟨paid.nonneg contract, hbound⟩ hrange) (not_fits_of_checked hnone)

omit [DecidableEq Address] in
theorem input_le {reserve amountOut : ℤ} (hcovered : amountOut < reserve) (paid : Token Address) :
    inputOf contract paid reserve amountOut ≤ paid.balance contract :=
  max_le (by omega) (paid.nonneg contract)

theorem input_pos {tA tB paidA paidB : Token Address} {dst : Address}
    {reserveA reserveB amountAOut amountBOut : ℤ} (hnonnegA : 0 ≤ amountAOut)
    (hnonnegB : 0 ≤ amountBOut)
    (hfunded : reserveA < tA.balance contract ∨ reserveB < tB.balance contract)
    (hpaidA : payOut tA contract dst amountAOut = .ok paidA)
    (hpaidB : payOut tB contract dst amountBOut = .ok paidB) :
    0 < inputOf contract paidA reserveA amountAOut ∨ 0 < inputOf contract paidB reserveB amountBOut := by
  have hleftA := sub_max_le_balance_of_payOut hpaidA
  have hleftB := sub_max_le_balance_of_payOut hpaidB
  unfold inputOf
  omega

omit [DecidableEq Address] in
theorem feeAdjusted_fits {balance amountIn v : ℤ} {feeBps : ℕ}
    (hadjust : feeAdjusted balance amountIn feeBps = .ok v) :
    (Fits (balance * bpsDenominator) ∧ Fits (feeScaled balance amountIn feeBps)) ∧
      v = feeScaled balance amountIn feeBps := by
  simp only [feeAdjusted, bind_eq_ok, okOr_eq_ok, orTrap_eq_ok, Word.checkedMul_eq_some,
    Word.checkedSub_eq_some] at hadjust
  obtain ⟨_, ⟨hscaled, rfl⟩, _, ⟨-, rfl⟩, hcharged, rfl⟩ := hadjust
  exact ⟨⟨hscaled, hcharged⟩, rfl⟩

/-- **How a swap fails.** -/
theorem swapInner_failsWith {P : Fault PairError → Prop} {env : Env contract} {w : World Address}
    {amountAOut amountBOut : ℤ} {dst : Address} {before : PairStorage Address} {stored : FeeState}
    (hswap : FundedSwap w contract amountAOut amountBOut before stored)
    (hfaults : SwapFaults P env w amountAOut amountBOut dst before stored) :
    FailsWith P (swapInner env w amountAOut amountBOut dst) := by
  obtain ⟨hnonnegA, hnonnegB⟩ := hswap.nonneg
  obtain ⟨hcoveredA, hcoveredB⟩ := hswap.covered
  have hrequested := hswap.requested
  have hfunded := hswap.funded
  have hboundA := w.tokenA.bounded contract
  have hboundB := w.tokenB.bounded contract
  have hbackedA := hswap.backedA
  have hbackedB := hswap.backedB
  unfold swapInner
  -- the request
  refine .bind (.failIf fun hnone => absurd hnone (by omega)) fun _ _ => ?_
  refine .bind (by simp [World.getPairState, hswap.pairState, okOr, FailsWith]) fun pair hpair => ?_
  obtain rfl : before = pair :=
    Option.some.inj (hswap.pairState.symm.trans (World.getPairState_eq_ok.mp hpair))
  refine .bind (by simp [World.getFeeState, hswap.feeState, okOr, FailsWith]) fun fs hfs => ?_
  obtain rfl : stored = fs :=
    Option.some.inj (hswap.feeState.symm.trans (World.getFeeState_eq_ok.mp hfs))
  refine .bind (.failIf fun hshort => absurd hshort (by omega)) fun _ _ => ?_
  refine .checked (fun hover => absurd (fits_of_le (by omega) (by omega) hboundA) hover) fun _ => ?_
  refine .checked (fun hover => absurd (fits_of_le (by omega) (by omega) hboundB) hover) fun _ => ?_
  refine .bind (.failIf hfaults.dust) fun _ _ => ?_
  -- the fee and the payouts
  refine .bind (failsWith_trap_of (decayStaleEma_failsWith env stored) hfaults.stamp) ?_
  intro decayed hdecay
  refine .bind (failsWith_trap_of (payOut_failsWith _ _ _) hfaults.payA) fun paidA hpaidA => ?_
  refine .bind (failsWith_trap_of (payOut_failsWith _ _ _) hfaults.payB) fun paidB hpaidB => ?_
  have hlate := hfaults.late decayed paidA paidB hdecay hpaidA hpaidB
  have hkeptA := kept_le_of_payOut hnonnegA hbackedA hpaidA
  have hkeptB := kept_le_of_payOut hnonnegB hbackedB hpaidB
  -- the inputs
  refine .bind (inferInput_failsWith hcoveredA hkeptA) fun inA hinA => ?_
  refine .bind (inferInput_failsWith hcoveredB hkeptB) fun inB hinB => ?_
  obtain rfl : inA = inputOf contract paidA before.reserveA amountAOut := inferInput_ok hinA
  obtain rfl : inB = inputOf contract paidB before.reserveB amountBOut := inferInput_ok hinB
  have hreceived := input_pos hnonnegA hnonnegB hfunded hpaidA hpaidB
  refine .bind (.failIf fun hnone => absurd hnone (by omega)) fun _ _ => ?_
  -- the product check
  refine .bind (feeAdjusted_failsWith hlate.fee (le_max_right _ _)
    (input_le hcoveredA paidA) fun hnone => hlate.overflow fun hfits => hnone hfits.sideA) ?_
  intro adjA hadjA
  refine .bind (feeAdjusted_failsWith hlate.fee (le_max_right _ _)
    (input_le hcoveredB paidB) fun hnone => hlate.overflow fun hfits => hnone hfits.sideB) ?_
  intro adjB hadjB
  obtain ⟨hfitsA, rfl⟩ := feeAdjusted_fits hadjA
  obtain ⟨hfitsB, rfl⟩ := feeAdjusted_fits hadjB
  refine .checked (fun hover => hlate.overflow fun hfits => hover hfits.product) fun hproduct => ?_
  refine .checked (fun hover => hlate.overflow fun hfits => hover hfits.scaled) fun hscaled => ?_
  refine .checked (fun hover => hlate.overflow fun hfits => hover hfits.after) fun hafter => ?_
  have hfits : SwapFits before (env.effectiveFeeBps decayed.computeFeeBps) (paidA.balance contract)
      (paidB.balance contract) (inputOf contract paidA before.reserveA amountAOut)
      (inputOf contract paidB before.reserveB amountBOut) :=
    ⟨hfitsA, hfitsB, hproduct, hscaled, hafter⟩
  refine .bind (.failIf (hlate.invalidK hfits)) fun _ _ => ?_
  -- the protocol fee and the new reserves
  refine .bind (failsWith_trap_of (collectProtocolFee_failsWith _ _ _) (hlate.collectA hfits)) ?_
  intro tokenA _
  refine .bind (failsWith_trap_of (collectProtocolFee_failsWith _ _ _) (hlate.collectB hfits)) ?_
  intro tokenB _
  refine .checked (fun hover => hlate.settle hfits fun h => hover h.1) fun _ => ?_
  refine .checked (fun hover => hlate.settle hfits fun h => hover h.2.1) fun _ => ?_
  refine .checked (fun hover => hlate.settle hfits fun h => hover h.2.2) fun _ => ?_
  exact .bind ((trackVolatility_failsWith _ _ _ _ _ _).mono fun _ h => h.elim) fun _ _ => .ret _

end CoralSwap
