import CoralSwap.Lib.Supply
import CoralSwap.Proof.LargePools

/-!
# Swaps that go through

A quoted and paid swap is refused for the dust floor, for a clock or a balance that overflows, or for a
product that does not fit, and for nothing else. A pair whose scaled balances have room for their product,
and whose tokens have a supply that fits, refuses it for none of these.
-/

namespace CoralSwap

open Host Host.Call

variable {Address : Type} [DecidableEq Address] {contract : Address}

/-- The trade leaves both sides above the dust floor, and its scaled product fits. -/
structure TradeFits (reserveIn reserveOut amountIn amountOut : ℤ) : Prop where
  floorIn : minimumReserve ≤ reserveIn
  floorOut : minimumReserve ≤ reserveOut - amountOut
  room : (reserveIn + amountIn) * reserveOut * 100000000 ≤ i128.max

omit [DecidableEq Address] in
theorem feeScaled_bounds {balance amountIn held : ℤ} {feeBps : ℕ} (hfee : (feeBps : ℤ) ≤ bpsDenominator)
    (hin : 0 ≤ amountIn ∧ amountIn ≤ balance) (hheld : balance ≤ held)
    (hbound : held * bpsDenominator ≤ i128.max) :
    (0 ≤ feeScaled balance amountIn feeBps ∧ feeScaled balance amountIn feeBps ≤ held * bpsDenominator) ∧
      Fits (balance * bpsDenominator) ∧ Fits (feeScaled balance amountIn feeBps) := by
  have hscaled : balance * bpsDenominator ≤ held * bpsDenominator :=
    mul_le_mul_of_nonneg_right hheld (by decide)
  have hcharge : 0 ≤ amountIn * feeBps := mul_nonneg hin.1 (Int.natCast_nonneg _)
  have hwithin : amountIn * feeBps ≤ balance * bpsDenominator :=
    mul_le_mul hin.2 hfee (Int.natCast_nonneg _) (hin.1.trans hin.2)
  have hnonneg : 0 ≤ feeScaled balance amountIn feeBps := sub_nonneg.mpr hwithin
  have hle : feeScaled balance amountIn feeBps ≤ held * bpsDenominator := (sub_le_self _ hcharge).trans hscaled
  exact ⟨⟨hnonneg, hle⟩, fits_of_le (hcharge.trans hwithin) hscaled hbound, fits_of_le hnonneg hle hbound⟩

omit [DecidableEq Address] in
/-- One scaled side is within a scaled product that fits. -/
theorem scaled_le_of_room {held other : ℤ} (hpos : 0 < held) (hother : 0 < other)
    (hroom : held * other * 100000000 ≤ i128.max) : held * bpsDenominator ≤ i128.max :=
  calc
    held * bpsDenominator ≤ held * 100000000 := mul_le_mul_of_nonneg_left (by decide) hpos.le
    _ ≤ held * other * 100000000 :=
      mul_le_mul_of_nonneg_right (le_mul_of_one_le_right hpos.le hother) (by decide)
    _ ≤ i128.max := hroom

omit [DecidableEq Address] in
/-- Whatever a swap multiplies is at most the scaled product of what the pair held before it paid out. -/
theorem swapFits_of_room {before : PairStorage Address} {feeBps : ℕ}
    {balanceA balanceB inA inB heldA heldB : ℤ} (hfee : (feeBps : ℤ) ≤ bpsDenominator)
    (hinA : 0 ≤ inA ∧ inA ≤ balanceA) (hinB : 0 ≤ inB ∧ inB ≤ balanceB)
    (hheldA : balanceA ≤ heldA) (hheldB : balanceB ≤ heldB)
    (hreserveA : 0 < before.reserveA ∧ before.reserveA ≤ heldA)
    (hreserveB : 0 < before.reserveB ∧ before.reserveB ≤ heldB)
    (hroom : heldA * heldB * 100000000 ≤ i128.max) :
    SwapFits before feeBps balanceA balanceB inA inB ∧ balanceA * balanceB ≤ i128.max := by
  have hposA : 0 < heldA := hreserveA.1.trans_le hreserveA.2
  have hposB : 0 < heldB := hreserveB.1.trans_le hreserveB.2
  have hroom' : heldB * heldA * 100000000 ≤ i128.max := by rwa [mul_comm heldB]
  obtain ⟨⟨hnonnegA, hleA⟩, hfitsA⟩ := feeScaled_bounds hfee hinA hheldA (scaled_le_of_room hposA hposB hroom)
  obtain ⟨⟨hnonnegB, hleB⟩, hfitsB⟩ := feeScaled_bounds hfee hinB hheldB (scaled_le_of_room hposB hposA hroom')
  have hreserves : before.reserveA * before.reserveB ≤ heldA * heldB :=
    mul_le_mul hreserveA.2 hreserveB.2 hreserveB.1.le hposA.le
  have hproduct : 0 < before.reserveA * before.reserveB := mul_pos hreserveA.1 hreserveB.1
  have hheld : heldA * heldB ≤ i128.max :=
    (le_mul_of_one_le_right (mul_pos hposA hposB).le (by decide)).trans hroom
  have hbalanceB : 0 ≤ balanceB := hinB.1.trans hinB.2
  refine ⟨⟨hfitsA, hfitsB, fits_of_le hproduct.le hreserves hheld, ?_, ?_⟩, ?_⟩
  · exact fits_of_le (mul_nonneg hproduct.le (by decide)) (mul_le_mul_of_nonneg_right hreserves (by decide)) hroom
  · refine fits_of_le (mul_nonneg hnonnegA hnonnegB) ?_ hroom
    calc
      feeScaled balanceA inA feeBps * feeScaled balanceB inB feeBps ≤
          (heldA * bpsDenominator) * (heldB * bpsDenominator) :=
        mul_le_mul hleA hleB hnonnegB (mul_nonneg hposA.le (by decide))
      _ = heldA * heldB * 100000000 := by
        unfold bpsDenominator
        ring
  · exact (mul_le_mul hheldA hheldB hbalanceB hposA.le).trans hheld

section Swap

variable {env : Env contract} {w : World Address} {state : PairStorage Address} {fs : FeeState}
variable {dst : Address} {isA : Bool} {amountIn amountOut : ℤ} {feeBps : ℕ}

omit [DecidableEq Address] in
theorem not_balanceOverflows (hsupplied : ∀ isA, (w.token isA).Supplied) : ¬BalanceOverflows contract w := by
  rintro ⟨side, who, hne, hover⟩
  have htogether := (hsupplied side).add_balance_le hne
  omega

theorem balance_le_of_payOut {t paid : Token Address} {amount : ℤ}
    (hpay : payOut t contract dst amount = .ok paid) : paid.balance contract ≤ t.balance contract := by
  rw [balance_of_payOut hpay, heldAfter]
  split_ifs <;> omega

omit [DecidableEq Address] in
/-- What the pair holds once it is paid has the room the trade asks for. -/
theorem QuotedInput.room (hinput : QuotedInput contract w state fs isA amountIn amountOut feeBps)
    (hfits : TradeFits (state.reserve isA) (state.reserve (!isA)) amountIn amountOut) :
    w.tokenA.balance contract * w.tokenB.balance contract * 100000000 ≤ i128.max := by
  have hroom := hfits.room
  rw [← hinput.balanceIn, ← hinput.balanceOut] at hroom
  cases isA
  · rwa [mul_comm (w.tokenA.balance contract)]
  · exact hroom

/-- **Nothing refuses** a quoted swap that fits. -/
theorem swapFaults_of_room (hinput : QuotedInput contract w state fs isA amountIn amountOut feeBps)
    (hfits : TradeFits (state.reserve isA) (state.reserve (!isA)) amountIn amountOut)
    (hstamp : ¬StampOverflows fs) (hsupplied : ∀ isA, (w.token isA).Supplied)
    (hcharged : ∀ decayed, fs.decayStaleEma env = .ok decayed →
      env.effectiveFeeBps decayed.computeFeeBps ≤ feeBps) :
    SwapFaults (fun _ => False) env w (if isA then 0 else amountOut) (if isA then amountOut else 0) dst
      state fs := by
  have hnot : ∀ fault, QuoteRefusal contract fs w fault → fault = .error .dustAmount ∨ fault = .error .overflow := by
    rintro fault (hdust | hoverflow | ⟨-, hclock | hbalance⟩)
    · exact Or.inl hdust
    · exact Or.inr hoverflow
    · exact absurd hclock hstamp
    · exact absurd hbalance (not_balanceOverflows hsupplied)
  have htrap : ¬QuoteRefusal contract fs w .trap := fun hrefused => by simpa using hnot _ hrefused
  have hrefused : SwapFaults (QuoteRefusal contract fs w) env w (if isA then 0 else amountOut)
      (if isA then amountOut else 0) dst state fs := swapFaults_of_quoted hinput hcharged
  have hfunded := hinput.funded
  obtain ⟨hcoveredA, hcoveredB⟩ := hfunded.covered
  obtain ⟨hnonnegA, hnonnegB⟩ := hfunded.nonneg
  refine ⟨hinput.above_floor hfits.floorIn hfits.floorOut, fun h => htrap (hrefused.stamp h),
    fun h => htrap (hrefused.payA h), fun h => htrap (hrefused.payB h), ?_⟩
  intro decayed paidA paidB hdecay hpayA hpayB
  have hlate := hrefused.late decayed paidA paidB hdecay hpayA hpayB
  have hinA : 0 ≤ inputOf contract paidA state.reserveA (if isA then 0 else amountOut) ∧
      inputOf contract paidA state.reserveA (if isA then 0 else amountOut) ≤ paidA.balance contract :=
    ⟨le_max_right _ _, input_le hcoveredA paidA⟩
  have hinB : 0 ≤ inputOf contract paidB state.reserveB (if isA then amountOut else 0) ∧
      inputOf contract paidB state.reserveB (if isA then amountOut else 0) ≤ paidB.balance contract :=
    ⟨le_max_right _ _, input_le hcoveredB paidB⟩
  obtain ⟨hswapFits, hproduct⟩ := swapFits_of_room hlate.fee hinA hinB (balance_le_of_payOut hpayA)
    (balance_le_of_payOut hpayB) ⟨hnonnegA.trans_lt hcoveredA, hfunded.backedA⟩
    ⟨hnonnegB.trans_lt hcoveredB, hfunded.backedB⟩ (hinput.room hfits)
  refine ⟨hlate.fee, fun hnone => hnone hswapFits, fun _ hshort => ?_, fun _ hcollect => ?_,
    fun _ hcollect => ?_, fun _ hnone => hnone ?_⟩
  · simpa using hnot _ (hlate.invalidK hswapFits hshort)
  · exact htrap (hlate.collectA hswapFits hcollect)
  · exact htrap (hlate.collectB hswapFits hcollect)
  · exact settled_fits hlate.fee hinA hinB (paidA.bounded contract) (paidB.bounded contract) hproduct

/-- **A quoted swap that fits goes through.** -/
theorem exists_swap_of_room (dst : Address) (hunlocked : w.pair.locked = false) (hunfrozen : w.pair.frozen = false)
    (hinput : QuotedInput contract w state fs isA amountIn amountOut feeBps)
    (hfits : TradeFits (state.reserve isA) (state.reserve (!isA)) amountIn amountOut)
    (hstamp : ¬StampOverflows fs) (hsupplied : ∀ isA, (w.token isA).Supplied)
    (hcharged : ∀ decayed, fs.decayStaleEma env = .ok decayed →
      env.effectiveFeeBps decayed.computeFeeBps ≤ feeBps) :
    ∃ result, swapFor env w isA amountOut dst = .ok result := by
  have hheld : QuotedInput contract { w with pair := { w.pair with locked := true } } state fs isA amountIn
      amountOut feeBps :=
    ⟨hinput.pairState, hinput.feeState, hinput.quoted, hinput.balanceIn, hinput.balanceOut⟩
  have hinner : FailsWith (fun _ => False) (swapInner env { w with pair := { w.pair with locked := true } }
      (if isA then 0 else amountOut) (if isA then amountOut else 0) dst) :=
    swapInner_failsWith hheld.funded (swapFaults_of_room hheld hfits hstamp hsupplied hcharged)
  have hfails : FailsWith (fun _ => False) (swapFor env w isA amountOut dst) := by
    have hswap := swap_failsWith hunlocked hunfrozen hinner
    cases isA <;> exact hswap
  cases hresult : swapFor env w isA amountOut dst with
  | error fault => exact (hfails fault hresult).elim
  | ok result => exact ⟨result, rfl⟩

end Swap

end CoralSwap
