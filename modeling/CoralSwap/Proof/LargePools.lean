import CoralSwap.Proof.QuotedSwaps

/-!
# Pools too large to trade

Deposits bound the product of the reserves, the product check bounds the product of the scaled
balances, 10^8 times as much. Between the two a pool can be funded and its trades overflow.
-/

namespace CoralSwap

open Host Host.Call

variable {Address : Type} [DecidableEq Address] {contract : Address}

/-! ### The two sides of the product check -/

/-- The scaled balance of the side that is paid, less the fee at `chargedBps`. -/
def scaledInput (reserveIn amountIn : ℤ) (chargedBps : ℕ) : ℤ :=
  reserveIn * bpsDenominator + amountIn * (bpsDenominator - chargedBps)

/-- The balance of the side that pays; a payout to the pair itself stays in it. -/
def keptOutput (contract dst : Address) (reserveOut amountOut : ℤ) : ℤ :=
  if dst = contract then reserveOut else reserveOut - amountOut

/-- The scaled balance of the side that pays, less the fee on a payout that came back. -/
def scaledOutput (contract dst : Address) (reserveOut amountOut : ℤ) (chargedBps : ℕ) : ℤ :=
  if dst = contract then reserveOut * bpsDenominator - amountOut * chargedBps
  else (reserveOut - amountOut) * bpsDenominator

section Sides

variable {reserveIn reserveOut amountIn amountOut : ℤ} {chargedBps : ℕ} {dst : Address}

/-- A trade of at most the input reserve that leaves the output reserve above the dust floor, at less
than the whole input. -/
structure ModestTrade (reserveIn reserveOut amountIn amountOut : ℤ) (chargedBps : ℕ) : Prop where
  floorIn : minimumReserve ≤ reserveIn
  amountIn_nonneg : 0 ≤ amountIn
  amountIn_le : amountIn ≤ reserveIn
  amountOut_pos : 0 < amountOut
  floorOut : minimumReserve ≤ reserveOut - amountOut
  charged : (chargedBps : ℤ) < bpsDenominator

namespace ModestTrade

omit [DecidableEq Address] in
theorem balanceIn_nonneg (htrade : ModestTrade reserveIn reserveOut amountIn amountOut chargedBps) :
    0 ≤ reserveIn + amountIn := by
  obtain ⟨hfloorIn, hin, -, -, -, -⟩ := htrade
  unfold minimumReserve at hfloorIn
  omega

theorem keptOutput_nonneg (htrade : ModestTrade reserveIn reserveOut amountIn amountOut chargedBps) :
    0 ≤ keptOutput contract dst reserveOut amountOut := by
  obtain ⟨-, -, -, hout, hfloorOut, -⟩ := htrade
  unfold keptOutput minimumReserve at *
  split_ifs <;> omega

omit [DecidableEq Address] in
theorem scaledInput_bounds (htrade : ModestTrade reserveIn reserveOut amountIn amountOut chargedBps) :
    bpsDenominator ≤ scaledInput reserveIn amountIn chargedBps ∧
      reserveIn + amountIn ≤ scaledInput reserveIn amountIn chargedBps ∧
      (reserveIn + amountIn) * bpsDenominator ≤
        2 * scaledInput reserveIn amountIn chargedBps := by
  obtain ⟨hfloorIn, hin, hle, -, -, hcharged⟩ := htrade
  have hfactor : 1 ≤ bpsDenominator - (chargedBps : ℤ) := by omega
  have hfee : amountIn ≤ amountIn * (bpsDenominator - chargedBps) := le_mul_of_one_le_right hin hfactor
  unfold scaledInput minimumReserve bpsDenominator at *
  exact ⟨by omega, by omega, by omega⟩

theorem scaledOutput_bounds (contract dst : Address)
    (htrade : ModestTrade reserveIn reserveOut amountIn amountOut chargedBps) :
    bpsDenominator ≤ scaledOutput contract dst reserveOut amountOut chargedBps ∧
      keptOutput contract dst reserveOut amountOut ≤
        scaledOutput contract dst reserveOut amountOut chargedBps := by
  obtain ⟨-, -, -, hout, hfloorOut, hcharged⟩ := htrade
  have hfee : amountOut * chargedBps ≤ amountOut * (bpsDenominator - 1) :=
    mul_le_mul_of_nonneg_left (by omega) hout.le
  unfold scaledOutput keptOutput minimumReserve bpsDenominator at *
  split_ifs <;> exact ⟨by omega, by omega⟩

/-- Whatever a modest trade multiplies is at most the product of the scaled balances. -/
theorem fits (htrade : ModestTrade reserveIn reserveOut amountIn amountOut chargedBps)
    (hafter : scaledInput reserveIn amountIn chargedBps *
      scaledOutput contract dst reserveOut amountOut chargedBps ≤ i128.max) :
    (Fits ((reserveIn + amountIn) * bpsDenominator) ∧
        Fits (scaledInput reserveIn amountIn chargedBps)) ∧
      (Fits (keptOutput contract dst reserveOut amountOut * bpsDenominator) ∧
        Fits (scaledOutput contract dst reserveOut amountOut chargedBps)) ∧
      (reserveIn + amountIn) * keptOutput contract dst reserveOut amountOut ≤ i128.max := by
  have hnonnegIn : 0 ≤ reserveIn + amountIn := htrade.balanceIn_nonneg
  have hnonnegOut : 0 ≤ keptOutput contract dst reserveOut amountOut := htrade.keptOutput_nonneg
  obtain ⟨hlargeIn, hleIn, hscaledIn⟩ := htrade.scaledInput_bounds
  obtain ⟨hlargeOut, hleOut⟩ := htrade.scaledOutput_bounds contract dst
  generalize scaledInput reserveIn amountIn chargedBps = adjIn at *
  generalize scaledOutput contract dst reserveOut amountOut chargedBps = adjOut at *
  generalize keptOutput contract dst reserveOut amountOut = kept at *
  have hbps : (2 : ℤ) ≤ bpsDenominator := by decide
  have hadjIn : 0 ≤ adjIn := hnonnegIn.trans hleIn
  have hadjOut : 0 ≤ adjOut := hnonnegOut.trans hleOut
  refine ⟨⟨fits_of_le (by positivity) ?_ hafter, fits_of_le hadjIn ?_ hafter⟩,
    ⟨fits_of_le (by positivity) ?_ hafter, fits_of_le hadjOut ?_ hafter⟩, le_trans ?_ hafter⟩
  · calc
      (reserveIn + amountIn) * bpsDenominator ≤ 2 * adjIn := hscaledIn
      _ ≤ adjOut * adjIn := mul_le_mul_of_nonneg_right (hbps.trans hlargeOut) hadjIn
      _ = adjIn * adjOut := mul_comm _ _
  · exact le_mul_of_one_le_right hadjIn (by omega)
  · calc
      kept * bpsDenominator ≤ adjOut * adjIn := mul_le_mul hleOut hlargeIn (by decide) hadjOut
      _ = adjIn * adjOut := mul_comm _ _
  · exact le_mul_of_one_le_left hadjOut (by omega)
  · exact mul_le_mul hleIn hleOut hnonnegOut hadjIn

end ModestTrade

theorem outputSide_eq (chargedBps : ℕ) {t paid : Token Address} (hout : 0 < amountOut)
    (hbalance : t.balance contract = reserveOut)
    (hpay : payOut t contract dst amountOut = .ok paid) :
    paid.balance contract = keptOutput contract dst reserveOut amountOut ∧
      feeScaled (paid.balance contract) (inputOf contract paid reserveOut amountOut) chargedBps =
        scaledOutput contract dst reserveOut amountOut chargedBps := by
  obtain ⟨-, htransfer⟩ | ⟨hnone, -⟩ := payOut_ok hpay
  swap
  · omega
  unfold inputOf feeScaled keptOutput scaledOutput
  by_cases hdst : dst = contract
  · subst hdst
    rw [Token.balance_self_of_transfer htransfer, hbalance, sub_sub_cancel, max_eq_left hout.le,
      if_pos rfl, if_pos rfl]
    exact ⟨rfl, rfl⟩
  · rw [Token.balance_src_of_transfer htransfer (Ne.symm hdst), hbalance, sub_self, max_self, zero_mul,
      sub_zero, if_neg hdst, if_neg hdst]
    exact ⟨rfl, rfl⟩

theorem inputSide_fits {t paid : Token Address} (hin : 0 ≤ amountIn)
    (hbalance : t.balance contract = reserveIn + amountIn)
    (hpay : payOut t contract dst 0 = .ok paid)
    (hfits : Fits ((reserveIn + amountIn) * bpsDenominator) ∧
      Fits (scaledInput reserveIn amountIn chargedBps)) :
    Fits (paid.balance contract * bpsDenominator) ∧
      Fits (feeScaled (paid.balance contract) (inputOf contract paid reserveIn 0) chargedBps) := by
  rw [feeScaled_inputSide hin hbalance hpay, (inputSide hin hbalance hpay).1]
  exact hfits

end Sides

/-! ### Everything a quoted swap multiplies -/

section Quoted

variable {env : Env contract} {w : World Address} {state : PairStorage Address} {fs : FeeState}
variable {dst : Address} {isA : Bool} {amountIn amountOut : ℤ} {feeBps chargedBps : ℕ}
variable {paidA paidB : Token Address}

omit [DecidableEq Address] in
theorem PairStorage.reserve_mul_reserve_not (state : PairStorage Address) (isA : Bool) :
    state.reserve isA * state.reserve (!isA) = state.reserveA * state.reserveB := by
  cases isA
  · exact mul_comm _ _
  · rfl

theorem QuotedInput.after_eq (chargedBps : ℕ)
    (hinput : QuotedInput contract w state fs isA amountIn amountOut feeBps)
    (hpayA : payOut w.tokenA contract dst (if isA then 0 else amountOut) = .ok paidA)
    (hpayB : payOut w.tokenB contract dst (if isA then amountOut else 0) = .ok paidB) :
    feeScaled (paidA.balance contract)
          (inputOf contract paidA state.reserveA (if isA then 0 else amountOut)) chargedBps *
        feeScaled (paidB.balance contract)
          (inputOf contract paidB state.reserveB (if isA then amountOut else 0)) chargedBps =
      scaledInput (state.reserve isA) amountIn chargedBps *
        scaledOutput contract dst (state.reserve (!isA)) amountOut chargedBps := by
  obtain ⟨-, -, hquoted, hbalanceIn, hbalanceOut⟩ := hinput
  cases isA
  · simp only [PairStorage.reserve, World.token, Bool.false_eq_true, Bool.not_false, if_true,
      if_false] at *
    rw [feeScaled_inputSide hquoted.amountIn_pos.le hbalanceIn hpayB,
      (outputSide_eq _ hquoted.amountOut_pos hbalanceOut hpayA).2, mul_comm, scaledInput]
  · simp only [PairStorage.reserve, World.token, Bool.not_true, Bool.false_eq_true, if_true,
      if_false] at *
    rw [feeScaled_inputSide hquoted.amountIn_pos.le hbalanceIn hpayA,
      (outputSide_eq _ hquoted.amountOut_pos hbalanceOut hpayB).2, scaledInput]

/-- Where the product of the scaled balances fits, so does everything else a modest trade multiplies,
the new reserves included. -/
theorem QuotedInput.swapFits
    (hinput : QuotedInput contract w state fs isA amountIn amountOut feeBps)
    (htrade : ModestTrade (state.reserve isA) (state.reserve (!isA)) amountIn amountOut chargedBps)
    (hcharged : chargedBps ≤ feeBps)
    (hafter : scaledInput (state.reserve isA) amountIn chargedBps *
      scaledOutput contract dst (state.reserve (!isA)) amountOut chargedBps ≤ i128.max)
    (hpayA : payOut w.tokenA contract dst (if isA then 0 else amountOut) = .ok paidA)
    (hpayB : payOut w.tokenB contract dst (if isA then amountOut else 0) = .ok paidB) :
    SwapFits state chargedBps (paidA.balance contract) (paidB.balance contract)
        (inputOf contract paidA state.reserveA (if isA then 0 else amountOut))
        (inputOf contract paidB state.reserveB (if isA then amountOut else 0)) ∧
      paidA.balance contract * paidB.balance contract ≤ i128.max := by
  have hafterEq := hinput.after_eq chargedBps hpayA hpayB
  have hproduct := hinput.product_le hcharged hpayA hpayB
  obtain ⟨hfitsIn, hfitsOut, hsettled⟩ := htrade.fits hafter
  obtain ⟨-, -, hquoted, hbalanceIn, hbalanceOut⟩ := hinput
  have hreserves : 0 ≤ state.reserveA * state.reserveB := by
    rw [← state.reserve_mul_reserve_not isA]
    exact mul_nonneg hquoted.reserveIn_pos.le (hquoted.amountOut_pos.trans hquoted.amountOut_lt).le
  rw [← hafterEq] at hafter
  have hscaled := fits_of_le (mul_nonneg hreserves (by decide)) hproduct hafter
  have hplain : Fits (state.reserveA * state.reserveB) :=
    fits_of_le hreserves (le_mul_of_one_le_right hreserves (by decide)) hscaled.2
  have hlast := fits_of_le ((mul_nonneg hreserves (by decide)).trans hproduct) le_rfl hafter
  cases isA
  · simp only [PairStorage.reserve, World.token, Bool.false_eq_true, Bool.not_false, if_true,
      if_false] at *
    obtain ⟨hbalance, hadjusted⟩ := outputSide_eq chargedBps hquoted.amountOut_pos
      hbalanceOut hpayA
    have hsideB := inputSide_fits hquoted.amountIn_pos.le hbalanceIn hpayB hfitsIn
    rw [← hbalance] at hfitsOut hsettled
    rw [← hadjusted] at hfitsOut
    refine ⟨⟨hfitsOut, hsideB, hplain, hscaled, hlast⟩, ?_⟩
    rwa [(inputSide hquoted.amountIn_pos.le hbalanceIn hpayB).1, mul_comm]
  · simp only [PairStorage.reserve, World.token, Bool.not_true, Bool.false_eq_true, if_true,
      if_false] at *
    obtain ⟨hbalance, hadjusted⟩ := outputSide_eq chargedBps hquoted.amountOut_pos
      hbalanceOut hpayB
    have hsideA := inputSide_fits hquoted.amountIn_pos.le hbalanceIn hpayA hfitsIn
    rw [← hbalance] at hfitsOut hsettled
    rw [← hadjusted] at hfitsOut
    refine ⟨⟨hsideA, hfitsOut, hplain, hscaled, hlast⟩, ?_⟩
    rwa [(inputSide hquoted.amountIn_pos.le hbalanceIn hpayA).1]

omit [DecidableEq Address] in
theorem settled_fits {balanceA balanceB inA inB : ℤ} (hfee : (chargedBps : ℤ) ≤ bpsDenominator)
    (hinA : 0 ≤ inA ∧ inA ≤ balanceA) (hinB : 0 ≤ inB ∧ inB ≤ balanceB)
    (hboundA : balanceA ≤ i128.max) (hboundB : balanceB ≤ i128.max)
    (hproduct : balanceA * balanceB ≤ i128.max) :
    Fits (balanceA - env.protocolFee inA chargedBps) ∧
      Fits (balanceB - env.protocolFee inB chargedBps) ∧
      Fits ((balanceA - env.protocolFee inA chargedBps) *
        (balanceB - env.protocolFee inB chargedBps)) := by
  have hfeeA := protocolFee_nonneg env chargedBps hinA.1
  have hfeeB := protocolFee_nonneg env chargedBps hinB.1
  have hkeptA := sub_nonneg.mpr ((protocolFee_le env hinA.1 hfee).trans hinA.2)
  have hkeptB := sub_nonneg.mpr ((protocolFee_le env hinB.1 hfee).trans hinB.2)
  have hleA := sub_le_self balanceA hfeeA
  have hleB := sub_le_self balanceB hfeeB
  refine ⟨fits_of_le hkeptA hleA hboundA, fits_of_le hkeptB hleB hboundB,
    fits_of_le (mul_nonneg hkeptA hkeptB) ?_ hproduct⟩
  exact mul_le_mul hleA hleB hkeptB (hinA.1.trans hinA.2)

theorem movable_of_payOut {t paid : Token Address} (hout : 0 < amountOut)
    (hpay : payOut t contract dst amountOut = .ok paid) : t.Movable contract dst amountOut := by
  rcases payOut_ok hpay with ⟨-, htransfer⟩ | ⟨hnone, -⟩
  · exact (Token.transfer_eq_some htransfer).1
  · omega

/-- A payout that is either nothing or movable goes through. -/
theorem payOut_of_movable {t : Token Address} {amount : ℤ}
    (hmovable : 0 < amount → t.Movable contract dst amount) :
    ∃ paid, payOut t contract dst amount = .ok paid := by
  unfold payOut
  split
  · rename_i hpositive
    exact ⟨_, by rw [Token.transfer, dif_pos (hmovable hpositive), orTrap]⟩
  · exact ⟨t, rfl⟩

theorem after_le_of_swapInner {amountAOut amountBOut : ℤ} {before : PairStorage Address}
    {decayed : FeeState} {result : World Address × SwapEvent}
    (hpair : w.pair.pairState = some before) (hfs : w.pair.feeState = some fs)
    (hdecay : fs.decayStaleEma env = .ok decayed)
    (hpayA : payOut w.tokenA contract dst amountAOut = .ok paidA)
    (hpayB : payOut w.tokenB contract dst amountBOut = .ok paidB)
    (hswap : swapInner env w amountAOut amountBOut dst = .ok result) :
    feeScaled (paidA.balance contract) (inputOf contract paidA before.reserveA amountAOut)
          (env.effectiveFeeBps decayed.computeFeeBps) *
        feeScaled (paidB.balance contract) (inputOf contract paidB before.reserveB amountBOut)
          (env.effectiveFeeBps decayed.computeFeeBps) ≤ i128.max := by
  simp only [swapInner, bind_eq_ok, failIf_eq_ok, okOr_eq_ok, Word.checkedSub_eq_some,
    Word.checkedMul_eq_some, World.getPairState_eq_ok, World.getFeeState_eq_ok, hpair, hfs, hdecay,
    hpayA, hpayB, Option.some.injEq, Except.ok.injEq, exists_const, and_assoc, exists_and_left,
    exists_eq_left'] at hswap
  obtain ⟨-, -, -, -, -, -, -, inA, hinA, inB, hinB, -, adjA, hadjA, adjB, hadjB, -, -, -, -, -, hafter,
    -⟩ := hswap
  obtain ⟨-, rfl⟩ := feeAdjusted_ok hadjA
  obtain ⟨-, rfl⟩ := feeAdjusted_ok hadjB
  rw [inferInput_ok hinA, inferInput_ok hinB] at hafter
  exact hafter

omit [DecidableEq Address] in
theorem QuotedInput.modest (hinput : QuotedInput contract w state fs isA amountIn amountOut feeBps)
    (hcharged : chargedBps ≤ feeBps) (hfloorIn : minimumReserve ≤ state.reserve isA)
    (hle : amountIn ≤ state.reserve isA)
    (hfloorOut : minimumReserve ≤ state.reserve (!isA) - amountOut) :
    ModestTrade (state.reserve isA) (state.reserve (!isA)) amountIn amountOut chargedBps := by
  have hfee := hinput.quoted.fee_lt
  exact ⟨hfloorIn, hinput.quoted.amountIn_pos.le, hle, hinput.quoted.amountOut_pos, hfloorOut, by omega⟩

omit [DecidableEq Address] in
/-- The dust floor never refuses a trade that leaves the output reserve above it. -/
theorem QuotedInput.above_floor
    (hinput : QuotedInput contract w state fs isA amountIn amountOut feeBps)
    (hfloorIn : minimumReserve ≤ state.reserve isA)
    (hfloorOut : minimumReserve ≤ state.reserve (!isA) - amountOut) :
    ¬(state.reserveA - (if isA then 0 else amountOut) < minimumReserve ∨
      state.reserveB - (if isA then amountOut else 0) < minimumReserve) := by
  cases isA <;>
  · simp only [PairStorage.reserve, Bool.not_false, Bool.not_true, Bool.false_eq_true, if_true,
      if_false] at *
    omega

theorem movable_of_payOuts (hout : 0 < amountOut)
    (hpayA : payOut w.tokenA contract dst (if isA then 0 else amountOut) = .ok paidA)
    (hpayB : payOut w.tokenB contract dst (if isA then amountOut else 0) = .ok paidB) :
    (w.token (!isA)).Movable contract dst amountOut := by
  cases isA
  · exact movable_of_payOut hout hpayA
  · exact movable_of_payOut hout hpayB

theorem payOuts_of_movable (isA : Bool) (hmovable : (w.token (!isA)).Movable contract dst amountOut) :
    (∃ paid, payOut w.tokenA contract dst (if isA then 0 else amountOut) = .ok paid) ∧
      ∃ paid, payOut w.tokenB contract dst (if isA then amountOut else 0) = .ok paid := by
  cases isA
  · exact ⟨payOut_of_movable fun _ => hmovable, payOut_of_movable fun h => absurd h (lt_irrefl _)⟩
  · exact ⟨payOut_of_movable fun h => absurd h (lt_irrefl _), payOut_of_movable fun _ => hmovable⟩

/-- The product of the scaled balances at the rate this state is charged. -/
def AfterFits (contract dst : Address) (state : PairStorage Address) (isA : Bool)
    (amountIn amountOut : ℤ) (chargedBps : ℕ) : Prop :=
  scaledInput (state.reserve isA) amountIn chargedBps *
    scaledOutput contract dst (state.reserve (!isA)) amountOut chargedBps ≤ i128.max

theorem swapFaults_of_fits (hinput : QuotedInput contract w state fs isA amountIn amountOut feeBps)
    (hfloorIn : minimumReserve ≤ state.reserve isA) (hle : amountIn ≤ state.reserve isA)
    (hfloorOut : minimumReserve ≤ state.reserve (!isA) - amountOut)
    (hcharged : ∀ decayed, fs.decayStaleEma env = .ok decayed →
      env.effectiveFeeBps decayed.computeFeeBps ≤ feeBps)
    (hafter : ∀ decayed, fs.decayStaleEma env = .ok decayed →
      (w.token (!isA)).Movable contract dst amountOut → AfterFits contract dst state isA amountIn
        amountOut (env.effectiveFeeBps decayed.computeFeeBps)) :
    SwapFaults (fun fault => fault ≠ .error .overflow) env w (if isA then 0 else amountOut)
      (if isA then amountOut else 0) dst state fs := by
  refine ⟨fun _ => by simp, fun _ => by simp, fun _ => by simp, fun _ => by simp, ?_⟩
  intro decayed paidA paidB hdecay hpayA hpayB
  have hrate := hcharged decayed hdecay
  have htrade := hinput.modest hrate hfloorIn hle hfloorOut
  obtain ⟨hfits, hlast⟩ := hinput.swapFits htrade hrate
    (hafter decayed hdecay (movable_of_payOuts hinput.quoted.amountOut_pos hpayA hpayB)) hpayA hpayB
  obtain ⟨hcoveredA, hcoveredB⟩ := hinput.funded.covered
  have hfee := htrade.charged.le
  refine ⟨hfee, fun hnone => absurd hfits hnone, fun _ _ => by simp, fun _ _ => by simp,
    fun _ _ => by simp, fun _ hnone => absurd ?_ hnone⟩
  exact settled_fits hfee ⟨le_max_right _ _, input_le hcoveredA paidA⟩
    ⟨le_max_right _ _, input_le hcoveredB paidB⟩ (paidA.bounded contract) (paidB.bounded contract) hlast

theorem swapFaults_of_not_fits {decayed : FeeState}
    (hinput : QuotedInput contract w state fs isA amountIn amountOut feeBps)
    (hfloorIn : minimumReserve ≤ state.reserve isA)
    (hfloorOut : minimumReserve ≤ state.reserve (!isA) - amountOut)
    (hdecay : fs.decayStaleEma env = .ok decayed)
    (hcharged : env.effectiveFeeBps decayed.computeFeeBps ≤ feeBps)
    (hmovable : (w.token (!isA)).Movable contract dst amountOut)
    (hafter : ¬AfterFits contract dst state isA amountIn amountOut
      (env.effectiveFeeBps decayed.computeFeeBps)) :
    SwapFaults (fun fault => fault = .error .overflow) env w (if isA then 0 else amountOut)
      (if isA then amountOut else 0) dst state fs := by
  obtain ⟨⟨_, hpayA⟩, _, hpayB⟩ := payOuts_of_movable isA hmovable
  refine ⟨fun hdust => absurd hdust (hinput.above_floor hfloorIn hfloorOut),
    fun hnone => absurd hdecay (hnone _), fun hnone => absurd hpayA (hnone _),
    fun hnone => absurd hpayB (hnone _), ?_⟩
  intro decayed' paidA paidB hdecay' hpayA hpayB
  obtain rfl : decayed = decayed' := Except.ok.inj (hdecay.symm.trans hdecay')
  have hfee := hinput.quoted.fee_lt
  have hnot : ¬SwapFits state (env.effectiveFeeBps decayed.computeFeeBps) (paidA.balance contract)
      (paidB.balance contract) (inputOf contract paidA state.reserveA (if isA then 0 else amountOut))
      (inputOf contract paidB state.reserveB (if isA then amountOut else 0)) := by
    intro hfits
    refine hafter ?_
    unfold AfterFits
    rw [← hinput.after_eq _ hpayA hpayB]
    exact hfits.after.2
  exact ⟨by omega, fun _ => rfl, fun hfits => absurd hfits hnot, fun hfits => absurd hfits hnot,
    fun hfits => absurd hfits hnot, fun hfits => absurd hfits hnot⟩

/-- Under the lock, a swap fails as its body does. -/
theorem swap_error_iff {amountAOut amountBOut : ℤ} (hunlocked : w.pair.locked = false)
    (hunfrozen : w.pair.frozen = false) (fault : Fault PairError) :
    swap env w amountAOut amountBOut dst = .error fault ↔
      swapInner env { w with pair := { w.pair with locked := true } } amountAOut amountBOut dst =
        .error fault := by
  have hswap : swap env w amountAOut amountBOut dst =
      (fun result => (result.1.releaseLock, result.2)) <$>
        swapInner env { w with pair := { w.pair with locked := true } } amountAOut amountBOut dst := by
    simp only [swap, World.acquireLock, World.ensureNotFrozen, failIf, hunlocked, hunfrozen,
      Bool.false_eq_true, if_false]
    rfl
  rw [hswap]
  cases swapInner env { w with pair := { w.pair with locked := true } } amountAOut amountBOut dst with
  | error fault' => exact Iff.rfl
  | ok result => exact iff_of_false (fun h => by cases h) fun h => by cases h

theorem swapFor_error_iff {amount : ℤ} (hunlocked : w.pair.locked = false)
    (hunfrozen : w.pair.frozen = false) (fault : Fault PairError) :
    swapFor env w isA amount dst = .error fault ↔
      swapInner env { w with pair := { w.pair with locked := true } } (if isA then 0 else amount)
        (if isA then amount else 0) dst = .error fault := by
  cases isA <;> exact swap_error_iff hunlocked hunfrozen fault

end Quoted

/-- **Trading what was funded.** In an unfrozen pair that holds its reserves, take a quote for at most the
input reserve that leaves the dust floor. Sending the input and swapping for the output overflows
unless the product of the scaled balances fits. -/
theorem quoted_swap_overflows_iff {env : Env contract} {w sent : World Address}
    {state : PairStorage Address} {fs : FeeState} {isA isOverride : Bool} {user dst : Address}
    {amountIn amountOut : ℤ} {feeBps : ℕ} (hunlocked : w.pair.locked = false)
    (hunfrozen : w.pair.frozen = false) (hbalanced : Balanced contract w)
    (hstate : w.pair.pairState = some state) (hfs : w.pair.feeState = some fs)
    (hbaseline : (fs.baselineFeeBps : ℤ) ≤ u32.max)
    (hview : getEffectiveFeeBps env w = .ok (feeBps, isOverride))
    (hfloorIn : minimumReserve ≤ state.reserve isA) (hle : amountIn ≤ state.reserve isA)
    (hquote : quoteOutputAmount amountIn (state.reserve isA) (state.reserve (!isA)) feeBps =
      .ok amountOut)
    (hfloorOut : minimumReserve ≤ state.reserve (!isA) - amountOut)
    (hsent : External.exec contract w (.transfer isA user contract amountIn) = .ok sent) :
    swapFor env sent isA amountOut dst ≠ fail .overflow ↔
      ∀ chargedBps, chargedFeeBps env w = .ok chargedBps →
        (sent.token (!isA)).Movable contract dst amountOut →
        AfterFits contract dst state isA amountIn amountOut chargedBps := by
  obtain ⟨-, -, hpair⟩ := sentSide_ok hsent
  have hquoted := quoted_of_quoteOutputAmount hquote
  rw [← World.reserve_of_pairState isA hstate, ← World.reserve_of_pairState (!isA) hstate] at hquoted
  have hinput := quotedInput_of_sent hbalanced hstate hfs hquoted hsent
  have hcharged : ∀ decayed, fs.decayStaleEma env = .ok decayed →
      env.effectiveFeeBps decayed.computeFeeBps ≤ feeBps :=
    fun _ hdecay => effectiveFeeBps_le_of_view hbaseline hfs hview hdecay
  unfold fail
  rw [Ne, swapFor_error_iff (by rw [hpair, hunlocked]) (by rw [hpair, hunfrozen])]
  constructor
  · intro hswap chargedBps hrate hmovable
    obtain ⟨stored, decayed, hstored, hdecay, rfl⟩ := chargedFeeBps_ok.mp hrate
    obtain rfl : fs = stored := Option.some.inj (hfs.symm.trans hstored)
    by_contra hafter
    have hfails := swapInner_failsWith hinput.funded (swapFaults_of_not_fits hinput hfloorIn hfloorOut
      hdecay (hcharged decayed hdecay) (by cases isA <;> exact hmovable) hafter)
    cases hresult : swapInner env { sent with pair := { sent.pair with locked := true } }
        (if isA then 0 else amountOut) (if isA then amountOut else 0) dst with
    | error fault =>
        rw [hfails fault hresult] at hresult
        exact hswap hresult
    | ok result =>
        obtain ⟨⟨paidA, hpayA⟩, paidB, hpayB⟩ := payOuts_of_movable
          (w := { sent with pair := { sent.pair with locked := true } }) isA
          (by cases isA <;> exact hmovable)
        refine hafter ?_
        unfold AfterFits
        rw [← hinput.after_eq _ hpayA hpayB]
        exact after_le_of_swapInner hinput.pairState hinput.feeState hdecay hpayA hpayB hresult
  · intro hafter hswap
    refine swapInner_failsWith hinput.funded
      (swapFaults_of_fits hinput hfloorIn hle hfloorOut hcharged ?_) _ hswap rfl
    intro decayed hdecay hmovable
    exact hafter _ (chargedFeeBps_ok.mpr ⟨fs, decayed, hfs, hdecay, rfl⟩)
      (by cases isA <;> exact hmovable)

theorem quoted_swap_overflows_iff_opened :
    ∃ sent, External.exec 0 (openedPool (Env.quiet 0 1 1 none) 20000 20000) (.transfer true 1 0 1000) =
        .ok sent ∧
      swapFor (Env.quiet 0 1 1 none) sent true 949 1 ≠ fail .overflow := by
  obtain ⟨sent, hsent, -⟩ := exists_ok_of_map_eq (f := fun w : World ℕ => w.tokenA.balance 0)
    (b := 21000) (show _ <$> External.exec 0 (openedPool (Env.quiet 0 1 1 none) 20000 20000)
      (.transfer true 1 0 1000) = .ok 21000 by decide +kernel)
  obtain ⟨state, hstate, hreserves⟩ : ∃ state : PairStorage ℕ,
      (openedPool (Env.quiet 0 1 1 none) 20000 20000).pair.pairState = some state ∧
        (state.reserveA = 20000 ∧ state.reserveB = 20000) := by
    have hsome := show (openedPool (Env.quiet 0 1 1 none) 20000 20000).pair.pairState.map
      (fun state => (state.reserveA, state.reserveB)) = some (20000, 20000) by decide +kernel
    obtain ⟨state, hstate, heq⟩ := Option.map_eq_some_iff.mp hsome
    exact ⟨state, hstate, congrArg Prod.fst heq, congrArg Prod.snd heq⟩
  refine ⟨sent, hsent, (quoted_swap_overflows_iff (w := openedPool (Env.quiet 0 1 1 none) 20000 20000)
    (by decide +kernel) (by decide +kernel) ?_ hstate (by rfl) (by decide)
    (show getEffectiveFeeBps _ _ = .ok (30, false) by decide +kernel) ?_ ?_ ?_ ?_ hsent).mpr ?_⟩
  · unfold Balanced
    decide +kernel
  · rw [PairStorage.reserve, if_pos rfl, hreserves.1]
    decide
  · rw [PairStorage.reserve, if_pos rfl, hreserves.1]
    decide
  · rw [state.reserve_not, if_pos rfl, PairStorage.reserve, if_pos rfl, hreserves.1, hreserves.2]
    decide +kernel
  · rw [state.reserve_not, if_pos rfl, hreserves.2]
    decide
  · intro chargedBps hcharged _
    obtain rfl : 30 = chargedBps := Except.ok.inj
      ((show chargedFeeBps (Env.quiet 0 1 1 none) (openedPool (Env.quiet 0 1 1 none) 20000 20000) =
        .ok 30 by decide +kernel).symm.trans hcharged)
    unfold AfterFits
    rw [state.reserve_not, if_pos rfl, PairStorage.reserve, if_pos rfl, hreserves.1, hreserves.2]
    decide +kernel

/-- A pool that address 1 has opened with two quadrillion of each token. -/
def largePool : World ℕ :=
  (pairMachine 0).run
    (World.deployed 0 (.issued 1 10000000000000000 (by decide))
      (.issued 1 10000000000000000 (by decide)))
    (openingCalls (Env.quiet 0 1 1 none) 9 10 11 12 1 2000000000000000 2000000000000000)

theorem largePool_reachable : Reachable 0 largePool := ⟨_, _, _, rfl⟩

/-- The deposit of the large pool is accepted, and a trade of one million against it overflows. -/
theorem quoted_swap_overflows_in_largePool :
    ¬∀ (env : Env (0 : ℕ)) (w sent : World ℕ) (isA isOverride : Bool) (user dst : ℕ)
      (amountIn amountOut : ℤ) (feeBps : ℕ), Reachable 0 w → w.pair.locked = false →
      w.pair.frozen = false → Balanced 0 w → minimumReserve ≤ w.reserveA →
      minimumReserve ≤ w.reserveB → Fits (w.reserveA * w.reserveB) →
      getEffectiveFeeBps env w = .ok (feeBps, isOverride) → amountIn ≤ w.reserve isA →
      quoteOutputAmount amountIn (w.reserve isA) (w.reserve (!isA)) feeBps = .ok amountOut →
      minimumReserve ≤ w.reserve (!isA) - amountOut →
      External.exec 0 w (.transfer isA user 0 amountIn) = .ok sent →
        swapFor env sent isA amountOut dst ≠ fail .overflow := by
  intro hlaw
  obtain ⟨sent, hsent, hswap⟩ := exists_ok_of_map_eq
    (f := fun sent : World ℕ =>
      (fun result => result.1.reserveA) <$> swapFor (Env.quiet 0 1 1 none) sent true 996999 1)
    (b := fail .overflow)
    (show _ <$> External.exec 0 largePool (.transfer true 1 0 1000000) =
      .ok (fail PairError.overflow) by decide +kernel)
  have hbalanced : Balanced 0 largePool := by
    unfold Balanced
    decide +kernel
  have hfits : Fits (largePool.reserveA * largePool.reserveB) := by
    unfold Fits
    decide +kernel
  refine hlaw (Env.quiet 0 1 1 none) largePool sent true false 1 1 1000000 996999 30
    largePool_reachable (by decide +kernel) (by decide +kernel) hbalanced (by decide +kernel)
    (by decide +kernel) hfits (by decide +kernel) (by decide +kernel) (by decide +kernel)
    (by decide +kernel) hsent ?_
  cases hresult : swapFor (Env.quiet 0 1 1 none) sent true 996999 1 with
  | error fault =>
      rw [hresult] at hswap
      cases hswap
      rfl
  | ok result =>
      rw [hresult] at hswap
      cases hswap

end CoralSwap
