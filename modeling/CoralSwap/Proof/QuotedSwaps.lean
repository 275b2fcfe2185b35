import CoralSwap.Lib.ConstantProduct
import CoralSwap.Proof.ExactQuotes
import CoralSwap.Proof.FeeDecay
import CoralSwap.Proof.FlashGrowth
import CoralSwap.Proof.SwapFaults
import CoralSwap.Router.Quotes

/-!
# Quotes execute

Both quotes of the router are covered by the reserves at the rate the pair's view reports. The swap
charges at most that rate, so its product check passes for exactly the quoted amounts.
-/

namespace CoralSwap

open Host Host.Call

variable {Address : Type} [DecidableEq Address] {contract : Address}

/-! ### Quotes -/

/-- What a quote of `amountOut` for `amountIn` promises at a rate. -/
structure Quoted (reserveIn reserveOut amountIn amountOut : ℤ) (feeBps : ℕ) : Prop where
  reserveIn_pos : 0 < reserveIn
  amountIn_pos : 0 < amountIn
  amountOut_pos : 0 < amountOut
  amountOut_lt : amountOut < reserveOut
  fee_lt : (feeBps : ℤ) < bpsDenominator
  covered : amountOut * (reserveIn * bpsDenominator + amountIn * (bpsDenominator - feeBps)) ≤
    amountIn * (bpsDenominator - feeBps) * reserveOut

theorem quoted_of_quoteOutputAmount {amountIn reserveIn reserveOut out : ℤ} {feeBps : ℕ}
    (hquote : quoteOutputAmount amountIn reserveIn reserveOut feeBps = .ok out) :
    Quoted reserveIn reserveOut amountIn out feeBps := by
  obtain ⟨hin, hreserveIn, -, hfee, hout, hcovered⟩ := quoteOutputAmount_ok hquote
  exact ⟨hreserveIn, hin, hout, quoteOutputAmount_lt hquote, hfee, hcovered⟩

theorem quoted_of_quoteInputAmount {amountOut reserveIn reserveOut amountIn : ℤ} {feeBps : ℕ}
    (hquote : quoteInputAmount amountOut reserveIn reserveOut feeBps = .ok amountIn) :
    Quoted reserveIn reserveOut amountIn amountOut feeBps := by
  obtain ⟨hout, hlt, hreserveIn, hfee⟩ := quoteInputAmount_ok hquote
  obtain ⟨hin, hcovers⟩ := quoteInputAmount_le_iff hquote
  exact ⟨hreserveIn, hin, hout, hlt, hfee, (hcovers amountIn).mp le_rfl⟩

/-! ### The two sides of a quoted swap -/

section Sides

variable {t paid : Token Address} {dst : Address} {reserveIn reserveOut amountIn amountOut : ℤ}
variable {feeBps chargedBps : ℕ}

theorem paid_of_nothing (hpay : payOut t contract dst 0 = .ok paid) : paid = t := by
  rcases payOut_ok hpay with ⟨hpositive, -⟩ | ⟨-, hpaid⟩
  · exact absurd hpositive (lt_irrefl _)
  · exact hpaid

theorem inputSide (hin : 0 ≤ amountIn) (hbalance : t.balance contract = reserveIn + amountIn)
    (hpay : payOut t contract dst 0 = .ok paid) :
    paid.balance contract = reserveIn + amountIn ∧ inputOf contract paid reserveIn 0 = amountIn := by
  rw [paid_of_nothing hpay]
  refine ⟨hbalance, ?_⟩
  rw [inputOf, hbalance]
  omega

/-- The side that pays keeps at least what it should; paying the pair itself only adds an input. -/
theorem outputSide (hcharged : (chargedBps : ℤ) ≤ bpsDenominator) (hout : 0 < amountOut)
    (hbalance : t.balance contract = reserveOut)
    (hpay : payOut t contract dst amountOut = .ok paid) :
    (reserveOut - amountOut) * bpsDenominator ≤
      feeScaled (paid.balance contract) (inputOf contract paid reserveOut amountOut) chargedBps := by
  obtain ⟨-, htransfer⟩ | ⟨hnone, -⟩ := payOut_ok hpay
  swap
  · omega
  unfold inputOf feeScaled
  by_cases hdst : dst = contract
  · subst hdst
    rw [Token.balance_self_of_transfer htransfer, hbalance, sub_sub_cancel, max_eq_left hout.le,
      sub_mul]
    exact sub_le_sub_left (mul_le_mul_of_nonneg_left hcharged hout.le) _
  · rw [Token.balance_src_of_transfer htransfer (Ne.symm hdst), hbalance, sub_self, max_self, zero_mul,
      sub_zero]

theorem feeScaled_inputSide (hin : 0 ≤ amountIn)
    (hbalance : t.balance contract = reserveIn + amountIn)
    (hpay : payOut t contract dst 0 = .ok paid) :
    feeScaled (paid.balance contract) (inputOf contract paid reserveIn 0) chargedBps =
      reserveIn * bpsDenominator + amountIn * (bpsDenominator - chargedBps) := by
  obtain ⟨hpaid, hinput⟩ := inputSide hin hbalance hpay
  rw [hpaid, hinput, feeScaled]
  ring

/-- **The product check passes** for what was quoted at a rate not below the charged one. -/
theorem product_le_of_quoted {adjIn adjOut : ℤ}
    (hquoted : Quoted reserveIn reserveOut amountIn amountOut feeBps) (hle : chargedBps ≤ feeBps)
    (hadjIn : adjIn = reserveIn * bpsDenominator + amountIn * (bpsDenominator - chargedBps))
    (hadjOut : (reserveOut - amountOut) * bpsDenominator ≤ adjOut) :
    reserveIn * reserveOut * 100000000 ≤ adjIn * adjOut := by
  have hfactor : (bpsDenominator : ℤ) - feeBps ≤ bpsDenominator - chargedBps := by omega
  have hfee := hquoted.fee_lt
  have hnonneg : 0 ≤ adjIn := by
    rw [hadjIn]
    refine add_nonneg (mul_nonneg hquoted.reserveIn_pos.le (by decide)) ?_
    exact mul_nonneg hquoted.amountIn_pos.le (by omega)
  calc
    reserveIn * reserveOut * 100000000 = reserveIn * reserveOut * (bpsDenominator * bpsDenominator) :=
      rfl
    _ ≤ (reserveIn * bpsDenominator + amountIn * (bpsDenominator - chargedBps)) *
          ((reserveOut - amountOut) * bpsDenominator) :=
      ConstantProduct.product_le_of_covered (by decide) hquoted.amountIn_pos.le
        hquoted.amountOut_lt.le hfactor hquoted.covered
    _ = adjIn * ((reserveOut - amountOut) * bpsDenominator) := by rw [hadjIn]
    _ ≤ adjIn * adjOut := mul_le_mul_of_nonneg_left hadjOut hnonneg

end Sides

/-! ### Traps -/

/-- Someone's balance would overflow if it received all the pair holds. -/
def BalanceOverflows (contract : Address) (w : World Address) : Prop :=
  ∃ isA who, who ≠ contract ∧
    i128.max < (w.token isA).balance who + (w.token isA).balance contract

/-- The ledger at which the fee counts as stale does not fit. -/
def StampOverflows (fs : FeeState) : Prop := u64.max < (fs.lastFeeUpdate : ℤ) + fs.staleThreshold

section Traps

variable {t paid : Token Address} {dst who : Address} {amount : ℤ}

omit [DecidableEq Address] in
theorem stampOverflows_of_decay {env : Env contract} {fs : FeeState}
    (hdecay : ∀ decayed, fs.decayStaleEma env ≠ .ok decayed) : StampOverflows fs := by
  by_contra hfits
  have hchecked : u64.checkedAdd fs.lastFeeUpdate fs.staleThreshold =
      some ((fs.lastFeeUpdate : ℤ) + fs.staleThreshold) :=
    Word.checkedAdd_eq_some.mpr ⟨⟨by unfold u64; positivity, not_lt.mp hfits⟩, rfl⟩
  refine hdecay (if (fs.lastFeeUpdate : ℤ) + fs.staleThreshold < env.sequence then
    fs.applyTimeDecay env.sequence else fs) ?_
  simp only [FeeState.decayStaleEma, hchecked]
  rfl

/-- A payout that the pair can afford fails only where the recipient's balance would overflow. -/
theorem overflow_of_payOut (hfunds : amount ≤ t.balance contract)
    (hpay : ∀ paid, payOut t contract dst amount ≠ .ok paid) :
    dst ≠ contract ∧ i128.max < t.balance dst + amount := by
  unfold payOut at hpay
  split at hpay
  swap
  · exact absurd rfl (hpay t)
  rename_i hpositive
  by_contra hroom
  have hmovable : t.Movable contract dst amount := by
    refine ⟨hpositive.le, hfunds, fun hne => ?_⟩
    by_contra hover
    exact hroom ⟨hne.symm, not_le.mp hover⟩
  exact hpay _ (by rw [Token.transfer, dif_pos hmovable, orTrap])

/-- What the pair pays out moves between the pair and the recipient only. -/
theorem sum_le_of_payOut (hwho : who ≠ contract) (hpay : payOut t contract dst amount = .ok paid) :
    paid.balance who + paid.balance contract ≤ t.balance who + t.balance contract := by
  rcases payOut_ok hpay with ⟨hpositive, htransfer⟩ | ⟨-, rfl⟩
  swap
  · exact le_rfl
  by_cases hdst : dst = contract
  · subst hdst
    rw [Token.balance_self_of_transfer htransfer, Token.balance_self_of_transfer htransfer]
  · rw [Token.balance_src_of_transfer htransfer (Ne.symm hdst)]
    by_cases hself : who = dst
    · subst hself
      rw [Token.balance_dst_of_transfer htransfer (Ne.symm hdst)]
      omega
    · have hother : paid.balance who = t.balance who := by
        simp [(Token.transfer_eq_some htransfer).2, Token.moved, hwho, hself]
      omega

/-- A protocol fee within the input fails only where its recipient's balance would overflow. -/
theorem overflow_of_collect {env : Env contract} {amountIn : ℤ} {feeBps : ℕ}
    (hfee : (feeBps : ℤ) ≤ bpsDenominator) (hin : 0 ≤ amountIn)
    (hle : amountIn ≤ paid.balance contract) (hpay : payOut t contract dst amount = .ok paid)
    (hcollect : ∀ t', env.collectProtocolFee paid (env.protocolFee amountIn feeBps) ≠ .ok t') :
    ∃ who, who ≠ contract ∧ i128.max < t.balance who + t.balance contract := by
  have hwithin : env.protocolFee amountIn feeBps ≤ paid.balance contract :=
    (protocolFee_le env hin hfee).trans hle
  unfold Env.collectProtocolFee at hcollect
  split at hcollect
  · rename_i feeTo _
    obtain ⟨hne, hover⟩ := overflow_of_payOut hwithin hcollect
    have hsum := sum_le_of_payOut hne hpay
    exact ⟨feeTo, hne, by omega⟩
  · exact absurd rfl (hcollect paid)

end Traps

/-! ### Swapping what was quoted -/

/-- A swap for an output of the side that is not `isA`. -/
def swapFor (env : Env contract) (w : World Address) (isA : Bool) (amountOut : ℤ) (dst : Address) :
    Call PairError (World Address × SwapEvent) :=
  if isA then swap env w 0 amountOut dst else swap env w amountOut 0 dst

/-- A refusal that a quote cannot rule out: the dust floor, or arithmetic that does not fit. -/
def QuoteRefusal (contract : Address) (fs : FeeState) (w : World Address) (fault : Fault PairError) :
    Prop :=
  fault = .error .dustAmount ∨ fault = .error .overflow ∨
    (fault = .trap ∧ (StampOverflows fs ∨ BalanceOverflows contract w))

section Quoted

variable {env : Env contract} {w : World Address} {state : PairStorage Address} {fs : FeeState}
variable {dst : Address} {isA : Bool} {amountIn amountOut : ℤ} {feeBps : ℕ}

/-- The pair holds its reserves and the input of a quoted swap. -/
structure QuotedInput (contract : Address) (w : World Address) (state : PairStorage Address)
    (fs : FeeState) (isA : Bool) (amountIn amountOut : ℤ) (feeBps : ℕ) : Prop where
  pairState : w.pair.pairState = some state
  feeState : w.pair.feeState = some fs
  quoted : Quoted (state.reserve isA) (state.reserve (!isA)) amountIn amountOut feeBps
  balanceIn : (w.token isA).balance contract = state.reserve isA + amountIn
  balanceOut : (w.token (!isA)).balance contract = state.reserve (!isA)

omit [DecidableEq Address] in
theorem QuotedInput.funded (hinput : QuotedInput contract w state fs isA amountIn amountOut feeBps) :
    FundedSwap w contract (if isA then 0 else amountOut) (if isA then amountOut else 0) state fs := by
  obtain ⟨hpair, hfs, hquoted, hbalanceIn, hbalanceOut⟩ := hinput
  obtain ⟨hreserveIn, hin, hout, hlt, -, -⟩ := hquoted
  cases isA
  · simp only [PairStorage.reserve, World.token, Bool.false_eq_true, Bool.not_false, if_true,
      if_false] at *
    exact ⟨hpair, hfs, ⟨hout.le, le_rfl⟩, Or.inl hout, ⟨hlt, hreserveIn⟩, hbalanceOut.ge, by omega,
      Or.inr (by omega)⟩
  · simp only [PairStorage.reserve, World.token, Bool.not_true, Bool.false_eq_true, if_true,
      if_false] at *
    exact ⟨hpair, hfs, ⟨le_rfl, hout.le⟩, Or.inr hout, ⟨hreserveIn, hlt⟩, by omega, hbalanceOut.ge,
      Or.inl (by omega)⟩

theorem refusal_of_payOut {t : Token Address} {isA' : Bool} (ht : w.token isA' = t) {amount : ℤ}
    (hfunds : amount ≤ t.balance contract)
    (hpay : ∀ paid, payOut t contract dst amount ≠ .ok paid) : QuoteRefusal contract fs w .trap := by
  obtain ⟨hdst, hover⟩ := overflow_of_payOut hfunds hpay
  refine Or.inr (Or.inr ⟨rfl, Or.inr ⟨isA', dst, hdst, ?_⟩⟩)
  rw [ht]
  omega

theorem refusal_of_collect {t paid : Token Address} {isA' : Bool} (ht : w.token isA' = t)
    {amount reserve : ℤ} (hfee : (feeBps : ℤ) ≤ bpsDenominator) (hcovered : amount < reserve)
    (hpay : payOut t contract dst amount = .ok paid)
    (hcollect : ∀ t', env.collectProtocolFee paid
      (env.protocolFee (inputOf contract paid reserve amount) feeBps) ≠ .ok t') :
    QuoteRefusal contract fs w .trap := by
  obtain ⟨who, hwho, hover⟩ := overflow_of_collect hfee (le_max_right _ _) (input_le hcovered paid)
    hpay hcollect
  exact Or.inr (Or.inr ⟨rfl, Or.inr ⟨isA', who, hwho, by rwa [ht]⟩⟩)

/-- The product check of a quoted swap passes whichever token it takes in. -/
theorem QuotedInput.product_le {paidA paidB : Token Address} {chargedBps : ℕ}
    (hinput : QuotedInput contract w state fs isA amountIn amountOut feeBps)
    (hcharged : chargedBps ≤ feeBps)
    (hpayA : payOut w.tokenA contract dst (if isA then 0 else amountOut) = .ok paidA)
    (hpayB : payOut w.tokenB contract dst (if isA then amountOut else 0) = .ok paidB) :
    state.reserveA * state.reserveB * 100000000 ≤
      feeScaled (paidA.balance contract)
          (inputOf contract paidA state.reserveA (if isA then 0 else amountOut)) chargedBps *
        feeScaled (paidB.balance contract)
          (inputOf contract paidB state.reserveB (if isA then amountOut else 0)) chargedBps := by
  obtain ⟨-, -, hquoted, hbalanceIn, hbalanceOut⟩ := hinput
  have hfee := hquoted.fee_lt
  have hle : (chargedBps : ℤ) ≤ bpsDenominator := by omega
  cases isA
  · simp only [PairStorage.reserve, World.token, Bool.false_eq_true, Bool.not_false, if_true,
      if_false] at *
    have hchecked := product_le_of_quoted hquoted hcharged
      (feeScaled_inputSide hquoted.amountIn_pos.le hbalanceIn hpayB)
      (outputSide hle hquoted.amountOut_pos hbalanceOut hpayA)
    rwa [mul_comm state.reserveA, mul_comm (feeScaled (paidA.balance contract) _ _)]
  · simp only [PairStorage.reserve, World.token, Bool.not_true, Bool.false_eq_true, if_true,
      if_false] at *
    exact product_le_of_quoted hquoted hcharged
      (feeScaled_inputSide hquoted.amountIn_pos.le hbalanceIn hpayA)
      (outputSide hle hquoted.amountOut_pos hbalanceOut hpayB)

theorem swapFaults_of_quoted
    (hinput : QuotedInput contract w state fs isA amountIn amountOut feeBps)
    (hcharged : ∀ decayed, fs.decayStaleEma env = .ok decayed →
      env.effectiveFeeBps decayed.computeFeeBps ≤ feeBps) :
    SwapFaults (QuoteRefusal contract fs w) env w (if isA then 0 else amountOut)
      (if isA then amountOut else 0) dst state fs := by
  have hfunded := hinput.funded
  obtain ⟨hcoveredA, hcoveredB⟩ := hfunded.covered
  have hfundsA := hcoveredA.le.trans hfunded.backedA
  have hfundsB := hcoveredB.le.trans hfunded.backedB
  refine ⟨fun _ => Or.inl rfl, fun hdecay => ?_, refusal_of_payOut (show w.token true = _ from rfl) hfundsA,
    refusal_of_payOut (show w.token false = _ from rfl) hfundsB, ?_⟩
  · exact Or.inr (Or.inr ⟨rfl, Or.inl (stampOverflows_of_decay hdecay)⟩)
  · intro decayed paidA paidB hdecay hpayA hpayB
    have hrate := hcharged decayed hdecay
    have hlt := hinput.quoted.fee_lt
    have hfee : (env.effectiveFeeBps decayed.computeFeeBps : ℤ) ≤ bpsDenominator := by omega
    refine ⟨hfee, fun _ => Or.inr (Or.inl rfl), fun _ hshort => ?_, fun _ hcollect => ?_,
      fun _ hcollect => ?_, fun _ _ => Or.inr (Or.inl rfl)⟩
    · exact absurd (hinput.product_le hrate hpayA hpayB) (not_le.mpr hshort)
    · exact refusal_of_collect (show w.token true = _ from rfl) hfee hcoveredA hpayA hcollect
    · exact refusal_of_collect (show w.token false = _ from rfl) hfee hcoveredB hpayB hcollect

/-- Under the lock, a swap refuses what its body refuses. -/
theorem swap_failsWith {P : Fault PairError → Prop} {amountAOut amountBOut : ℤ}
    (hunlocked : w.pair.locked = false) (hunfrozen : w.pair.frozen = false)
    (hinner : FailsWith P
      (swapInner env { w with pair := { w.pair with locked := true } } amountAOut amountBOut dst)) :
    FailsWith P (swap env w amountAOut amountBOut dst) := by
  unfold swap
  refine .bind ?_ fun held hheld => ?_
  · unfold World.acquireLock
    exact .bind (.failIf fun hlocked => by simp [hunlocked] at hlocked) fun _ _ => .ret _
  · obtain ⟨-, rfl⟩ := World.acquireLock_eq_ok.mp hheld
    refine .bind (.failIf fun hfrozen => by simp [hunfrozen] at hfrozen) fun _ _ => ?_
    exact .bind hinner fun _ _ => .ret _

theorem sentSide_ok {sent : World Address} {user : Address} {amount : ℤ}
    (hsent : External.exec contract w (.transfer isA user contract amount) = .ok sent) :
    (sent.token isA).balance contract = (w.token isA).balance contract + amount ∧
      sent.token (!isA) = w.token (!isA) ∧ sent.pair = w.pair := by
  cases isA
  · cases external_ok hsent with
    | movedB hsrc htransfer => exact ⟨Token.balance_dst_of_transfer htransfer hsrc, rfl, rfl⟩
  · cases external_ok hsent with
    | movedA hsrc htransfer => exact ⟨Token.balance_dst_of_transfer htransfer hsrc, rfl, rfl⟩

/-- The pair holds exactly its reserves. -/
def Balanced (contract : Address) (w : World Address) : Prop :=
  ∀ isA, (w.token isA).balance contract = w.reserve isA

theorem quotedInput_of_sent {sent : World Address} {user : Address}
    (hbalanced : Balanced contract w) (hstate : w.pair.pairState = some state)
    (hfs : w.pair.feeState = some fs)
    (hquoted : Quoted (w.reserve isA) (w.reserve (!isA)) amountIn amountOut feeBps)
    (hsent : External.exec contract w (.transfer isA user contract amountIn) = .ok sent) :
    QuotedInput contract { sent with pair := { sent.pair with locked := true } } state fs isA amountIn
      amountOut feeBps := by
  obtain ⟨hsentIn, hsentOut, hpair⟩ := sentSide_ok hsent
  rw [World.reserve_of_pairState isA hstate, World.reserve_of_pairState (!isA) hstate] at hquoted
  refine ⟨by rw [← hstate, hpair], by rw [← hfs, hpair], hquoted, ?_, ?_⟩
  · rw [← World.reserve_of_pairState isA hstate, ← hbalanced isA, ← hsentIn]
    rfl
  · rw [← World.reserve_of_pairState (!isA) hstate, ← hbalanced (!isA), ← hsentOut]
    rfl

omit [DecidableEq Address] in
theorem pairState_of_view {isOverride : Bool}
    (hview : getEffectiveFeeBps env w = .ok (feeBps, isOverride)) :
    ∃ state, w.pair.pairState = some state := by
  simp only [getEffectiveFeeBps, bind_eq_ok, World.getPairState_eq_ok] at hview
  exact hview.imp fun _ h => h.1

end Quoted

/-- **Quotes execute.** In an unfrozen pair that holds its reserves, take either quote of the router, in
either direction, at the rate the pair reports. Sending the input and swapping for the output is
refused for the dust floor or for arithmetic that does not fit, and for nothing else. -/
theorem quoted_swap_executes {env : Env contract} {w sent : World Address} {fs : FeeState}
    {isA isOverride : Bool} {user dst : Address} {amountIn amountOut : ℤ} {feeBps : ℕ}
    (hunlocked : w.pair.locked = false) (hunfrozen : w.pair.frozen = false)
    (hbalanced : Balanced contract w) (hfs : w.pair.feeState = some fs)
    (hbaseline : (fs.baselineFeeBps : ℤ) ≤ u32.max)
    (hview : getEffectiveFeeBps env w = .ok (feeBps, isOverride))
    (hquote :
      Router.getAmountOut amountIn (w.reserve isA) (w.reserve (!isA)) feeBps = .ok amountOut ∨
        Router.getAmountIn amountOut (w.reserve isA) (w.reserve (!isA)) feeBps = .ok amountIn)
    (hsent : External.exec contract w (.transfer isA user contract amountIn) = .ok sent) :
    FailsWith (QuoteRefusal contract fs sent) (swapFor env sent isA amountOut dst) := by
  obtain ⟨-, -, hpair⟩ := sentSide_ok hsent
  have hquoted : Quoted (w.reserve isA) (w.reserve (!isA)) amountIn amountOut feeBps :=
    hquote.elim (fun h => quoted_of_quoteOutputAmount (Router.mapQuote_eq_ok.mp h))
      fun h => quoted_of_quoteInputAmount (Router.mapQuote_eq_ok.mp h)
  obtain ⟨state, hstate⟩ := pairState_of_view hview
  have hinput := quotedInput_of_sent hbalanced hstate hfs hquoted hsent
  have hinner : FailsWith (QuoteRefusal contract fs sent)
      (swapInner env { sent with pair := { sent.pair with locked := true } }
        (if isA then 0 else amountOut) (if isA then amountOut else 0) dst) :=
    swapInner_failsWith hinput.funded (swapFaults_of_quoted hinput fun _ hdecay =>
      effectiveFeeBps_le_of_view hbaseline hfs hview hdecay)
  have hswap := swap_failsWith (by rw [hpair, hunlocked]) (by rw [hpair, hunfrozen]) hinner
  cases isA <;> exact hswap

theorem quoted_swap_executes_opened :
    ∃ sent, External.exec 0 (openedPool (Env.quiet 0 1 1 none) 20000 20000) (.transferA 1 0 1000) =
        .ok sent ∧
      FailsWith (QuoteRefusal 0 FeeState.initial sent)
        (swapFor (Env.quiet 0 1 1 none) sent true 949 1) := by
  obtain ⟨sent, hsent, -⟩ := exists_ok_of_map_eq (f := fun w : World ℕ => w.tokenA.balance 0)
    (b := 21000) (show _ <$> External.exec 0 (openedPool (Env.quiet 0 1 1 none) 20000 20000)
      (.transferA 1 0 1000) = .ok 21000 by decide +kernel)
  refine ⟨sent, hsent, quoted_swap_executes (w := openedPool (Env.quiet 0 1 1 none) 20000 20000)
    (by decide +kernel) (by decide +kernel) ?_ (by rfl) (by decide)
    (show getEffectiveFeeBps _ _ = .ok (30, false) by decide +kernel)
    (Or.inl (by decide +kernel)) hsent⟩
  unfold Balanced
  decide +kernel

end CoralSwap
