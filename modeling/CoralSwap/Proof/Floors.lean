import CoralSwap.Lib.Faults
import CoralSwap.Proof.Dilution
import CoralSwap.Proof.LpHolders

/-!
# The dust floor

Both reserves should stay at the dust floor or above it, unless the pool is empty. A swap checks its
outputs against the reserves and not against what the pair holds, a one-token mint swaps in the same
way, and a single-sided burn checks nothing. They keep the floor exactly when what they leave does.
-/

namespace CoralSwap

open Host Host.Call

variable {Address : Type} [DecidableEq Address] {contract : Address}

def Floored (w : World Address) : Prop :=
  (∀ isA, minimumReserve ≤ w.reserve isA) ∨ ∀ isA, w.reserve isA = 0

/-! ### What keeps the floor -/

/-- What a one-token mint holds of either token after its internal swap, and counts as deposited once
more, is above the floor. -/
def OneTokenFloored (contract : Address) (w : World Address) (tokenIn : Address) (amount : ℤ) : Prop :=
  ∀ state fs isA swapIn swapOut, w.pair.pairState = some state → w.pair.feeState = some fs →
    tokenSide state tokenIn = .ok isA →
    computeSwapInForSingleSide (state.reserve isA) amount (mintWithOneTokenFeeBps fs) = .ok swapIn →
    quoteOutputAmount swapIn (state.reserve isA) (state.reserve (!isA)) (mintWithOneTokenFeeBps fs) =
      .ok swapOut →
    minimumReserve ≤ (w.token isA).balance contract + amount + (amount - swapIn) ∧
      minimumReserve ≤ (w.token (!isA)).balance contract + swapOut

/-- Trading `traded` of the other token into reserves of `preferred` and `unwanted` leaves the floor of
the preferred one. -/
def TradeFloored (traded preferred unwanted : ℤ) (feeBps : ℕ) : Prop :=
  (minimumReserve - 1) * (unwanted * bpsDenominator + traded * (bpsDenominator - feeBps)) <
    preferred * (unwanted * bpsDenominator)

/-- The share of `lpAmount` in the other token can be traded into what the share in the preferred token
leaves. -/
def SingleSideFloored (w : World Address) (preferredToken : Address) (lpAmount : ℤ) : Prop :=
  ∀ state fs isA, w.pair.pairState = some state → w.pair.feeState = some fs →
    tokenSide state preferredToken = .ok isA →
    TradeFloored (Shares.redeemed lpAmount (state.reserve (!isA)) (w.lp.totalSupply - minimumLiquidity))
      (state.reserve isA -
        Shares.redeemed lpAmount (state.reserve isA) (w.lp.totalSupply - minimumLiquidity))
      (state.reserve (!isA) -
        Shares.redeemed lpAmount (state.reserve (!isA)) (w.lp.totalSupply - minimumLiquidity))
      (burnSingleSideFeeBps fs)

def KeepsFloor (w : World Address) : PairCall contract → Prop
  | (_, .swap amountAOut amountBOut dst) =>
      minimumReserve ≤ heldAfter contract dst w.tokenA amountAOut ∧
        minimumReserve ≤ heldAfter contract dst w.tokenB amountBOut
  | (_, .mintWithOneToken _ tokenIn amount _) => OneTokenFloored contract w tokenIn amount
  | (_, .burnSingleSide _ lpAmount preferredToken _) => SingleSideFloored w preferredToken lpAmount
  | _ => True

section Call

variable {env : Env contract} {w w' : World Address} {dst : Address}

omit [DecidableEq Address] in
theorem Floored.of_pairState (hfloored : Floored w)
    (hstate : w'.pair.pairState = w.pair.pairState) : Floored w' := by
  unfold Floored
  rwa [World.reserve_eq_of_pairState hstate]

omit [DecidableEq Address] in
theorem Floored.reserve_nonneg (hfloored : Floored w) (isA : Bool) : 0 ≤ w.reserve isA := by
  rcases hfloored with hfloor | hempty
  · exact le_trans (by decide) (hfloor isA)
  · exact (hempty isA).ge

omit [DecidableEq Address] in
theorem Floored.of_pos {isA : Bool} (hfloored : Floored w) (hpositive : 0 < w.reserve isA) :
    ∀ isA, minimumReserve ≤ w.reserve isA :=
  hfloored.resolve_right fun hempty => absurd (hempty isA) hpositive.ne'

omit [DecidableEq Address] in
/-- Where a reserve is positive the pool is not empty. -/
theorem floored_iff_of_pos (isA : Bool) (hpositive : 0 < w.reserve isA) :
    Floored w ↔ minimumReserve ≤ w.reserve isA ∧ minimumReserve ≤ w.reserve (!isA) := by
  constructor
  · intro hfloored
    exact ⟨hfloored.of_pos hpositive isA, hfloored.of_pos hpositive (!isA)⟩
  · rintro ⟨hfloor, hother⟩
    left
    intro side
    cases isA <;> cases side <;> assumption

/-! ### Two-sided calls -/

theorem floored_of_mint {state : PairStorage Address} {seeded lp : LpToken Address} {liquidity : ℤ}
    (hfloored : Floored w) (hmint : MintSettles env w dst state seeded lp w' liquidity) :
    Floored w' := by
  have hnonneg := hfloored.reserve_nonneg
  have hA := hnonneg true
  have hB := hnonneg false
  rw [World.reserve_of_pairState _ hmint.pairState] at hA hB
  have hdepositA := hmint.depositA
  have hdepositB := hmint.depositB
  have hstate' : w'.pair.pairState = _ := congrArg (fun w => w.pair.pairState) hmint.result
  left
  intro isA
  rw [World.reserve_of_pairState isA hstate']
  cases isA
  · show minimumReserve ≤ w.tokenB.balance contract
    exact hdepositB.trans (sub_le_self _ hB)
  · show minimumReserve ≤ w.tokenA.balance contract
    exact hdepositA.trans (sub_le_self _ hA)

/-! ### Swaps -/

/-- The protocol fee is taken from what came in on top of a reserve at the floor. -/
theorem SideSettles.floor_iff {feeBps : ℕ} {reserve amountOut amountIn reserve' extra : ℤ}
    {before paid after : Token Address} (hfee : (feeBps : ℤ) ≤ bpsDenominator) (hextra : 0 ≤ extra)
    (hside : SideSettles env feeBps dst reserve amountOut before paid after amountIn reserve') :
    minimumReserve ≤ reserve' + extra ↔ minimumReserve ≤ paid.balance contract + extra := by
  have hfloor := hside.floor
  have hinput := hside.input
  have hsettled := hside.settled
  have hnonneg := protocolFee_nonneg env feeBps hside.amountIn_nonneg
  have hle := protocolFee_le env hside.amountIn_nonneg hfee
  omega

theorem fee_le_of_swap {amountAOut amountBOut : ℤ} {before after : PairStorage Address}
    {stored decayed : FeeState} {paidA paidB : Token Address} {event : SwapEvent}
    (hgoverned : env.Governed) (hcapped : FeeCapped w)
    (hswap : SwapSettles env w amountAOut amountBOut dst before after stored decayed paidA paidB w'
      event) : (event.feeBps : ℤ) ≤ bpsDenominator := by
  have hle := chargedFeeBps_le hgoverned hcapped (chargedFeeBps_of_swap hswap)
  unfold maxPairFeeBps at hle
  unfold bpsDenominator
  omega

/-- The product check leaves some of token A. -/
theorem reserveA_pos_of_swap {amountAOut amountBOut : ℤ} {before after : PairStorage Address}
    {stored decayed : FeeState} {paidA paidB : Token Address} {event : SwapEvent}
    (hfloored : Floored w) (hfee : (event.feeBps : ℤ) ≤ bpsDenominator)
    (hswap : SwapSettles env w amountAOut amountBOut dst before after stored decayed paidA paidB w'
      event) : 0 < after.reserveA := by
  have hside := hswap.sideA
  have hfloorA := hside.floor
  have hfloorB := hswap.sideB.floor
  have hnonneg := protocolFee_nonneg env event.feeBps hside.amountIn_nonneg
  have hle := protocolFee_le env hside.amountIn_nonneg hfee
  have hbalance := paidA.nonneg contract
  have hpositive : ∃ isA, 0 < w.reserve isA := by
    rcases hswap.requested with hrequested | hrequested
    · refine ⟨true, ?_⟩
      rw [World.reserve_of_pairState true hswap.pairState]
      show 0 < before.reserveA
      unfold minimumReserve at hfloorA
      omega
    · refine ⟨false, ?_⟩
      rw [World.reserve_of_pairState false hswap.pairState]
      show 0 < before.reserveB
      unfold minimumReserve at hfloorB
      omega
  have hreserves := hfloored.of_pos hpositive.choose_spec
  have hpaid : paidA.balance contract ≠ 0 := by
    intro hzero
    have hnothing : event.amountAIn = 0 := by
      have hinput := hside.input
      unfold minimumReserve at hfloorA
      omega
    have hproduct := hswap.product
    rw [hzero, hnothing, feeScaled, zero_mul, zero_mul, sub_zero, zero_mul] at hproduct
    have hA := hreserves true
    have hB := hreserves false
    rw [World.reserve_of_pairState _ hswap.pairState] at hA hB
    have hfloor : 0 < minimumReserve := by decide
    have hproduct' := mul_pos (hfloor.trans_le hA) (hfloor.trans_le hB)
    unfold PairStorage.reserve at hproduct'
    simp only [if_true, Bool.false_eq_true, if_false] at hproduct'
    omega
  have hinput := hside.input
  have hsettled := hside.settled
  unfold minimumReserve at hfloorA
  omega

theorem floored_iff_of_swap {amountAOut amountBOut : ℤ} {before after : PairStorage Address}
    {stored decayed : FeeState} {paidA paidB : Token Address} {event : SwapEvent}
    (hfloored : Floored w) (hfee : (event.feeBps : ℤ) ≤ bpsDenominator)
    (hswap : SwapSettles env w amountAOut amountBOut dst before after stored decayed paidA paidB w'
      event) :
    Floored w' ↔ minimumReserve ≤ paidA.balance contract ∧ minimumReserve ≤ paidB.balance contract := by
  have hreserveA : w'.reserve true = after.reserveA := World.reserve_of_pairState true hswap.pairState'
  have hreserveB : w'.reserve false = after.reserveB := World.reserve_of_pairState false hswap.pairState'
  have hfloorA := hswap.sideA.floor_iff hfee (le_refl 0)
  have hfloorB := hswap.sideB.floor_iff hfee (le_refl 0)
  rw [add_zero, add_zero] at hfloorA hfloorB
  rw [floored_iff_of_pos true (hreserveA ▸ reserveA_pos_of_swap hfloored hfee hswap), hreserveA,
    Bool.not_true, hreserveB, hfloorA, hfloorB]

/-! ### Single-sided calls -/

section Quote

variable {traded preferred unwanted out : ℤ} {feeBps : ℕ}

/-- What a quote pays before it is rejected as dust. -/
def quotedOut (traded unwanted preferred : ℤ) (feeBps : ℕ) : ℤ :=
  (traded * (bpsDenominator - feeBps) * preferred).tdiv
    (unwanted * bpsDenominator + traded * (bpsDenominator - feeBps))

theorem quotedOut_of_quote (hquote : quoteOutputAmount traded unwanted preferred feeBps = .ok out) :
    out = quotedOut traded unwanted preferred feeBps := by
  simp only [quoteOutputAmount, feeFactor, bind_eq_ok, pure_eq_ok, failIf_eq_ok, okOr_eq_ok,
    Word.checkedMul_eq_some, Word.checkedAdd_eq_some] at hquote
  obtain ⟨-, -, -, -, _, ⟨-, -, rfl⟩, _, ⟨-, rfl⟩, _, ⟨-, rfl⟩, _, ⟨-, rfl⟩, _, ⟨-, rfl⟩, -, -, rfl⟩ :=
    hquote
  rfl

/-- The pair reports dust where nothing is traded or nothing would be paid. -/
theorem dust_of_quote : FailsWith
    (fun fault => ∀ code, fault = .error code → mapQuoteError code = .dustAmount →
      traded ≤ 0 ∨ quotedOut traded unwanted preferred feeBps ≤ 0)
    (quoteOutputAmount traded unwanted preferred feeBps) := by
  unfold quoteOutputAmount feeFactor
  refine .bind (.failIf fun hnothing _ _ _ => Or.inl hnothing) fun _ _ => ?_
  refine .bind (.failIf fun _ => by simp [mapQuoteError]) fun _ _ => ?_
  refine .bind (.bind (.failIf fun _ => by simp [mapQuoteError]) fun _ _ => .ret _) fun _ hfactor => ?_
  refine .bind (.okOr fun _ => by simp [mapQuoteError]) fun _ hcharged => ?_
  refine .bind (.okOr fun _ => by simp [mapQuoteError]) fun _ hproduct => ?_
  refine .bind (.okOr fun _ => by simp [mapQuoteError]) fun _ hscaled => ?_
  refine .bind (.okOr fun _ => by simp [mapQuoteError]) fun _ hsum => ?_
  refine .bind (.failIf fun hdust _ _ _ => Or.inr ?_) fun _ _ => .ret _
  simp only [bind_eq_ok, pure_eq_ok, okOr_eq_ok, Word.checkedMul_eq_some, Word.checkedAdd_eq_some]
    at hfactor hcharged hproduct hscaled hsum
  obtain ⟨-, -, rfl⟩ := hfactor
  obtain ⟨-, rfl⟩ := hcharged
  obtain ⟨-, rfl⟩ := hproduct
  obtain ⟨-, rfl⟩ := hscaled
  obtain ⟨-, rfl⟩ := hsum
  exact hdust

theorem quotedOut_bounds (htraded : 0 < traded) (hunwanted : 0 ≤ unwanted) (hpreferred : 0 ≤ preferred)
    (hfee : (feeBps : ℤ) < bpsDenominator) :
    0 < unwanted * bpsDenominator + traded * (bpsDenominator - feeBps) ∧
      0 ≤ traded * (bpsDenominator - feeBps) * preferred := by
  have hcharged : 0 < traded * (bpsDenominator - feeBps) := mul_pos htraded (sub_pos.mpr hfee)
  exact ⟨add_pos_of_nonneg_of_pos (mul_nonneg hunwanted (by decide)) hcharged,
    mul_nonneg hcharged.le hpreferred⟩

/-- The internal swap of a single-sided burn pays the quote, be it dust or against a drained reserve. -/
theorem singleSideSwapOut_eq (htraded : 0 < traded) (hunwanted : 0 ≤ unwanted)
    (hpreferred : 0 ≤ preferred) (hfee : (feeBps : ℤ) < bpsDenominator)
    (hswap : singleSideSwapOut traded unwanted preferred feeBps = .ok out) :
    out = quotedOut traded unwanted preferred feeBps := by
  obtain ⟨hdenominator, hnumerator⟩ := quotedOut_bounds htraded hunwanted hpreferred hfee
  have hnonneg : 0 ≤ quotedOut traded unwanted preferred feeBps := Int.tdiv_nonneg hnumerator hdenominator.le
  unfold singleSideSwapOut at hswap
  split at hswap
  · rename_i hdrained
    obtain rfl := pure_eq_ok.mp hswap
    rw [quotedOut, hdrained, mul_zero, Int.zero_tdiv]
  · split at hswap
    · rename_i quoted hquoted
      obtain rfl := pure_eq_ok.mp hswap
      exact quotedOut_of_quote (getAmountOut_eq_ok.mp hquoted)
    · rename_i hdust
      obtain rfl := pure_eq_ok.mp hswap
      unfold getAmountOut at hdust
      split at hdust
      · cases hdust
      · rename_i code hquote
        have hcode : mapQuoteError code = .dustAmount := Fault.error.inj (Except.error.inj hdust)
        obtain hnothing | hnone := dust_of_quote _ hquote code rfl hcode
        · exact absurd htraded (not_lt.mpr hnothing)
        · exact le_antisymm hnonneg hnone
      · cases hdust
    · cases hswap

theorem tradeFloored_iff (htraded : 0 < traded) (hunwanted : 0 ≤ unwanted) (hpreferred : 0 ≤ preferred)
    (hfee : (feeBps : ℤ) < bpsDenominator)
    (hswap : singleSideSwapOut traded unwanted preferred feeBps = .ok out) :
    minimumReserve ≤ preferred - out ↔ TradeFloored traded preferred unwanted feeBps := by
  obtain ⟨hdenominator, hnumerator⟩ := quotedOut_bounds htraded hunwanted hpreferred hfee
  rw [singleSideSwapOut_eq htraded hunwanted hpreferred hfee hswap, TradeFloored, le_sub_comm, quotedOut,
    tdiv_le_iff hnumerator hdenominator]
  have hexpand : (preferred - minimumReserve + 1) *
      (unwanted * bpsDenominator + traded * (bpsDenominator - feeBps)) -
        traded * (bpsDenominator - feeBps) * preferred =
      preferred * (unwanted * bpsDenominator) - (minimumReserve - 1) *
        (unwanted * bpsDenominator + traded * (bpsDenominator - feeBps)) := by ring
  constructor <;> intro hlt <;> linarith

end Quote

theorem oneTokenFloored_iff {tokenIn : Address} {amount minLpOut : ℤ} {state : PairStorage Address}
    {stored : FeeState} {isA : Bool} {pulled swapped : World Address} {event : SwapEvent}
    {postSwap : PairStorage Address} {lp : LpToken Address} {published : MintSingleSideEvent}
    (hmint : MintWithOneTokenSettles env w dst tokenIn amount minLpOut state stored isA pulled swapped
      event postSwap lp w' published) :
    OneTokenFloored contract w tokenIn amount ↔
      minimumReserve ≤ (pulled.token isA).balance contract + (amount - published.swapIn) ∧
        minimumReserve ≤ (pulled.token (!isA)).balance contract + published.swapOut := by
  obtain ⟨htransfer, hother, -, -⟩ := moveToken_ok hmint.pull
  have hbalance := Token.balance_dst_of_transfer htransfer (Env.ne_contract_of_auth hmint.authorised)
  rw [hbalance, hother]
  constructor
  · intro hfloored
    exact hfloored state stored isA _ _ hmint.pairState hmint.feeState hmint.side hmint.sized hmint.quoted
  · intro hfloored state' fs isA' swapIn swapOut hstate hfs hside hsized hquoted
    obtain rfl : state = state' := Option.some.inj (hmint.pairState.symm.trans hstate)
    obtain rfl : stored = fs := Option.some.inj (hmint.feeState.symm.trans hfs)
    obtain rfl : isA = isA' := Except.ok.inj (hmint.side.symm.trans hside)
    obtain rfl : published.swapIn = swapIn := Except.ok.inj (hmint.sized.symm.trans hsized)
    obtain rfl : published.swapOut = swapOut := Except.ok.inj (hmint.quoted.symm.trans hquoted)
    exact hfloored

theorem floored_iff_of_mintWithOneToken {tokenIn : Address} {amount minLpOut : ℤ}
    {state : PairStorage Address} {stored : FeeState} {isA : Bool} {pulled swapped : World Address}
    {event : SwapEvent} {postSwap : PairStorage Address} {lp : LpToken Address}
    {published : MintSingleSideEvent} (hfloored : Floored w) (hgoverned : env.Governed)
    (hcapped : FeeCapped w)
    (hmint : MintWithOneTokenSettles env w dst tokenIn amount minLpOut state stored isA pulled swapped
      event postSwap lp w' published) :
    Floored w' ↔ OneTokenFloored contract w tokenIn amount := by
  obtain ⟨-, -, hpulled, -⟩ := moveToken_ok hmint.pull
  obtain ⟨before, after, stored', decayed, paidA, paidB, hswap⟩ := swapIntoPair_ok hmint.swap
  obtain rfl : postSwap = after := Option.some.inj (hmint.postSwapState.symm.trans hswap.pairState')
  have hfee := fee_le_of_swap hgoverned (hcapped.of_eq (by rw [hpulled])) hswap
  have hpositive := reserveA_pos_of_swap (hfloored.of_pairState (by rw [hpulled])) hfee hswap
  have hpaidA := balance_of_payOut hswap.sideA.payout
  have hpaidB := balance_of_payOut hswap.sideB.payout
  rw [heldAfter, if_neg fun h => h.2 rfl] at hpaidA hpaidB
  have hdeposit := sub_pos.mpr hmint.swapIn_lt
  have hout := hmint.swapOut_pos
  have hstate' : w'.pair.pairState = _ := congrArg (fun w => w.pair.pairState) hmint.result
  rw [oneTokenFloored_iff hmint]
  cases isA
  · have hfloorA := hswap.sideA.floor_iff hfee hout.le
    have hfloorB := hswap.sideB.floor_iff hfee hdeposit.le
    rw [hpaidA] at hfloorA
    rw [hpaidB] at hfloorB
    have hreserveA : w'.reserve true = postSwap.reserveA + published.swapOut :=
      World.reserve_of_pairState true hstate'
    have hreserveB : w'.reserve false = postSwap.reserveB + (amount - published.swapIn) :=
      World.reserve_of_pairState false hstate'
    rw [floored_iff_of_pos true (by rw [hreserveA]; exact add_pos hpositive hout), hreserveA,
      Bool.not_true, hreserveB, hfloorA, hfloorB]
    exact and_comm
  · have hfloorA := hswap.sideA.floor_iff hfee hdeposit.le
    have hfloorB := hswap.sideB.floor_iff hfee hout.le
    rw [hpaidA] at hfloorA
    rw [hpaidB] at hfloorB
    have hreserveA : w'.reserve true = postSwap.reserveA + (amount - published.swapIn) :=
      World.reserve_of_pairState true hstate'
    have hreserveB : w'.reserve false = postSwap.reserveB + published.swapOut :=
      World.reserve_of_pairState false hstate'
    rw [floored_iff_of_pos true (by rw [hreserveA]; exact add_pos hpositive hdeposit), hreserveA,
      Bool.not_true, hreserveB, hfloorA, hfloorB]
    exact Iff.rfl

theorem singleSideFloored_iff {preferredToken : Address} {state : PairStorage Address} {fs : FeeState}
    {isA : Bool} {lpAmount : ℤ} (hstate : w.pair.pairState = some state)
    (hfs : w.pair.feeState = some fs) (hside : tokenSide state preferredToken = .ok isA) :
    SingleSideFloored w preferredToken lpAmount ↔
      TradeFloored
        (Shares.redeemed lpAmount (state.reserve (!isA)) (w.lp.totalSupply - minimumLiquidity))
        (state.reserve isA -
          Shares.redeemed lpAmount (state.reserve isA) (w.lp.totalSupply - minimumLiquidity))
        (state.reserve (!isA) -
          Shares.redeemed lpAmount (state.reserve (!isA)) (w.lp.totalSupply - minimumLiquidity))
        (burnSingleSideFeeBps fs) := by
  constructor
  · intro hfloored
    exact hfloored state fs isA hstate hfs hside
  · intro hfloored state' fs' isA' hstate' hfs' hside'
    obtain rfl : state = state' := Option.some.inj (hstate.symm.trans hstate')
    obtain rfl : fs = fs' := Option.some.inj (hfs.symm.trans hfs')
    obtain rfl : isA = isA' := Except.ok.inj (hside.symm.trans hside')
    exact hfloored

theorem floored_iff_of_burnSingleSide {preferredToken : Address}
    {lpAmount sharePreferred shareUnwanted swapOut totalOut : ℤ} {state : PairStorage Address}
    {stored : FeeState} {isA : Bool} {lp : LpToken Address} (hfloored : Floored w)
    (hseeded : Seeded contract w) (hnonneg : 0 ≤ w.pair.pendingLpTotal) (hbacked : w.lp.Backed)
    (hcapped : FeeCapped w)
    (hburn : BurnSingleSideSettles env w dst lpAmount preferredToken state stored isA lp
      sharePreferred shareUnwanted swapOut w' totalOut) :
    Floored w' ↔ SingleSideFloored w preferredToken lpAmount := by
  obtain ⟨-, hfunds, -⟩ := LpToken.burn_ok hburn.burned
  have hholders := hbacked.add_balance_le (Env.ne_contract_of_auth hburn.authorised)
  have hpositive := hburn.positive
  have hseed : 0 < minimumLiquidity := by decide
  unfold Seeded at hseeded
  have hle : lpAmount ≤ w.lp.totalSupply - minimumLiquidity := by omega
  have hshares : 0 < w.lp.totalSupply - minimumLiquidity := hpositive.trans_le hle
  have hreserve : ∀ isA, 0 ≤ state.reserve isA := fun isA => by
    rw [← World.reserve_of_pairState isA hburn.pairState]
    exact hfloored.reserve_nonneg isA
  have hfee : (burnSingleSideFeeBps stored : ℤ) < bpsDenominator := by
    have hmax := stored.computeFeeBps_le_max
    rw [hcapped stored hburn.feeState] at hmax
    exact lt_of_le_of_lt (Int.ofNat_le.mpr hmax) (by decide)
  have hpreferred : 0 ≤ state.reserve isA - sharePreferred := by
    rw [hburn.sharePreferred_eq]
    exact sub_nonneg.mpr (Shares.redeemed_le hpositive.le (hreserve isA) hle hshares)
  have hunwanted : 0 ≤ state.reserve (!isA) - shareUnwanted := by
    rw [hburn.shareUnwanted_eq]
    exact sub_nonneg.mpr (Shares.redeemed_le hpositive.le (hreserve _) hle hshares)
  have hother : 0 < w.reserve (!isA) := by
    rw [World.reserve_of_pairState (!isA) hburn.pairState]
    exact hburn.shareUnwanted_pos.trans_le (sub_nonneg.mp hunwanted)
  have hstate' := congrArg Pair.pairState hburn.pair'
  have hkept : w'.reserve (!isA) = w.reserve (!isA) := by
    rw [World.reserve_of_pairState (!isA) hburn.pairState, World.reserve_of_pairState (!isA) hstate']
    cases isA <;> rfl
  have hpaid : w'.reserve isA = state.reserve isA - sharePreferred - swapOut := by
    rw [World.reserve_of_pairState isA hstate']
    cases isA <;> rfl
  rw [floored_iff_of_pos (!isA) (hkept ▸ hother), hkept, Bool.not_not, hpaid,
    and_iff_right (hfloored.of_pos hother _), singleSideFloored_iff hburn.pairState hburn.feeState hburn.side,
    tradeFloored_iff hburn.shareUnwanted_pos hunwanted hpreferred hfee hburn.quoted,
    hburn.shareUnwanted_eq, hburn.sharePreferred_eq]
  exact Iff.rfl

/-! ### Burns -/

/-- A burn redeems no more than the circulating shares. -/
theorem burnLp_le {state : PairStorage Address} {burnLp amountA amountB : ℤ} {lp : LpToken Address}
    {tokenA tokenB : Token Address} {e : Escrow Address} (hstages : Stages w e)
    (hseeded : Seeded contract w) (hbacked : w.lp.Backed)
    (hburn : BurnSettles env w dst state burnLp lp tokenA tokenB w' amountA amountB) :
    burnLp ≤ w.lp.totalSupply - minimumLiquidity := by
  have hbalance := hbacked.balance_le contract
  have hown := hstages.pendingLp dst
  have htotal := hstages.pendingLpTotal
  have hpart := e.total_withdraw dst
  unfold Seeded at hseeded
  rcases hburn.redeems with ⟨-, hamount⟩ | ⟨-, hamount⟩ <;> omega

theorem floored_of_burn {state : PairStorage Address} {burnLp amountA amountB : ℤ}
    {lp : LpToken Address} {tokenA tokenB : Token Address} (hfloored : Floored w)
    (hle : burnLp ≤ w.lp.totalSupply - minimumLiquidity)
    (hburn : BurnSettles env w dst state burnLp lp tokenA tokenB w' amountA amountB) :
    Floored w' := by
  have hpositive := hburn.positive
  have hshareA : amountA = Shares.redeemed burnLp state.reserveA _ := hburn.shareA
  have hshareB : amountB = Shares.redeemed burnLp state.reserveB _ := hburn.shareB
  have hstate' : w'.pair.pairState = _ := congrArg (fun w => w.pair.pairState) hburn.result
  have hreserveA : w'.reserve true = state.reserveA - amountA := World.reserve_of_pairState true hstate'
  have hreserveB : w'.reserve false = state.reserveB - amountB := World.reserve_of_pairState false hstate'
  unfold Floored
  rw [Bool.forall_bool, Bool.forall_bool, hreserveA, hreserveB]
  rcases hle.lt_or_eq with hlt | hall
  · -- some shares stay, and so does part of either reserve
    have hrest : ∀ {reserve amount : ℤ}, minimumReserve ≤ amount →
        ¬(0 < reserve - amount ∧ reserve - amount < minimumReserve) → 0 ≤ reserve →
        amount = Shares.redeemed burnLp reserve (w.lp.totalSupply - minimumLiquidity) →
        minimumReserve ≤ reserve - amount := by
      intro reserve amount hfloor hchecked hnonneg hshare
      have hreserve : 0 < reserve := by
        refine lt_of_le_of_ne hnonneg ?_
        rintro rfl
        rw [hshare, Shares.redeemed, mul_zero, Int.zero_tdiv] at hfloor
        exact absurd hfloor (by decide)
      have hleft := Shares.redeemed_lt hpositive.le hreserve hlt
      rw [← hshare] at hleft
      omega
    have hnonneg := hfloored.reserve_nonneg
    have hA := hnonneg true
    have hB := hnonneg false
    rw [World.reserve_of_pairState _ hburn.pairState] at hA hB
    exact Or.inl ⟨hrest hburn.floorB hburn.restB hB hshareB, hrest hburn.floorA hburn.restA hA hshareA⟩
  · have hshares : w.lp.totalSupply - minimumLiquidity ≠ 0 := hburn.burnable
    rw [hall, Shares.redeemed_self hshares] at hshareA hshareB
    exact Or.inr ⟨by omega, by omega⟩

/-! ### One call -/

/-- The calls that trade against the reserves or exchange them for shares, and whatever does not touch
them: all but `sync` and flash loans, which book any balance as a reserve. -/
def Op.TradesOrExchanges : Op Address → Prop
  | .sync => False
  | .flashLoan .. => False
  | _ => True

structure FloorInvariant (contract : Address) (w : World Address) : Prop where
  staging : StagingInvariant contract w
  lp : LpSound contract w
  capped : FeeCapped w
  floored : Floored w

/-- **Step.** An accepted call keeps the reserves floored exactly when it keeps the floor. -/
theorem floored_iff_of_exec {op : Op Address} (hinv : FloorInvariant contract w)
    (hop : op.TradesOrExchanges) (hgoverned : env.Governed) (hexec : exec w (env, op) = .ok w') :
    Floored w' ↔ KeepsFloor w (env, op) := by
  obtain ⟨⟨⟨e, hstages⟩, hcovered⟩, hsound, hcapped, hfloored⟩ := hinv
  have hnonneg : 0 ≤ w.pair.pendingLpTotal := by
    rw [hstages.pendingLpTotal]
    exact Int.natCast_nonneg _
  cases callEffect_of_exec hexec with
  | initializePair hnone hne hresult =>
      refine iff_of_true (Or.inr fun isA => ?_) trivial
      have hstate' : w'.pair.pairState = _ := congrArg (fun w => w.pair.pairState) hresult
      rw [World.reserve_of_pairState isA hstate']
      cases isA <;> rfl
  | mint hmint => exact iff_of_true (floored_of_mint hfloored hmint) trivial
  | mintWithOneToken hmint => exact floored_iff_of_mintWithOneToken hfloored hgoverned hcapped hmint
  | depositLp hdeposit =>
      exact iff_of_true (hfloored.of_pairState (by rw [hdeposit.result])) trivial
  | burn hburn =>
      have hseeded := hcovered.seeded_of_supply hburn.supply
      exact iff_of_true (floored_of_burn hfloored (burnLp_le hstages hseeded hsound.backed hburn) hburn)
        trivial
  | burnSingleSide hburn =>
      exact floored_iff_of_burnSingleSide hfloored (hcovered.seeded_of_supply hburn.supply) hnonneg
        hsound.backed hcapped hburn
  | swap hswap =>
      rw [floored_iff_of_swap hfloored (fee_le_of_swap hgoverned hcapped hswap) hswap,
        balance_of_payOut hswap.sideA.payout, balance_of_payOut hswap.sideB.payout]
      exact Iff.rfl
  | flashLoan hloan => exact hop.elim
  | emptyFlashLoan hresult => exact hop.elim
  | sync hstate hresult => exact hop.elim
  | setStaleThreshold hfs hresult =>
      exact iff_of_true (hfloored.of_pairState (by rw [hresult]; rfl)) trivial
  | setLpTokenPaused hlp hresult =>
      exact iff_of_true (hfloored.of_pairState (by rw [hresult])) trivial
  | setFrozen hresult => exact iff_of_true (hfloored.of_pairState (by rw [hresult])) trivial
  | external heffect =>
      exact iff_of_true (hfloored.of_pairState (by rw [(outsideFrame_of_external heffect).pair])) trivial

end Call

/-! ### Runs -/

/-- A call of the run: not a reset of the reserves, no forged signature, and a factory that bounds what
it answers. -/
structure FloorCall (call : PairCall contract) : Prop where
  op : call.2.TradesOrExchanges
  keyless : Keyless call
  governed : call.1.Governed

omit [DecidableEq Address] in
theorem floorInvariant_deployed (tokenA tokenB : Token Address) :
    FloorInvariant contract (World.deployed contract tokenA tokenB) where
  staging := stagingInvariant_deployed tokenA tokenB
  lp := ⟨Ledger.AddsUp.zero, rfl, rfl⟩
  capped := fun _ hnone => by cases hnone
  floored := Or.inr fun isA => by cases isA <;> rfl

theorem floorInvariant_of_exec {w w' : World Address} {call : PairCall contract}
    (hinv : FloorInvariant contract w) (hcall : FloorCall call) (hfirst : FirstSharesMinted w call)
    (hfloored : Floored w') (hexec : exec w call = .ok w') : FloorInvariant contract w' where
  staging := stagingInvariant_of_exec hinv.staging hcall.keyless hfirst hexec
  lp := lpSound_of_exec hinv.lp hexec
  capped := feeCapped_of_exec hinv.capped hexec
  floored := hfloored

theorem floored_step_iff {w : World Address} {call : PairCall contract}
    (hinv : FloorInvariant contract w) (hcall : FloorCall call) :
    Floored ((pairMachine contract).step w call) ↔
      ((pairMachine contract).Accepts w call → KeepsFloor w call) := by
  cases hexec : (pairMachine contract).exec w call with
  | ok w' =>
      rw [Machine.step_of_exec_ok hexec, floored_iff_of_exec hinv hcall.op hcall.governed hexec]
      exact ⟨fun hkeeps _ => hkeeps, fun hkeeps => hkeeps ⟨w', hexec⟩⟩
  | error fault =>
      have hstay : (pairMachine contract).step w call = w := by simp [Machine.step, hexec]
      rw [hstay]
      refine iff_of_true hinv.floored ?_
      rintro ⟨w', haccepts⟩
      cases hexec.symm.trans haccepts

/-- **The dust floor.** Along a run of trades, deposits and exits, every call leaves both reserves at the
floor or both at zero exactly when every accepted call keeps the floor. -/
theorem floored_along_iff (tokenA tokenB : Token Address) (calls : List (PairCall contract))
    (hcalls : ∀ call ∈ calls, FloorCall call)
    (hfirst : (pairMachine contract).Along FirstSharesMinted (World.deployed contract tokenA tokenB)
      calls) :
    (pairMachine contract).Along (fun w call => Floored ((pairMachine contract).step w call))
        (World.deployed contract tokenA tokenB) calls ↔
      (pairMachine contract).Along
        (fun w call => (pairMachine contract).Accepts w call → KeepsFloor w call)
        (World.deployed contract tokenA tokenB) calls := by
  have halong := (Machine.along_of_forall_mem (m := pairMachine contract) hcalls
    (World.deployed contract tokenA tokenB)).and hfirst
  have hstart : FloorInvariant contract (World.deployed contract tokenA tokenB) :=
    floorInvariant_deployed tokenA tokenB
  have hstep : ∀ w (call : PairCall contract) w', FloorInvariant contract w →
      (FloorCall call ∧ FirstSharesMinted w call) ∧ Floored ((pairMachine contract).step w call) →
      (pairMachine contract).exec w call = .ok w' → FloorInvariant contract w' := by
    rintro w call w' hinv ⟨⟨hcall, hfirst⟩, hfloored⟩ hexec
    rw [Machine.step_of_exec_ok hexec] at hfloored
    exact floorInvariant_of_exec hinv hcall hfirst hfloored hexec
  constructor
  · intro hfloored
    refine Machine.along_of_invariant hstep ?_ hstart (halong.and hfloored)
    rintro w call hinv ⟨⟨hcall, -⟩, hfloored⟩
    exact (floored_step_iff hinv hcall).mp hfloored
  · intro hkeeps
    refine Machine.along_of_invariant (I := FloorInvariant contract) ?_ ?_ hstart (halong.and hkeeps)
    · rintro w call w' hinv ⟨hcall, hkeeps⟩ hexec
      exact hstep w call w' hinv ⟨hcall, (floored_step_iff hinv hcall.1).mpr hkeeps⟩ hexec
    · rintro w call hinv ⟨⟨hcall, -⟩, hkeeps⟩
      exact (floored_step_iff hinv hcall).mpr hkeeps

theorem floorCall_quiet {op : Op ℕ} (hop : op.TradesOrExchanges)
    (hnone : outsideLpCalls ((Env.quiet 0 1 1 none, op) : PairCall (0 : ℕ)) = []) :
    FloorCall ((Env.quiet 0 1 1 none, op) : PairCall (0 : ℕ)) where
  op := hop
  keyless := by
    unfold Keyless
    rw [hnone]
    exact fun _ hcall => by cases hcall
  governed := Or.inr ⟨Factory.deployed, ⟨[], rfl⟩, rfl⟩

theorem floorCall_opening {call : PairCall (0 : ℕ)} {amountA amountB : ℤ}
    (hcall : call ∈ openingCalls (Env.quiet 0 1 1 none) 9 10 11 12 1 amountA amountB) :
    FloorCall call := by
  simp only [openingCalls, depositCalls, List.mem_cons, List.not_mem_nil, or_false] at hcall
  rcases hcall with rfl | rfl | rfl | rfl <;> exact floorCall_quiet trivial rfl

theorem floored_along_iff_opened :
    let env : Env (0 : ℕ) := Env.quiet 0 1 1 none
    (pairMachine 0).Along (fun w call => Floored ((pairMachine 0).step w call))
      (World.deployed 0 (.issued 1 1000000 (by decide)) (.issued 1 1000000 (by decide)))
      (openingCalls env 9 10 11 12 1 20000 20000 ++
        [(env, .external (.transferA 1 0 1000)), (env, .swap 0 900 1), (env, .depositLp 1 19000),
          (env, .burn 1)]) := by
  intro env
  refine (floored_along_iff _ _ _ ?_ ?_).mpr ?_
  · intro call hcall
    rcases List.mem_append.mp hcall with hopening | hlater
    · exact floorCall_opening hopening
    · simp only [List.mem_cons, List.not_mem_nil, or_false] at hlater
      rcases hlater with rfl | rfl | rfl | rfl <;> exact floorCall_quiet trivial rfl
  · exact ⟨trivial, trivial, trivial, trivial, trivial, trivial, trivial, trivial, trivial⟩
  · exact ⟨fun _ => trivial, fun _ => trivial, fun _ => trivial, fun _ => trivial, fun _ => trivial,
      fun _ => ⟨by decide +kernel, by decide +kernel⟩, fun _ => trivial, fun _ => trivial, trivial⟩

/-- The only provider of a pool of 20000 and 20000 exits into token A: nothing of it is left, and all of
token B. -/
theorem floored_fails_after_burnSingleSide :
    ¬∀ (tokenA tokenB : Token ℕ) (calls : List (PairCall 0)), (∀ call ∈ calls, FloorCall call) →
      (pairMachine 0).Along FirstSharesMinted (World.deployed 0 tokenA tokenB) calls →
      Floored ((pairMachine 0).run (World.deployed 0 tokenA tokenB) calls) := by
  intro hlaw
  let calls : List (PairCall 0) := openingCalls (Env.quiet 0 1 1 none) 9 10 11 12 1 20000 20000 ++
    [(Env.quiet 0 1 1 none, .burnSingleSide 1 19000 10 1)]
  have hcalls : ∀ call ∈ calls, FloorCall call := by
    intro call hcall
    rcases List.mem_append.mp hcall with hopening | hlast
    · exact floorCall_opening hopening
    · obtain rfl := List.mem_singleton.mp hlast
      exact floorCall_quiet trivial rfl
  have hfloored := hlaw (.issued 1 1000000 (by decide)) (.issued 1 1000000 (by decide)) calls hcalls
    ⟨trivial, trivial, trivial, trivial, trivial, trivial⟩
  rcases hfloored with hfloor | hempty
  · exact absurd (hfloor true) (by decide +kernel)
  · exact absurd (hempty false) (by decide +kernel)

end CoralSwap
