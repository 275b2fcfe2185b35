import CoralSwap.Pair.Swap

/-!
# What an accepted swap does

The two sides of a swap go through the same steps: the payout, the inferred input, the fee-adjusted
balance and the protocol fee. `SideSettles` is one of them; `SwapSettles` is both, tied together by
the product check.
-/

namespace CoralSwap

open Host Host.Call

variable {Address : Type} [DecidableEq Address] {contract : Address}

theorem payOut_ok {t t' : Token Address} {dst : Address} {amount : ℤ}
    (hpay : payOut t contract dst amount = .ok t') :
    (0 < amount ∧ t.transfer contract dst amount = some t') ∨ (amount ≤ 0 ∧ t' = t) := by
  unfold payOut at hpay
  split at hpay
  · rename_i hpositive
    exact Or.inl ⟨hpositive, orTrap_eq_ok.mp hpay⟩
  · rename_i hnonpos
    exact Or.inr ⟨by omega, (pure_eq_ok.mp hpay).symm⟩

theorem sub_max_le_balance_of_payOut {t t' : Token Address} {dst : Address} {amount : ℤ}
    (hpay : payOut t contract dst amount = .ok t') :
    t.balance contract - max amount 0 ≤ t'.balance contract := by
  rcases payOut_ok hpay with ⟨hpositive, htransfer⟩ | ⟨hnonpos, rfl⟩
  · rw [max_eq_left hpositive.le]
    exact Token.sub_le_balance_src_of_transfer htransfer
  · rw [max_eq_right hnonpos]
    omega

theorem others_balance_of_payOut {t t' : Token Address} {dst who : Address} {amount : ℤ}
    (hne : who ≠ contract) (hpay : payOut t contract dst amount = .ok t') :
    t'.balance who = t.balance who + if who = dst then max amount 0 else 0 := by
  rcases payOut_ok hpay with ⟨hpositive, htransfer⟩ | ⟨hnonpos, rfl⟩
  · rw [(Token.transfer_eq_some htransfer).2, Token.moved, if_neg hne, max_eq_left hpositive.le]
    split_ifs with hself hdst hdst
    · exact absurd (hdst.trans hself.symm) hne
    · omega
    · subst hdst
      rfl
    · omega
  · rw [max_eq_right hnonpos]
    split_ifs <;> omega

/-- What the pair holds of a token once `amount` of it is paid out to `dst`. -/
def heldAfter (contract dst : Address) (t : Token Address) (amount : ℤ) : ℤ :=
  if 0 < amount ∧ dst ≠ contract then t.balance contract - amount else t.balance contract

theorem balance_of_payOut {t paid : Token Address} {dst : Address} {amount : ℤ}
    (hpay : payOut t contract dst amount = .ok paid) :
    paid.balance contract = heldAfter contract dst t amount := by
  unfold heldAfter
  rcases payOut_ok hpay with ⟨hpositive, htransfer⟩ | ⟨hnonpos, rfl⟩
  · by_cases hdst : dst = contract
    · subst hdst
      rw [if_neg fun h => h.2 rfl, Token.balance_self_of_transfer htransfer]
    · rw [if_pos ⟨hpositive, hdst⟩, Token.balance_src_of_transfer htransfer (Ne.symm hdst)]
  · rw [if_neg fun h => by omega]

/-- One side of a swap, from the reserve and the token before to the reserve and the token after. -/
structure SideSettles (env : Env contract) (feeBps : ℕ) (dst : Address) (reserve amountOut : ℤ)
    (before paid after : Token Address) (amountIn reserve' : ℤ) : Prop where
  floor : minimumReserve ≤ reserve - amountOut
  payout : payOut before contract dst amountOut = .ok paid
  input : amountIn = max (paid.balance contract - (reserve - amountOut)) 0
  charged : amountIn * feeBps ≤ i128.max
  collected : env.collectProtocolFee paid (env.protocolFee amountIn feeBps) = .ok after
  settled : reserve' = paid.balance contract - env.protocolFee amountIn feeBps

/-- The balance of one side of a swap, less the fee on its input, in basis points. -/
def feeScaled (balance amountIn : ℤ) (feeBps : ℕ) : ℤ := balance * bpsDenominator - amountIn * feeBps

structure SwapSettles (env : Env contract) (w : World Address) (amountAOut amountBOut : ℤ)
    (dst : Address) (before after : PairStorage Address) (stored decayed : FeeState)
    (paidA paidB : Token Address) (w' : World Address) (event : SwapEvent) : Prop where
  requested : 0 < amountAOut ∨ 0 < amountBOut
  pairState : w.pair.pairState = some before
  feeState : w.pair.feeState = some stored
  decay : stored.decayStaleEma env = .ok decayed
  fee : event.feeBps = env.effectiveFeeBps decayed.computeFeeBps
  sideA : SideSettles env event.feeBps dst before.reserveA amountAOut w.tokenA paidA w'.tokenA
    event.amountAIn after.reserveA
  sideB : SideSettles env event.feeBps dst before.reserveB amountBOut w.tokenB paidB w'.tokenB
    event.amountBIn after.reserveB
  funded : 0 < event.amountAIn ∨ 0 < event.amountBIn
  product : before.reserveA * before.reserveB * 100000000 ≤
    feeScaled (paidA.balance contract) event.amountAIn event.feeBps *
      feeScaled (paidB.balance contract) event.amountBIn event.feeBps
  pairState' : w'.pair.pairState = some after
  storage : after = { before with
    reserveA := after.reserveA, reserveB := after.reserveB
    kLast := after.reserveA * after.reserveB, blockTimestampLast := env.timestamp }
  tracked : ∃ fs, trackVolatility env decayed before after event.amountAIn event.amountBIn = .ok fs ∧
    w'.pair.feeState = some fs
  frame : w'.lp = w.lp ∧ w'.pair.pendingLp = w.pair.pendingLp ∧
    w'.pair.pendingLpTotal = w.pair.pendingLpTotal ∧ w'.pair.locked = w.pair.locked

theorem inferInput_ok {balance reserve amountOut amountIn : ℤ}
    (hinfer : inferInput balance reserve amountOut = .ok amountIn) :
    amountIn = max (balance - (reserve - amountOut)) 0 := by
  simp only [inferInput, bind_eq_ok, orTrap_eq_ok, Word.checkedSub_eq_some, pure_eq_ok] at hinfer
  obtain ⟨_, ⟨-, rfl⟩, _, ⟨-, rfl⟩, rfl⟩ := hinfer
  rfl

theorem feeAdjusted_ok {balance amountIn v : ℤ} {feeBps : ℕ}
    (hadjust : feeAdjusted balance amountIn feeBps = .ok v) :
    amountIn * feeBps ≤ i128.max ∧ v = feeScaled balance amountIn feeBps := by
  simp only [feeAdjusted, bind_eq_ok, okOr_eq_ok, orTrap_eq_ok, Word.checkedMul_eq_some,
    Word.checkedSub_eq_some] at hadjust
  obtain ⟨_, ⟨-, rfl⟩, _, ⟨⟨-, hcharged⟩, rfl⟩, -, rfl⟩ := hadjust
  exact ⟨hcharged, rfl⟩

/-- **Inversion of a swap.** -/
theorem swapInner_ok {env : Env contract} {w w' : World Address} {amountAOut amountBOut : ℤ}
    {dst : Address} {event : SwapEvent}
    (hswap : swapInner env w amountAOut amountBOut dst = .ok (w', event)) :
    ∃ before after stored decayed paidA paidB,
      SwapSettles env w amountAOut amountBOut dst before after stored decayed paidA paidB w' event := by
  simp only [swapInner, bind_eq_ok, failIf_eq_ok, okOr_eq_ok, Word.checkedSub_eq_some,
    Word.checkedMul_eq_some, World.getPairState_eq_ok, World.getFeeState_eq_ok, pure_eq_ok,
    exists_const, and_assoc, exists_and_left, exists_eq_left'] at hswap
  obtain ⟨hrequested, before, hbefore, stored, hstored, -, -, -, -, -, hfloor, decayed, hdecay,
    paidA, hpaidA, paidB, hpaidB, amountAIn, hinA, amountBIn, hinB, hfunded, adjA, hadjA, adjB,
    hadjB, -, -, -, -, -, -, hproduct, tokenA, htokenA, tokenB, htokenB, -, -, -, -, -, -, tracked,
    htracked, hresult⟩ := hswap
  obtain ⟨hchargedA, rfl⟩ := feeAdjusted_ok hadjA
  obtain ⟨hchargedB, rfl⟩ := feeAdjusted_ok hadjB
  have hinput : 0 < amountAIn ∨ 0 < amountBIn := by omega
  cases hresult
  exact ⟨before, _, stored, decayed, paidA, paidB,
    { requested := by omega
      pairState := hbefore
      feeState := hstored
      decay := hdecay
      fee := rfl
      sideA := ⟨by omega, hpaidA, inferInput_ok hinA, hchargedA, htokenA, rfl⟩
      sideB := ⟨by omega, hpaidB, inferInput_ok hinB, hchargedB, htokenB, rfl⟩
      funded := hinput
      product := not_lt.mp hproduct
      pairState' := rfl
      storage := rfl
      tracked := ⟨tracked, htracked, rfl⟩
      frame := ⟨rfl, rfl, rfl, rfl⟩ }⟩

theorem swap_ok {env : Env contract} {w w' : World Address} {amountAOut amountBOut : ℤ}
    {dst : Address} {event : SwapEvent}
    (hswap : swap env w amountAOut amountBOut dst = .ok (w', event)) :
    w.pair.frozen = false ∧ w.pair.locked = false ∧
    ∃ before after stored decayed paidA paidB,
      SwapSettles env w amountAOut amountBOut dst before after stored decayed paidA paidB w' event := by
  simp only [swap, bind_eq_ok, World.acquireLock_eq_ok, World.ensureNotFrozen_eq_ok, pure_eq_ok,
    exists_const] at hswap
  obtain ⟨_, ⟨hunlocked, rfl⟩, hfrozen, ⟨settled, _⟩, hinner, hresult⟩ := hswap
  cases hresult
  obtain ⟨before, after, stored, decayed, paidA, paidB, hsettles⟩ := swapInner_ok hinner
  refine ⟨hfrozen, hunlocked, before, after, stored, decayed, paidA, paidB, ?_⟩
  exact { hsettles with
    frame := ⟨hsettles.frame.1, hsettles.frame.2.1, hsettles.frame.2.2.1, hunlocked.symm⟩ }

/-! ### The rate charged -/

def chargedFeeBps (env : Env contract) (w : World Address) : Call PairError ℕ := do
  let feeState ← w.getFeeState
  let decayed ← feeState.decayStaleEma env
  pure (env.effectiveFeeBps decayed.computeFeeBps)

omit [DecidableEq Address] in
theorem chargedFeeBps_ok {env : Env contract} {w : World Address} {feeBps : ℕ} :
    chargedFeeBps env w = .ok feeBps ↔ ∃ stored decayed, w.pair.feeState = some stored ∧
      stored.decayStaleEma env = .ok decayed ∧ env.effectiveFeeBps decayed.computeFeeBps = feeBps := by
  simp only [chargedFeeBps, bind_eq_ok, World.getFeeState_eq_ok, pure_eq_ok]
  constructor
  · rintro ⟨stored, hstored, decayed, hdecay, hfee⟩
    exact ⟨stored, decayed, hstored, hdecay, hfee⟩
  · rintro ⟨stored, decayed, hstored, hdecay, hfee⟩
    exact ⟨stored, hstored, decayed, hdecay, hfee⟩

theorem chargedFeeBps_of_swap {env : Env contract} {w w' : World Address} {amountAOut amountBOut : ℤ}
    {dst : Address} {before after : PairStorage Address} {stored decayed : FeeState}
    {paidA paidB : Token Address} {event : SwapEvent}
    (hswap : SwapSettles env w amountAOut amountBOut dst before after stored decayed paidA paidB w'
      event) : chargedFeeBps env w = .ok event.feeBps :=
  chargedFeeBps_ok.mpr ⟨stored, decayed, hswap.feeState, hswap.decay, hswap.fee.symm⟩

/-! ### The protocol fee -/

omit [DecidableEq Address] in
theorem protocolFee_nonneg (env : Env contract) {amountIn : ℤ} (feeBps : ℕ) (hin : 0 ≤ amountIn) :
    0 ≤ env.protocolFee amountIn feeBps := by
  unfold Env.protocolFee
  split
  · have hcharged : 0 ≤ i128.saturatingMul amountIn feeBps :=
      Word.saturate_nonneg (by decide) (mul_nonneg hin (Int.natCast_nonneg _))
    have hshare : 0 ≤ i128.saturatingMul (i128.saturatingMul amountIn feeBps) env.protocolFeeBps :=
      Word.saturate_nonneg (by decide) (mul_nonneg hcharged (Int.natCast_nonneg _))
    exact Int.tdiv_nonneg hshare (by decide)
  · exact le_rfl

omit [DecidableEq Address] in
theorem protocolFeeBps_le (env : Env contract) : env.protocolFeeBps ≤ 10000 := by
  unfold Env.protocolFeeBps
  split
  · exact min_le_right _ _
  · exact Nat.zero_le _

omit [DecidableEq Address] in
/-- What the protocol takes of an input is at most its share of the fee on it. -/
theorem protocolFee_share_le (env : Env contract) {amountIn : ℤ} (feeBps : ℕ) (hin : 0 ≤ amountIn) :
    env.protocolFee amountIn feeBps * 100000000 ≤ amountIn * feeBps * env.protocolFeeBps := by
  have hfee : 0 ≤ amountIn * (feeBps : ℤ) := mul_nonneg hin (Int.natCast_nonneg _)
  have hbps : (0 : ℤ) ≤ env.protocolFeeBps := Int.natCast_nonneg _
  unfold Env.protocolFee
  split
  · have hcharged : 0 ≤ i128.saturatingMul amountIn feeBps := Word.saturate_nonneg (by decide) hfee
    have hshare : 0 ≤ i128.saturatingMul amountIn feeBps * (env.protocolFeeBps : ℤ) :=
      mul_nonneg hcharged hbps
    calc
      _ ≤ i128.saturatingMul (i128.saturatingMul amountIn feeBps) env.protocolFeeBps :=
        tdiv_mul_le (Word.saturate_nonneg (by decide) hshare) (by decide)
      _ ≤ i128.saturatingMul amountIn feeBps * (env.protocolFeeBps : ℤ) :=
        Word.saturate_le (le_trans (by decide) hshare)
      _ ≤ amountIn * feeBps * env.protocolFeeBps := by
        refine mul_le_mul_of_nonneg_right ?_ hbps
        exact Word.saturate_le (le_trans (by decide) hfee)
  · rw [zero_mul]
    exact mul_nonneg hfee hbps

omit [DecidableEq Address] in
theorem protocolFee_mul_le (env : Env contract) {amountIn : ℤ} (feeBps : ℕ) (hin : 0 ≤ amountIn) :
    env.protocolFee amountIn feeBps * bpsDenominator ≤ amountIn * feeBps := by
  have hfee : 0 ≤ amountIn * (feeBps : ℤ) := mul_nonneg hin (Int.natCast_nonneg _)
  have hbps : (env.protocolFeeBps : ℤ) ≤ 10000 := by exact_mod_cast protocolFeeBps_le env
  have hshare := (protocolFee_share_le env feeBps hin).trans (mul_le_mul_of_nonneg_left hbps hfee)
  unfold bpsDenominator
  omega

omit [DecidableEq Address] in
theorem protocolFee_le (env : Env contract) {amountIn : ℤ} {feeBps : ℕ} (hin : 0 ≤ amountIn)
    (hfee : (feeBps : ℤ) ≤ bpsDenominator) : env.protocolFee amountIn feeBps ≤ amountIn := by
  refine le_of_mul_le_mul_right ((protocolFee_mul_le env feeBps hin).trans ?_)
    (show (0 : ℤ) < bpsDenominator by decide)
  exact mul_le_mul_of_nonneg_left hfee hin

theorem sub_le_balance_of_collectProtocolFee {env : Env contract} {t t' : Token Address} {fee : ℤ}
    (hfee : 0 ≤ fee) (hcollect : env.collectProtocolFee t fee = .ok t') :
    t.balance contract - fee ≤ t'.balance contract := by
  unfold Env.collectProtocolFee at hcollect
  split at hcollect
  · have hpaid := sub_max_le_balance_of_payOut hcollect
    rwa [max_eq_left hfee] at hpaid
  · obtain rfl := pure_eq_ok.mp hcollect
    omega

theorem balance_of_collectProtocolFee {env : Env contract} {t t' : Token Address} {amountIn : ℤ}
    {feeBps : ℕ} (hto : env.protocolFeeTo ≠ some contract) (hin : 0 ≤ amountIn)
    (hcollect : env.collectProtocolFee t (env.protocolFee amountIn feeBps) = .ok t') :
    t'.balance contract = t.balance contract - env.protocolFee amountIn feeBps := by
  have hfee := protocolFee_nonneg env feeBps hin
  unfold Env.collectProtocolFee at hcollect
  split at hcollect
  · rename_i feeTo hfeeTo
    rcases payOut_ok hcollect with ⟨-, htransfer⟩ | ⟨hnonpos, rfl⟩
    · refine Token.balance_src_of_transfer htransfer ?_
      rintro rfl
      exact hto hfeeTo
    · omega
  · rename_i hnone
    obtain rfl := pure_eq_ok.mp hcollect
    simp [Env.protocolFee, hnone]

theorem others_le_of_collectProtocolFee {env : Env contract} {t t' : Token Address} {who : Address}
    {fee : ℤ} (hne : who ≠ contract) (hcollect : env.collectProtocolFee t fee = .ok t') :
    t.balance who ≤ t'.balance who := by
  unfold Env.collectProtocolFee at hcollect
  split at hcollect
  · rw [others_balance_of_payOut hne hcollect]
    have hfee := le_max_right fee 0
    split_ifs <;> omega
  · obtain rfl := pure_eq_ok.mp hcollect
    exact le_rfl

theorem others_eq_of_collectProtocolFee {env : Env contract} {t t' : Token Address} {who : Address}
    {fee : ℤ} (hne : who ≠ contract) (hto : env.protocolFeeTo ≠ some who)
    (hcollect : env.collectProtocolFee t fee = .ok t') : t'.balance who = t.balance who := by
  unfold Env.collectProtocolFee at hcollect
  split at hcollect
  · rename_i feeTo hfeeTo
    have hother : who ≠ feeTo := by
      rintro rfl
      exact hto hfeeTo
    rw [others_balance_of_payOut hne hcollect, if_neg hother, add_zero]
  · obtain rfl := pure_eq_ok.mp hcollect
    rfl

namespace SideSettles

variable {env : Env contract} {feeBps : ℕ} {dst : Address} {reserve amountOut amountIn reserve' : ℤ}
variable {before paid after : Token Address}

theorem amountIn_nonneg
    (hside : SideSettles env feeBps dst reserve amountOut before paid after amountIn reserve') :
    0 ≤ amountIn := by
  rw [hside.input]
  exact le_max_right _ _

theorem reserve_le_balance
    (hside : SideSettles env feeBps dst reserve amountOut before paid after amountIn reserve') :
    reserve' ≤ after.balance contract := by
  rw [hside.settled]
  exact sub_le_balance_of_collectProtocolFee (protocolFee_nonneg env _ hside.amountIn_nonneg)
    hside.collected

theorem reserve_eq_balance (hto : env.protocolFeeTo ≠ some contract)
    (hside : SideSettles env feeBps dst reserve amountOut before paid after amountIn reserve') :
    reserve' = after.balance contract := by
  rw [hside.settled, balance_of_collectProtocolFee hto hside.amountIn_nonneg hside.collected]

/-- What one side of a swap moves, apart from what the pair itself holds. -/
theorem others_le {who : Address} (hne : who ≠ contract)
    (hside : SideSettles env feeBps dst reserve amountOut before paid after amountIn reserve') :
    before.balance who + (if who = dst then max amountOut 0 else 0) ≤ after.balance who := by
  rw [← others_balance_of_payOut hne hside.payout]
  exact others_le_of_collectProtocolFee hne hside.collected

theorem others_eq {who : Address} (hne : who ≠ contract)
    (hside : SideSettles env feeBps dst reserve amountOut before paid after amountIn reserve')
    (hto : env.protocolFeeTo ≠ some who) :
    after.balance who = before.balance who + if who = dst then max amountOut 0 else 0 := by
  rw [← others_balance_of_payOut hne hside.payout]
  exact others_eq_of_collectProtocolFee hne hto hside.collected

end SideSettles

/-! ### The record of the pair -/

/-- What a swap writes of the pair: its state, its fee state and, if a protocol fee is taken, the fees counted. -/
def WritesPair (env : Env contract) (w : World Address) (result : World Address × SwapEvent) : Prop :=
  ∃ state fs, result.1.pair =
    { w.pair with
      pairState := some state
      feeState := some fs
      protocolFeeA :=
        if 0 < env.protocolFee result.2.amountAIn result.2.feeBps ∨
            0 < env.protocolFee result.2.amountBIn result.2.feeBps then
          i128.saturatingAdd w.pair.protocolFeeA (env.protocolFee result.2.amountAIn result.2.feeBps)
        else w.pair.protocolFeeA
      protocolFeeB :=
        if 0 < env.protocolFee result.2.amountAIn result.2.feeBps ∨
            0 < env.protocolFee result.2.amountBIn result.2.feeBps then
          i128.saturatingAdd w.pair.protocolFeeB (env.protocolFee result.2.amountBIn result.2.feeBps)
        else w.pair.protocolFeeB }

theorem swapInner_writesPair (env : Env contract) (w : World Address) (amountAOut amountBOut : ℤ)
    (dst : Address) : Returns (WritesPair env w) (swapInner env w amountAOut amountBOut dst) := by
  unfold swapInner
  -- only the last step builds the world that is returned
  repeat refine .bind fun _ => ?_
  exact .ret ⟨_, _, rfl⟩

/-- The flags a factory sets on its pairs. -/
structure SameFlags (w w' : World Address) : Prop where
  paused : w'.pair.lpTokenPaused = w.pair.lpTokenPaused
  frozen : w'.pair.frozen = w.pair.frozen

theorem sameFlags_of_swapInner {env : Env contract} {w w' : World Address} {amountAOut amountBOut : ℤ}
    {dst : Address} {event : SwapEvent}
    (hswap : swapInner env w amountAOut amountBOut dst = .ok (w', event)) : SameFlags w w' := by
  obtain ⟨state, fs, hpair⟩ := swapInner_writesPair env w amountAOut amountBOut dst _ hswap
  exact ⟨by rw [hpair], by rw [hpair]⟩

theorem sameFlags_of_swap {env : Env contract} {w w' : World Address} {amountAOut amountBOut : ℤ}
    {dst : Address} {event : SwapEvent}
    (hswap : swap env w amountAOut amountBOut dst = .ok (w', event)) : SameFlags w w' := by
  simp only [swap, bind_eq_ok, World.acquireLock_eq_ok, pure_eq_ok] at hswap
  obtain ⟨_, ⟨-, rfl⟩, _, -, ⟨settled, _⟩, hinner, hresult⟩ := hswap
  have hflags := sameFlags_of_swapInner hinner
  cases hresult
  exact ⟨hflags.paused, hflags.frozen⟩

end CoralSwap
