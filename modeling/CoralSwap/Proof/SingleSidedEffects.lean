import CoralSwap.Pair.SingleSided
import CoralSwap.Proof.LiquidityEffects
import CoralSwap.Proof.SwapEffects

/-!
# What an accepted single-sided operation does

Both operations are symmetric in the pair's tokens, so their records speak of a side and the other
side.
-/

namespace CoralSwap

open Host Host.Call

variable {Address : Type}

def PairStorage.reserve (state : PairStorage Address) (isA : Bool) : ℤ :=
  if isA then state.reserveA else state.reserveB

def World.reserve (w : World Address) (isA : Bool) : ℤ := if isA then w.reserveA else w.reserveB

def World.token (w : World Address) (isA : Bool) : Token Address :=
  if isA then w.tokenA else w.tokenB

theorem PairStorage.reserve_not (state : PairStorage Address) (isA : Bool) :
    state.reserve (!isA) = if isA then state.reserveB else state.reserveA := by
  cases isA <;> rfl

theorem World.reserve_of_pairState {w : World Address} {state : PairStorage Address} (isA : Bool)
    (hstate : w.pair.pairState = some state) : w.reserve isA = state.reserve isA := by
  cases isA
  · exact World.reserveB_of_pairState hstate
  · exact World.reserveA_of_pairState hstate

theorem World.reserve_eq_of_pairState {w w' : World Address}
    (hstate : w'.pair.pairState = w.pair.pairState) : w'.reserve = w.reserve := by
  funext isA
  cases isA <;> simp only [World.reserve, World.reserveA, World.reserveB, hstate]

variable [DecidableEq Address] {contract : Address}

theorem moveToken_ok {w w' : World Address} {isA : Bool} {src dst : Address} {amount : ℤ}
    (hmove : moveToken w isA src dst amount = .ok w') :
    (w.token isA).transfer src dst amount = some (w'.token isA) ∧
      w'.token (!isA) = w.token (!isA) ∧ w'.pair = w.pair ∧ w'.lp = w.lp := by
  cases isA <;>
  · simp only [moveToken, if_true, Bool.false_eq_true, if_false, bind_eq_ok, orTrap_eq_ok,
      pure_eq_ok] at hmove
    obtain ⟨_, htransfer, rfl⟩ := hmove
    exact ⟨htransfer, rfl, rfl, rfl⟩

theorem subsequentLiquidity_ok {amountA amountB reserveA reserveB totalSupply liquidity : ℤ}
    (hprice :
      subsequentLiquidity amountA amountB reserveA reserveB totalSupply = .ok liquidity) :
    liquidity = min ((amountA * totalSupply).tdiv reserveA) ((amountB * totalSupply).tdiv reserveB) := by
  simp only [subsequentLiquidity, bind_eq_ok, pure_eq_ok, share_eq_ok, and_assoc, exists_and_left,
    exists_eq_left'] at hprice
  obtain ⟨-, -, -, -, -, -, -, -, -, -, hresult⟩ := hprice
  exact hresult.symm

/-! ### Mint with one token -/

theorem swapIntoPair_ok {env : Env contract} {w w' : World Address} {isA : Bool} {swapOut : ℤ}
    {event : SwapEvent} (hswap : swapIntoPair env w isA swapOut = .ok (w', event)) :
    ∃ before after stored decayed paidA paidB,
      SwapSettles env w (if isA then 0 else swapOut) (if isA then swapOut else 0) contract before after
        stored decayed paidA paidB w' event := by
  cases isA <;> exact swapInner_ok hswap

theorem sameFlags_of_swapIntoPair {env : Env contract} {w w' : World Address} {isA : Bool}
    {swapOut : ℤ} {event : SwapEvent} (hswap : swapIntoPair env w isA swapOut = .ok (w', event)) :
    SameFlags w w' := by
  cases isA <;> exact sameFlags_of_swapInner hswap

structure MintWithOneTokenSettles (env : Env contract) (w : World Address) (dst tokenIn : Address)
    (amount minLpOut : ℤ) (state : PairStorage Address) (stored : FeeState) (isA : Bool)
    (pulled swapped : World Address) (event : SwapEvent) (postSwap : PairStorage Address)
    (lp : LpToken Address) (w' : World Address) (published : MintSingleSideEvent) : Prop where
  authorised : env.auth dst = true
  unlocked : w.pair.locked = false
  unfrozen : w.pair.frozen = false
  unpaused : w.pair.lpTokenPaused = false
  pairState : w.pair.pairState = some state
  feeState : w.pair.feeState = some stored
  side : tokenSide state tokenIn = .ok isA
  reserveIn_pos : 0 < state.reserve isA
  reserveOut_pos : 0 < state.reserve (!isA)
  sized : computeSwapInForSingleSide (state.reserve isA) amount (mintWithOneTokenFeeBps stored) =
    .ok published.swapIn
  swapIn_pos : 0 < published.swapIn
  swapIn_lt : published.swapIn < amount
  pull : moveToken { w with pair := { w.pair with locked := true } } isA dst contract amount =
    .ok pulled
  quoted : quoteOutputAmount published.swapIn (state.reserve isA) (state.reserve (!isA))
    (mintWithOneTokenFeeBps stored) = .ok published.swapOut
  swapOut_pos : 0 < published.swapOut
  swap : swapIntoPair env pulled isA published.swapOut = .ok (swapped, event)
  postSwapState : swapped.pair.pairState = some postSwap
  supply : swapped.lp.totalSupply ≠ 0
  shares : published.lpMinted =
    min (((if isA then amount - published.swapIn else published.swapOut) *
        swapped.lp.totalSupply).tdiv postSwap.reserveA)
      (((if isA then published.swapOut else amount - published.swapIn) *
        swapped.lp.totalSupply).tdiv postSwap.reserveB)
  worth : minLiquidityForUser ≤ published.lpMinted
  slippage : minLpOut ≤ published.lpMinted
  minted : swapped.lp.mint env.lpEnv dst published.lpMinted = .ok lp
  result : w' = { swapped with
    lp
    pair := { swapped.pair with
      locked := false
      pairState := some { postSwap with
        reserveA :=
          postSwap.reserveA + if isA then amount - published.swapIn else published.swapOut
        reserveB :=
          postSwap.reserveB + if isA then published.swapOut else amount - published.swapIn
        kLast :=
          (postSwap.reserveA + if isA then amount - published.swapIn else published.swapOut) *
            (postSwap.reserveB + if isA then published.swapOut else amount - published.swapIn)
        blockTimestampLast := env.timestamp } } }

theorem mintWithOneToken_ok {env : Env contract} {w w' : World Address} {dst tokenIn : Address}
    {amount minLpOut : ℤ} {published : MintSingleSideEvent}
    (hmint : mintWithOneToken env w dst tokenIn amount minLpOut = .ok (w', published)) :
    ∃ state stored isA pulled swapped event postSwap lp,
      MintWithOneTokenSettles env w dst tokenIn amount minLpOut state stored isA pulled swapped event
        postSwap lp w' published := by
  simp only [mintWithOneToken, bind_eq_ok, failIf_eq_ok, okOr_eq_ok, require_eq_ok, nested_eq_ok,
    pure_eq_ok, Word.checkedSub_eq_some, Word.checkedAdd_eq_some, Word.checkedMul_eq_some,
    World.acquireLock_eq_ok, World.ensureNotFrozen_eq_ok, World.ensureLpTokenNotPaused_eq_ok,
    World.getPairState_eq_ok, World.getFeeState_eq_ok, getAmountOut_eq_ok, exists_const, and_assoc,
    exists_and_left, exists_eq_left', not_or, not_le, not_lt, Prod.exists] at hmint
  obtain ⟨hauth, hunlocked, hfrozen, state, hstate, stored, hstored, hunpaused, hamount, -, isA, hside,
    hreserveIn, hreserveOut, swapIn, hsized, hswapIn, hlt, pulled, hpull, swapOut, hquoted, hswapOut,
    -, -, -, -, swapped, event, hswap, postSwap, hpostSwap, hsupply, lpMinted, hshares, hpositive,
    hworth, hslippage, lp, hminted, -, -, -, -, -, -, hresult⟩ := hmint
  cases hresult
  exact ⟨state, stored, isA, pulled, swapped, event, postSwap, lp,
    { authorised := hauth
      unlocked := hunlocked
      unfrozen := hfrozen
      unpaused := hunpaused
      pairState := hstate
      feeState := hstored
      side := hside
      reserveIn_pos := hreserveIn
      reserveOut_pos := by rwa [PairStorage.reserve_not]
      sized := hsized
      swapIn_pos := hswapIn
      swapIn_lt := hlt
      pull := hpull
      quoted := by rwa [PairStorage.reserve_not]
      swapOut_pos := hswapOut
      swap := hswap
      postSwapState := hpostSwap
      supply := hsupply
      shares := subsequentLiquidity_ok hshares
      worth := hworth
      slippage := hslippage
      minted := hminted
      result := rfl }⟩

/-! ### Burn on a single side -/

theorem singleSideSwapOut_ok {shareUnwanted reserveUnwanted reservePreferred out : ℤ} {feeBps : ℕ}
    (hquote : singleSideSwapOut shareUnwanted reserveUnwanted reservePreferred feeBps = .ok out) :
    out = 0 ∨
      quoteOutputAmount shareUnwanted reserveUnwanted reservePreferred feeBps = .ok out := by
  unfold singleSideSwapOut at hquote
  split at hquote
  · exact Or.inl (pure_eq_ok.mp hquote).symm
  · split at hquote
    · rename_i quoted hquoted
      obtain rfl := pure_eq_ok.mp hquote
      exact Or.inr (getAmountOut_eq_ok.mp hquoted)
    · exact Or.inl (pure_eq_ok.mp hquote).symm
    · cases hquote

structure BurnSingleSideSettles (env : Env contract) (w : World Address) (dst : Address)
    (lpAmount : ℤ) (preferredToken : Address) (state : PairStorage Address) (stored : FeeState)
    (isA : Bool) (lp : LpToken Address) (sharePreferred shareUnwanted swapOut : ℤ)
    (w' : World Address) (totalOut : ℤ) : Prop where
  authorised : env.auth dst = true
  pairState : w.pair.pairState = some state
  feeState : w.pair.feeState = some stored
  positive : 0 < lpAmount
  side : tokenSide state preferredToken = .ok isA
  supply : w.lp.totalSupply ≠ 0
  burned : w.lp.burn env.lpEnv dst lpAmount = .ok lp
  burnable : w.lp.totalSupply - minimumLiquidity ≠ 0
  sharePreferred_eq : sharePreferred =
    (lpAmount * state.reserve isA).tdiv (w.lp.totalSupply - minimumLiquidity)
  shareUnwanted_eq : shareUnwanted =
    (lpAmount * state.reserve (!isA)).tdiv (w.lp.totalSupply - minimumLiquidity)
  sharePreferred_pos : 0 < sharePreferred
  shareUnwanted_pos : 0 < shareUnwanted
  quoted : singleSideSwapOut shareUnwanted (state.reserve (!isA) - shareUnwanted)
    (state.reserve isA - sharePreferred) (burnSingleSideFeeBps stored) = .ok swapOut
  total : totalOut = sharePreferred + swapOut
  product : (state.reserve isA - sharePreferred) * (state.reserve (!isA) - shareUnwanted) * 100000000 ≤
    (state.reserve isA - sharePreferred - swapOut) * bpsDenominator *
      feeScaled (state.reserve (!isA)) shareUnwanted (burnSingleSideFeeBps stored)
  paid : (w.token isA).transfer contract dst totalOut = some (w'.token isA)
  kept : w'.token (!isA) = w.token (!isA)
  pair' : w'.pair = { w.pair with
    locked := false
    pairState := some { state with
      reserveA := if isA then state.reserveA - sharePreferred - swapOut else state.reserveA
      reserveB := if isA then state.reserveB else state.reserveB - sharePreferred - swapOut
      kLast := (if isA then state.reserveA - sharePreferred - swapOut else state.reserveA) *
        (if isA then state.reserveB else state.reserveB - sharePreferred - swapOut)
      blockTimestampLast := env.timestamp } }
  lp' : w'.lp = lp

theorem burnSingleSide_ok {env : Env contract} {w w' : World Address} {dst : Address}
    {lpAmount : ℤ} {preferredToken : Address} {minAmountOut totalOut : ℤ}
    (hburn :
      burnSingleSide env w dst lpAmount preferredToken minAmountOut = .ok (w', totalOut)) :
    ∃ state stored isA lp sharePreferred shareUnwanted swapOut,
      BurnSingleSideSettles env w dst lpAmount preferredToken state stored isA lp sharePreferred
        shareUnwanted swapOut w' totalOut := by
  simp only [burnSingleSide, bind_eq_ok, failIf_eq_ok, okOr_eq_ok, require_eq_ok, nested_eq_ok,
    pure_eq_ok, share_eq_ok, Word.checkedSub_eq_some, Word.checkedAdd_eq_some,
    Word.checkedMul_eq_some, World.acquireLock_eq_ok, World.ensureNotFrozen_eq_ok,
    World.ensureLpTokenNotPaused_eq_ok, World.getPairState_eq_ok, World.getFeeState_eq_ok,
    exists_const, and_assoc, exists_and_left, exists_eq_left', not_or, not_le] at hburn
  obtain ⟨hauth, -, -, state, hstate, stored, hstored, -, hpositive, -, isA, hside, hsupply, lp, hburned, -,
    -, hburnable, -, -, -, -, -, -, -, -, -, -, hshareA, hshareB, -, -, -, -, swapOut, hquoted, -, -,
    -, -, -, -, -, -, -, -, -, -, -, -, -, -, -, -, -, hproduct, paid, hpaid, -, -, hresult⟩ := hburn
  obtain ⟨htransfer, hkept, hpair, hlp⟩ := moveToken_ok hpaid
  cases hresult
  cases isA <;>
  · simp only [Bool.false_eq_true, if_true, if_false] at hquoted hproduct htransfer
    exact ⟨state, stored, _, lp, _, _, swapOut,
      { authorised := hauth
        pairState := hstate
        feeState := hstored
        positive := hpositive
        side := hside
        supply := hsupply
        burned := hburned
        burnable := hburnable
        sharePreferred_eq := rfl
        shareUnwanted_eq := rfl
        sharePreferred_pos := by assumption
        shareUnwanted_pos := by assumption
        quoted := hquoted
        total := rfl
        product := not_lt.mp hproduct
        paid := htransfer
        kept := hkept
        pair' := by
          simp only [World.releaseLock, World.setPairState, hpair]
          rfl
        lp' := rfl }⟩

end CoralSwap
