import CoralSwap.Proof.PairEffects

/-!
# The one-token mint against its parts

The one-token mint is documented as a swap followed by a mint. Its internal swap pays the pair itself
and books the whole deposit, and the mint then books its part of the deposit again. The parts, called
one after the other by the user, book every token once. The two never leave the same reserves.
-/

namespace CoralSwap

open Host Host.Call

variable {Address : Type} [DecidableEq Address] {contract : Address}

/-- A swap of `swapIn` for `swapOut`, then a mint on what remains of `amount` and on the output, each
paid for by a transfer of `dst`. -/
def swapThenMint (env : Env contract) (w : World Address) (dst : Address) (tokenInIsA : Bool)
    (amount swapIn swapOut : ℤ) : Call PairError (World Address × ℤ) := do
  let sent ← moveToken w tokenInIsA dst contract swapIn
  let (swapped, _) ← swap env sent (if tokenInIsA then 0 else swapOut)
    (if tokenInIsA then swapOut else 0) dst
  let sentIn ← moveToken swapped tokenInIsA dst contract (amount - swapIn)
  let sentOut ← moveToken sentIn (!tokenInIsA) dst contract swapOut
  mint env sentOut dst

/-- Two worlds agree on the pair's reserves, its balances and the LP supply, and the same shares were
issued on the way to them. -/
structure SameOutcome (contract : Address) (w₁ w₂ : World Address) (lpMinted₁ lpMinted₂ : ℤ) : Prop where
  reserveA : w₁.reserveA = w₂.reserveA
  reserveB : w₁.reserveB = w₂.reserveB
  balanceA : w₁.tokenA.balance contract = w₂.tokenA.balance contract
  balanceB : w₁.tokenB.balance contract = w₂.tokenB.balance contract
  totalSupply : w₁.lp.totalSupply = w₂.lp.totalSupply
  lpMinted : lpMinted₁ = lpMinted₂

def Env.ProtocolFeeOff (env : Env contract) : Prop :=
  env.protocolFeeTo = none ∨ env.protocolFeeBps = 0

section Sides

variable {env : Env contract} {w w' : World Address} {dst : Address}

omit [DecidableEq Address] in
theorem SameOutcome.reserve {w₁ w₂ : World Address} {lpMinted₁ lpMinted₂ : ℤ}
    (hsame : SameOutcome contract w₁ w₂ lpMinted₁ lpMinted₂) (isA : Bool) :
    w₁.reserve isA = w₂.reserve isA := by
  cases isA
  · exact hsame.reserveB
  · exact hsame.reserveA

omit [DecidableEq Address] in
theorem Env.ProtocolFeeOff.protocolFee_eq_zero (hoff : env.ProtocolFeeOff) (amountIn fee : ℤ) :
    env.protocolFee amountIn fee = 0 := by
  unfold Env.protocolFee
  rcases hoff with hnone | hzero
  · simp [hnone]
  · simp [hzero]

theorem SideSettles.books_paid {feeBps : ℕ} {reserve amountOut amountIn reserve' : ℤ}
    {before paid after : Token Address} (hoff : env.ProtocolFeeOff)
    (hside : SideSettles env feeBps dst reserve amountOut before paid after amountIn reserve') :
    after = paid ∧ reserve' = paid.balance contract := by
  have hfee := hoff.protocolFee_eq_zero amountIn feeBps
  have hcollected := hside.collected
  rw [hfee] at hcollected
  refine ⟨?_, by rw [hside.settled, hfee, sub_zero]⟩
  unfold Env.collectProtocolFee at hcollected
  split at hcollected
  · obtain ⟨habsurd, -⟩ | ⟨-, hafter⟩ := payOut_ok hcollected
    · exact absurd habsurd (lt_irrefl 0)
    · exact hafter
  · exact (pure_eq_ok.mp hcollected).symm

theorem SideSettles.books_balance {feeBps : ℕ} {reserve amountIn reserve' : ℤ}
    {before paid after : Token Address} (hoff : env.ProtocolFeeOff)
    (hside : SideSettles env feeBps dst reserve 0 before paid after amountIn reserve') :
    after = before ∧ reserve' = before.balance contract := by
  obtain ⟨habsurd, -⟩ | ⟨-, rfl⟩ := payOut_ok hside.payout
  · exact absurd habsurd (lt_irrefl 0)
  · exact hside.books_paid hoff

theorem SwapSettles.books_input {isA : Bool} {swapOut : ℤ} {before after : PairStorage Address}
    {stored decayed : FeeState} {paidA paidB : Token Address} {event : SwapEvent}
    (hoff : env.ProtocolFeeOff)
    (hswap : SwapSettles env w (if isA then 0 else swapOut) (if isA then swapOut else 0) dst before
      after stored decayed paidA paidB w' event) :
    w'.token isA = w.token isA ∧ after.reserve isA = (w.token isA).balance contract := by
  cases isA
  · exact hswap.sideB.books_balance hoff
  · exact hswap.sideA.books_balance hoff

theorem moveToken_balance {isA : Bool} {amount : ℤ} (hne : dst ≠ contract)
    (hmove : moveToken w isA dst contract amount = .ok w') :
    (w'.token isA).balance contract = (w.token isA).balance contract + amount ∧
      (w'.token (!isA)) = w.token (!isA) := by
  obtain ⟨htransfer, hkept, -, -⟩ := moveToken_ok hmove
  exact ⟨Token.balance_dst_of_transfer htransfer hne, hkept⟩

theorem MintSettles.books_balance {state : PairStorage Address} {seeded lp : LpToken Address}
    {liquidity : ℤ} (isA : Bool) (hmint : MintSettles env w dst state seeded lp w' liquidity) :
    w'.reserve isA = (w.token isA).balance contract := by
  obtain rfl := hmint.result
  cases isA <;> rfl

end Sides

section Composite

variable {env : Env contract} {w w' : World Address} {dst tokenIn : Address}
variable {amount minLpOut : ℤ}

/-- What a one-token mint books on the side of its input: the whole deposit, and the part it mints on
again. -/
theorem reserve_of_mintWithOneToken {state : PairStorage Address} {isA : Bool}
    {published : MintSingleSideEvent} (hoff : env.ProtocolFeeOff)
    (hstate : w.pair.pairState = some state) (hside : tokenSide state tokenIn = .ok isA)
    (hmint : mintWithOneToken env w dst tokenIn amount minLpOut = .ok (w', published)) :
    w'.reserve isA = (w.token isA).balance contract + amount + (amount - published.swapIn) := by
  obtain ⟨state', _, isA', _, swapped, _, postSwap, _, hmint⟩ := mintWithOneToken_ok hmint
  obtain rfl : state' = state := Option.some.inj (hmint.pairState.symm.trans hstate)
  obtain rfl : isA' = isA := Except.ok.inj (hmint.side.symm.trans hside)
  obtain ⟨_, after, _, _, _, _, hswap⟩ := swapIntoPair_ok hmint.swap
  obtain rfl : postSwap = after := Option.some.inj (hmint.postSwapState.symm.trans hswap.pairState')
  obtain ⟨hpulled, -⟩ := moveToken_balance (Env.ne_contract_of_auth hmint.authorised) hmint.pull
  obtain ⟨-, hbooked⟩ := hswap.books_input hoff
  rw [hpulled] at hbooked
  obtain rfl := hmint.result
  rw [World.reserve_of_pairState isA' rfl]
  cases isA'
  · exact congrArg (· + (amount - published.swapIn)) hbooked
  · exact congrArg (· + (amount - published.swapIn)) hbooked

/-- What the parts book on the side of the input: the deposit, once. -/
theorem reserve_of_swapThenMint {isA : Bool} {swapIn swapOut liquidity : ℤ}
    (hoff : env.ProtocolFeeOff) (hne : dst ≠ contract)
    (hparts : swapThenMint env w dst isA amount swapIn swapOut = .ok (w', liquidity)) :
    w'.reserve isA = (w.token isA).balance contract + amount := by
  simp only [swapThenMint, bind_eq_ok, Prod.exists] at hparts
  obtain ⟨sent, hsent, swapped, event, hswap, sentIn, hsentIn, sentOut, hsentOut, hmint⟩ := hparts
  obtain ⟨-, -, _, _, _, _, _, _, hswap⟩ := swap_ok hswap
  obtain ⟨_, _, _, hmint⟩ := mint_ok hmint
  obtain ⟨hsentBalance, -⟩ := moveToken_balance hne hsent
  obtain ⟨hswapped, -⟩ := hswap.books_input hoff
  obtain ⟨hsentInBalance, -⟩ := moveToken_balance hne hsentIn
  obtain ⟨-, hsentOutToken⟩ := moveToken_balance hne hsentOut
  rw [Bool.not_not] at hsentOutToken
  rw [hmint.books_balance isA, hsentOutToken, hsentInBalance, hswapped, hsentBalance]
  ring

/-- **The composite.** Whenever the one-token mint and its parts both go through, they end with
different stored reserves on the side of the input. -/
theorem mintWithOneToken_ne_swapThenMint {state : PairStorage Address} {isA : Bool}
    {composed : World Address} {published : MintSingleSideEvent} {liquidity : ℤ}
    (hoff : env.ProtocolFeeOff) (hstate : w.pair.pairState = some state)
    (hside : tokenSide state tokenIn = .ok isA)
    (hmint : mintWithOneToken env w dst tokenIn amount minLpOut = .ok (w', published))
    (hparts : swapThenMint env w dst isA amount published.swapIn published.swapOut =
      .ok (composed, liquidity)) :
    ¬SameOutcome contract w' composed published.lpMinted liquidity := by
  intro hsame
  obtain ⟨_, _, _, _, _, _, _, _, hsettles⟩ := mintWithOneToken_ok hmint
  have hsplit := hsettles.swapIn_lt
  have hne := Env.ne_contract_of_auth hsettles.authorised
  have hbooked := hsame.reserve isA
  rw [reserve_of_mintWithOneToken hoff hstate hside hmint, reserve_of_swapThenMint hoff hne hparts]
    at hbooked
  omega

end Composite

theorem tokenSide_openedPool :
    ∃ state, (openedPool (Env.quiet 0 1 1 none) 20000 20000).pair.pairState = some state ∧
      tokenSide state 10 = .ok true := by
  obtain ⟨state, hstate⟩ : ∃ state,
      (openedPool (Env.quiet 0 1 1 none) 20000 20000).pair.pairState = some state :=
    Option.isSome_iff_exists.mp (by decide +kernel)
  have htokenA : (openedPool (Env.quiet 0 1 1 none) 20000 20000).pair.pairState.map
      PairStorage.tokenA = some 10 := by
    decide +kernel
  rw [hstate] at htokenA
  exact ⟨state, hstate, by simp [tokenSide, Option.some.inj htokenA, pure, Except.pure]⟩

theorem mintWithOneToken_ne_swapThenMint_opened :
    let env : Env 0 := Env.quiet 0 1 1 none
    let pool : World ℕ := openedPool env 20000 20000
    ∃ w' composed, mintWithOneToken env pool 1 10 10000 1 = .ok (w', ⟨4501, 3665, 3665⟩) ∧
      swapThenMint env pool 1 true 10000 4501 3665 = .ok (composed, 4487) ∧
      ¬SameOutcome 0 w' composed 3665 4487 := by
  intro env pool
  obtain ⟨⟨w', _⟩, hmint, rfl⟩ := exists_ok_of_map_eq
    (show Prod.snd <$> mintWithOneToken env pool 1 10 10000 1 = .ok ⟨4501, 3665, 3665⟩ by
      decide +kernel)
  obtain ⟨⟨composed, _⟩, hparts, rfl⟩ := exists_ok_of_map_eq
    (show Prod.snd <$> swapThenMint env pool 1 true 10000 4501 3665 = .ok 4487 by decide +kernel)
  obtain ⟨state, hstate, hside⟩ := tokenSide_openedPool
  exact ⟨w', composed, hmint, hparts,
    mintWithOneToken_ne_swapThenMint (Or.inl rfl) hstate hside hmint hparts⟩

/-- In a pool of 20000 and 20000 a deposit of 10000 goes through both ways: the one-token mint books
35499 where its parts book 30000. -/
theorem mintWithOneToken_not_composite :
    ¬∀ (env : Env (0 : ℕ)) (w : World ℕ) (dst tokenIn : ℕ) (amount minLpOut liquidity : ℤ)
      (state : PairStorage ℕ) (fs : FeeState) (isA : Bool) (w' composed : World ℕ)
      (published : MintSingleSideEvent),
      w.pair.pairState = some state → w.pair.feeState = some fs → 0 < w.reserveA → 0 < w.reserveB →
      w.tokenA.balance 0 = w.reserveA → w.tokenB.balance 0 = w.reserveB →
      env.factory.getPairFeeOverride = some none → env.ProtocolFeeOff →
      fs.decayStaleEma env = .ok fs → tokenSide state tokenIn = .ok isA →
      mintWithOneToken env w dst tokenIn amount minLpOut = .ok (w', published) →
      swapThenMint env w dst isA amount published.swapIn published.swapOut =
        .ok (composed, liquidity) →
      SameOutcome 0 w' composed published.lpMinted liquidity := by
  intro hlaw
  obtain ⟨⟨w', published⟩, hmint, hmintResult⟩ := exists_ok_of_map_eq
    (show (fun r : World ℕ × MintSingleSideEvent => (r.1.reserveA, r.2)) <$>
      mintWithOneToken (Env.quiet 0 1 1 none) (openedPool (Env.quiet 0 1 1 none) 20000 20000) 1 10
        10000 1 = .ok (35499, ⟨4501, 3665, 3665⟩) by decide +kernel)
  obtain ⟨⟨composed, liquidity⟩, hparts, hpartsResult⟩ := exists_ok_of_map_eq
    (show (fun r : World ℕ × ℤ => (r.1.reserveA, r.2)) <$>
      swapThenMint (Env.quiet 0 1 1 none) (openedPool (Env.quiet 0 1 1 none) 20000 20000) 1 true
        10000 4501 3665 = .ok (30000, 4487) by decide +kernel)
  obtain ⟨hmintReserve, hpublished⟩ := Prod.mk.inj hmintResult
  have hsplit : published.swapIn = 4501 ∧ published.swapOut = 3665 := by
    dsimp only at hpublished
    rw [hpublished]
    exact ⟨rfl, rfl⟩
  rw [← hsplit.1, ← hsplit.2] at hparts
  obtain ⟨state, hstate, hside⟩ := tokenSide_openedPool
  have hsame := hlaw (Env.quiet 0 1 1 none) (openedPool (Env.quiet 0 1 1 none) 20000 20000) 1 10 10000 1
    liquidity state FeeState.initial true w' composed published hstate (by rfl) (by decide +kernel)
    (by decide +kernel) (by decide +kernel) (by decide +kernel) rfl (Or.inl rfl) rfl hside hmint hparts
  have hreserve : (35499 : ℤ) = 30000 := by
    rw [← hmintReserve, ← (Prod.mk.inj hpartsResult).1]
    exact hsame.reserveA
  exact absurd hreserve (by decide)

end CoralSwap
