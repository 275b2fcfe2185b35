import CoralSwap.Lib.Shares
import CoralSwap.Proof.PairEffects

/-!
# Depositing and withdrawing at once

A mint divides by the whole supply, a burn by the supply without the seed. A user who deposits and
at once withdraws therefore gains part of what belongs to the seed, unless the deposit is small
against the supply.
-/

namespace CoralSwap

open Host Host.Call

variable {Address : Type} [DecidableEq Address] {contract : Address}

/-- A deposit of `a` and `b` by `user`, at once staged and burned: the shares minted, and what the
burn pays out. -/
def depositAndWithdraw (env : Env contract) (w : World Address) (user : Address) (a b : ℤ) :
    Call PairError (ℤ × ℤ × ℤ) := do
  let sentA ← External.exec contract w (.transferA user contract a)
  let sentB ← External.exec contract sentA (.transferB user contract b)
  let (minted, liquidity) ← mint env sentB user
  let staged ← depositLp env minted user liquidity
  let (_, payout) ← burn env staged user
  pure (liquidity, payout)

def issuedLiquidity (w : World Address) (a b : ℤ) : ℤ :=
  min (Shares.issued a w.lp.totalSupply w.reserveA) (Shares.issued b w.lp.totalSupply w.reserveB)

/-- The seed's claim on either side of the deposit is covered by the supply after the mint and by
what the deposit lost to rounding and imbalance. -/
structure SeedCovered (w : World Address) (a b : ℤ) : Prop where
  sideA : minimumLiquidity * (a + 1) < w.lp.totalSupply + issuedLiquidity w a b +
    (a * w.lp.totalSupply - issuedLiquidity w a b * w.reserveA)
  sideB : minimumLiquidity * (b + 1) < w.lp.totalSupply + issuedLiquidity w a b +
    (b * w.lp.totalSupply - issuedLiquidity w a b * w.reserveB)

section Stages

variable {env : Env contract} {w w' : World Address} {user : Address}

theorem MintSettles.subsequent {state : PairStorage Address} {seeded lp : LpToken Address}
    {liquidity : ℤ} (hmint : MintSettles env w user state seeded lp w' liquidity)
    (hsupply : w.lp.totalSupply ≠ 0) :
    liquidity = min
        (Shares.issued (w.tokenA.balance contract - w.reserveA) w.lp.totalSupply w.reserveA)
        (Shares.issued (w.tokenB.balance contract - w.reserveB) w.lp.totalSupply w.reserveB) ∧
      w'.lp.totalSupply = w.lp.totalSupply + liquidity ∧
      w'.reserveA = w.tokenA.balance contract ∧ w'.reserveB = w.tokenB.balance contract ∧
      w'.pair.pendingLp = w.pair.pendingLp := by
  have hreserveA := World.reserveA_of_pairState hmint.pairState
  have hreserveB := World.reserveB_of_pairState hmint.pairState
  obtain ⟨hzero, -⟩ | ⟨-, rfl, -, -, hliquidity⟩ := mintedLiquidity_ok hmint.priced
  · exact absurd hzero hsupply
  obtain ⟨-, -, -, rfl⟩ := LpToken.mint_ok hmint.minted
  rw [hreserveA, hreserveB, hmint.result]
  exact ⟨hliquidity, rfl, rfl, rfl, rfl⟩

theorem DepositLpSettles.stages {amount : ℤ} {lp : LpToken Address}
    (hdeposit : DepositLpSettles env w user amount lp w') :
    w'.lp.totalSupply = w.lp.totalSupply ∧ w'.reserveA = w.reserveA ∧ w'.reserveB = w.reserveB ∧
      w'.pair.pendingLp user = w.pair.pendingLp user + amount := by
  obtain ⟨-, -, -, rfl⟩ := LpToken.transfer_ok hdeposit.moved
  obtain rfl := hdeposit.result
  exact ⟨rfl, rfl, rfl, Function.update_self _ _ _⟩

/-- A user with staged shares redeems just these. -/
theorem BurnSettles.burnLp_eq {state : PairStorage Address} {burnLp amountA amountB : ℤ}
    {lp : LpToken Address} {tokenA tokenB : Token Address}
    (hburn : BurnSettles env w user state burnLp lp tokenA tokenB w' amountA amountB)
    (hpending : 0 < w.pair.pendingLp user) : burnLp = w.pair.pendingLp user := by
  rcases hburn.redeems with ⟨-, hstage⟩ | ⟨hnone, -⟩
  · exact hstage
  · exact absurd hpending (not_lt.mpr hnone)

theorem BurnSettles.redeemsStage {state : PairStorage Address} {burnLp amountA amountB : ℤ}
    {lp : LpToken Address} {tokenA tokenB : Token Address}
    (hburn : BurnSettles env w user state burnLp lp tokenA tokenB w' amountA amountB)
    (hpending : 0 < w.pair.pendingLp user) :
    amountA = Shares.redeemed (w.pair.pendingLp user) w.reserveA
        (w.lp.totalSupply - minimumLiquidity) ∧
      amountB = Shares.redeemed (w.pair.pendingLp user) w.reserveB
        (w.lp.totalSupply - minimumLiquidity) := by
  rw [World.reserveA_of_pairState hburn.pairState, World.reserveB_of_pairState hburn.pairState,
    ← hburn.burnLp_eq hpending]
  exact ⟨hburn.shareA, hburn.shareB⟩

theorem sent_ok {sentA sentB : World Address} {a b : ℤ}
    (hsentA : External.exec contract w (.transferA user contract a) = .ok sentA)
    (hsentB : External.exec contract sentA (.transferB user contract b) = .ok sentB) :
    0 ≤ a ∧ 0 ≤ b ∧ sentB.tokenA.balance contract = w.tokenA.balance contract + a ∧
      sentB.tokenB.balance contract = w.tokenB.balance contract + b ∧ sentB.pair = w.pair ∧
      sentB.lp = w.lp := by
  cases external_ok hsentA with
  | movedA hsrc htransferA =>
      cases external_ok hsentB with
      | movedB _ htransferB =>
          exact ⟨Token.amount_nonneg_of_transfer htransferA,
            Token.amount_nonneg_of_transfer htransferB,
            Token.balance_dst_of_transfer htransferA hsrc,
            Token.balance_dst_of_transfer htransferB hsrc, rfl, rfl⟩

end Stages

theorem depositAndWithdraw_ok {env : Env contract} {w : World Address} {user : Address}
    {a b liquidity amountA amountB : ℤ} (hsupply : w.lp.totalSupply ≠ 0)
    (hbalanceA : w.tokenA.balance contract = w.reserveA)
    (hbalanceB : w.tokenB.balance contract = w.reserveB) (hpending : w.pair.pendingLp user = 0)
    (htrip : depositAndWithdraw env w user a b = .ok (liquidity, amountA, amountB)) :
    0 ≤ a ∧ 0 ≤ b ∧ minLiquidityForUser ≤ liquidity ∧ liquidity = issuedLiquidity w a b ∧
      amountA = Shares.redeemed liquidity (w.reserveA + a)
        (w.lp.totalSupply + liquidity - minimumLiquidity) ∧
      amountB = Shares.redeemed liquidity (w.reserveB + b)
        (w.lp.totalSupply + liquidity - minimumLiquidity) := by
  simp only [depositAndWithdraw, bind_eq_ok, pure_eq_ok] at htrip
  obtain ⟨sentA, hsentA, sentB, hsentB, ⟨minted, shares⟩, hmint, staged, hstaged, ⟨burned, _⟩, hburn,
    hresult⟩ := htrip
  cases hresult
  obtain ⟨ha, hb, hsentBalanceA, hsentBalanceB, hsentPair, hsentLp⟩ := sent_ok hsentA hsentB
  have hsentReserveA : sentB.reserveA = w.reserveA := by simp only [World.reserveA, hsentPair]
  have hsentReserveB : sentB.reserveB = w.reserveB := by simp only [World.reserveB, hsentPair]
  -- the mint
  obtain ⟨_, _, _, hmint⟩ := mint_ok hmint
  have hworth := hmint.worth
  obtain ⟨hliquidity, hmintedSupply, hmintedA, hmintedB, hmintedPending⟩ :=
    hmint.subsequent (by rwa [hsentLp])
  rw [hsentBalanceA, hsentBalanceB, hsentReserveA, hsentReserveB, hsentLp, hbalanceA, hbalanceB,
    add_sub_cancel_left, add_sub_cancel_left] at hliquidity
  -- the stage
  obtain ⟨_, hstaged⟩ := depositLp_ok hstaged
  obtain ⟨hstagedSupply, hstagedA, hstagedB, hstagedPending⟩ := hstaged.stages
  rw [hmintedPending, hsentPair, hpending, zero_add] at hstagedPending
  have hpositive : 0 < shares := by
    unfold minLiquidityForUser at hworth
    omega
  -- the burn
  obtain ⟨_, _, _, _, _, hburn⟩ := burn_ok hburn
  obtain ⟨hpaidA, hpaidB⟩ := hburn.redeemsStage (by rw [hstagedPending]; exact hpositive)
  rw [hstagedPending, hstagedSupply, hmintedSupply, hsentLp] at hpaidA hpaidB
  rw [hstagedA, hmintedA, hsentBalanceA, hbalanceA] at hpaidA
  rw [hstagedB, hmintedB, hsentBalanceB, hbalanceB] at hpaidB
  exact ⟨ha, hb, hworth, hliquidity, hpaidA, hpaidB⟩

/-- **Round trips.** From a state whose reserves are its balances, depositing and at once withdrawing
returns at most the deposit exactly when the seed's claim on the deposit is covered. -/
theorem depositAndWithdraw_unprofitable_iff {env : Env contract} {w : World Address} {user : Address}
    {a b liquidity amountA amountB : ℤ} (hsupply : minimumLiquidity < w.lp.totalSupply)
    (hreserveA : 0 < w.reserveA) (hreserveB : 0 < w.reserveB)
    (hbalanceA : w.tokenA.balance contract = w.reserveA)
    (hbalanceB : w.tokenB.balance contract = w.reserveB) (hpending : w.pair.pendingLp user = 0)
    (htrip : depositAndWithdraw env w user a b = .ok (liquidity, amountA, amountB)) :
    (amountA ≤ a ∧ amountB ≤ b) ↔ SeedCovered w a b := by
  have hpos : (0 : ℤ) < minimumLiquidity := by decide
  obtain ⟨ha, hb, hworth, hliquidity, rfl, rfl⟩ :=
    depositAndWithdraw_ok (by omega) hbalanceA hbalanceB hpending htrip
  have hpositive : 0 ≤ liquidity := le_trans (by decide) hworth
  rw [Shares.redeemed_le_iff hpositive hreserveA.le ha hsupply,
    Shares.redeemed_le_iff hpositive hreserveB.le hb hsupply, hliquidity]
  exact ⟨fun h => ⟨h.1, h.2⟩, fun h => ⟨h.sideA, h.sideB⟩⟩

theorem depositAndWithdraw_unprofitable_iff_opened :
    depositAndWithdraw (Env.quiet 0 1 1 none) (openedPool (Env.quiet 0 1 1 none) 10000000 10000000) 1
        5000 5000 = .ok (5000, 5000, 5000) ∧
      ((5000 : ℤ) ≤ 5000 ∧ (5000 : ℤ) ≤ 5000 ↔
        SeedCovered (openedPool (Env.quiet 0 1 1 none) 10000000 10000000) 5000 5000) := by
  have htrip : depositAndWithdraw (Env.quiet 0 1 1 none)
      (openedPool (Env.quiet 0 1 1 none) 10000000 10000000) 1 5000 5000 = .ok (5000, 5000, 5000) := by
    decide +kernel
  exact ⟨htrip, depositAndWithdraw_unprofitable_iff (by decide +kernel) (by decide +kernel)
    (by decide +kernel) (by decide +kernel) (by decide +kernel) (by decide +kernel) htrip⟩

/-- In a young pool a round trip of 2000 and 2000 returns 2666 and 2666. -/
theorem depositAndWithdraw_unprofitable_fails :
    ¬∀ (env : Env (0 : ℕ)) (w : World ℕ) (user : ℕ) (a b liquidity amountA amountB : ℤ),
      Reachable 0 w → minimumLiquidity < w.lp.totalSupply → 0 < w.reserveA → 0 < w.reserveB →
      w.tokenA.balance 0 = w.reserveA → w.tokenB.balance 0 = w.reserveB →
      w.pair.pendingLp user = 0 →
      depositAndWithdraw env w user a b = .ok (liquidity, amountA, amountB) →
      amountA ≤ a ∧ amountB ≤ b := by
  intro hlaw
  have hcase := hlaw (Env.quiet 0 1 1 none) (openedPool (Env.quiet 0 1 1 none) 2000 2000) 1 2000 2000
    2000 2666 2666 (openedPool_reachable _ _ _) (by decide +kernel) (by decide +kernel)
    (by decide +kernel) (by decide +kernel) (by decide +kernel) (by decide +kernel)
    (by decide +kernel)
  omega

/-! ### What an inflated share can cost -/

/-- The side whose part of the deposit decides how much is minted; both do where the two parts tie. -/
def LimitsMint (w : World Address) (a b : ℤ) (isA : Bool) : Prop :=
  Shares.issued (if isA then a else b) w.lp.totalSupply (w.reserve isA) = issuedLiquidity w a b

/-- **Inflation resistance.** Whatever a share costs in a pool that is not empty, a depositor who at once
withdraws loses at most one part in 1001 of the token that limited the mint. -/
theorem depositAndWithdraw_resists_inflation {env : Env contract} {w : World Address} {user : Address}
    {a b liquidity amountA amountB : ℤ} {isA : Bool} (hsupply : 0 < w.lp.totalSupply)
    (hreserveA : 0 < w.reserveA) (hreserveB : 0 < w.reserveB)
    (hbalanceA : w.tokenA.balance contract = w.reserveA)
    (hbalanceB : w.tokenB.balance contract = w.reserveB) (hpending : w.pair.pendingLp user = 0)
    (htrip : depositAndWithdraw env w user a b = .ok (liquidity, amountA, amountB))
    (hlimits : LimitsMint w a b isA) :
    1000 * (if isA then a else b) / 1001 ≤ if isA then amountA else amountB := by
  obtain ⟨ha, hb, hworth, hliquidity, hpaidA, hpaidB⟩ :=
    depositAndWithdraw_ok hsupply.ne' hbalanceA hbalanceB hpending htrip
  have hseed : minimumLiquidity < w.lp.totalSupply + liquidity := by
    unfold minLiquidityForUser at hworth
    unfold minimumLiquidity
    omega
  have hissued := hliquidity.trans hlimits.symm
  cases isA
  · rw [hpaidB]
    exact Shares.le_redeemed_issued (by decide) hb hsupply.le hreserveB hissued hworth (by decide) hseed
  · rw [hpaidA]
    exact Shares.le_redeemed_issued (by decide) ha hsupply.le hreserveA hissued hworth (by decide) hseed

/-- A pool opened with 2000 of each token, to which a million of each is given away. -/
def inflatedPool : World ℕ :=
  (pairMachine 0).run (openedPool (Env.quiet 0 1 1 none) 2000 2000)
    [(Env.quiet 0 1 1 none, .external (.transferA 1 0 1000000)),
      (Env.quiet 0 1 1 none, .external (.transferB 1 0 1000000)), (Env.quiet 0 1 1 none, .sync)]

theorem depositAndWithdraw_resists_inflation_inflated :
    depositAndWithdraw (Env.quiet 0 1 1 none) inflatedPool 1 600000 700000 =
        .ok (1197, 872823, 927307) ∧
      LimitsMint inflatedPool 600000 700000 true ∧ (1000 * 600000 / 1001 : ℤ) ≤ 872823 := by
  have htrip : depositAndWithdraw (Env.quiet 0 1 1 none) inflatedPool 1 600000 700000 =
      .ok (1197, 872823, 927307) := by decide +kernel
  have hlimits : LimitsMint inflatedPool 600000 700000 true := by
    unfold LimitsMint
    decide +kernel
  exact ⟨htrip, hlimits, depositAndWithdraw_resists_inflation (by decide +kernel) (by decide +kernel)
    (by decide +kernel) (by decide +kernel) (by decide +kernel) (by decide +kernel) htrip hlimits⟩

end CoralSwap
