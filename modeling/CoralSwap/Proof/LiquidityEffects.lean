import CoralSwap.Proof.LpTokenEffects
import CoralSwap.Pair.Liquidity

/-!
# What an accepted deposit or withdrawal does

One record per entry point: the checks it passed, the shares it priced, the LP token call it made,
and the world it leaves.
-/

namespace CoralSwap

open Host Host.Call

variable {Address : Type} [DecidableEq Address] {contract : Address}

/-! ### Mint -/

structure MintSettles (env : Env contract) (w : World Address) (dst : Address)
    (state : PairStorage Address) (seeded lp : LpToken Address) (w' : World Address)
    (liquidity : ℤ) : Prop where
  authorised : env.auth dst = true
  unlocked : w.pair.locked = false
  unfrozen : w.pair.frozen = false
  unpaused : w.pair.lpTokenPaused = false
  pairState : w.pair.pairState = some state
  depositA : minimumReserve ≤ w.tokenA.balance contract - state.reserveA
  depositB : minimumReserve ≤ w.tokenB.balance contract - state.reserveB
  priced : mintedLiquidity env w.lp state (w.tokenA.balance contract - state.reserveA)
    (w.tokenB.balance contract - state.reserveB) = .ok (liquidity, seeded)
  worth : minLiquidityForUser ≤ liquidity
  minted : seeded.mint env.lpEnv dst liquidity = .ok lp
  result : w' = { w with
    lp
    pair := { w.pair with
      locked := false
      pairState := some { state with
        reserveA := w.tokenA.balance contract, reserveB := w.tokenB.balance contract
        kLast := w.tokenA.balance contract * w.tokenB.balance contract
        blockTimestampLast := env.timestamp } } }

theorem mint_ok {env : Env contract} {w w' : World Address} {dst : Address} {liquidity : ℤ}
    (hmint : mint env w dst = .ok (w', liquidity)) :
    ∃ state seeded lp, MintSettles env w dst state seeded lp w' liquidity := by
  simp only [mint, bind_eq_ok, failIf_eq_ok, okOr_eq_ok, require_eq_ok, nested_eq_ok, pure_eq_ok,
    Word.checkedSub_eq_some, Word.checkedMul_eq_some, World.acquireLock_eq_ok,
    World.ensureNotFrozen_eq_ok, World.ensureLpTokenNotPaused_eq_ok, World.getPairState_eq_ok,
    exists_const, and_assoc, exists_and_left, exists_eq_left', Prod.exists] at hmint
  obtain ⟨hauth, hunlocked, hfrozen, state, hstate, hunpaused, -, -, -, -, hdust, liquidity', seeded,
    hpriced, hpositive, hworth, lp, hminted, -, -, hresult⟩ := hmint
  cases hresult
  exact ⟨state, seeded, lp,
    { authorised := hauth
      unlocked := hunlocked
      unfrozen := hfrozen
      unpaused := hunpaused
      pairState := hstate
      depositA := by omega
      depositB := by omega
      priced := hpriced
      worth := by omega
      minted := hminted
      result := rfl }⟩

/-- How a mint prices a deposit: the first one against the square root of its product, later ones
against the smaller of the two proportional shares. -/
theorem mintedLiquidity_ok {env : Env contract} {lp seeded : LpToken Address}
    {state : PairStorage Address} {amountA amountB liquidity : ℤ}
    (hpriced : mintedLiquidity env lp state amountA amountB = .ok (liquidity, seeded)) :
    (lp.totalSupply = 0 ∧ lp.mint env.lpEnv contract minimumLiquidity = .ok seeded) ∨
      (lp.totalSupply ≠ 0 ∧ seeded = lp ∧ state.reserveA ≠ 0 ∧ state.reserveB ≠ 0 ∧
        liquidity = min ((amountA * lp.totalSupply).tdiv state.reserveA)
          ((amountB * lp.totalSupply).tdiv state.reserveB)) := by
  unfold mintedLiquidity at hpriced
  split at hpriced
  · rename_i hsupply
    simp only [bind_eq_ok, nested_eq_ok, pure_eq_ok] at hpriced
    obtain ⟨_, -, _, hseed, hresult⟩ := hpriced
    cases hresult
    exact Or.inl ⟨hsupply, hseed⟩
  · rename_i hsupply
    simp only [subsequentLiquidity, bind_eq_ok, pure_eq_ok, share_eq_ok, and_assoc,
      exists_and_left, exists_eq_left'] at hpriced
    obtain ⟨-, -, hreserveA, -, -, -, -, hreserveB, -, -, hresult⟩ := hpriced
    cases hresult
    exact Or.inr ⟨hsupply, rfl, hreserveA, hreserveB, rfl⟩

/-! ### Staging -/

structure DepositLpSettles (env : Env contract) (w : World Address) (src : Address) (amount : ℤ)
    (lp : LpToken Address) (w' : World Address) : Prop where
  authorised : env.auth src = true
  initialized : w.pair.pairState.isSome = true
  positive : 0 < amount
  ne_contract : src ≠ contract
  moved : w.lp.transfer env.lpEnv src contract amount = .ok lp
  result : w' = { w with
    lp
    pair := { w.pair with
      locked := false
      pendingLp := Function.update w.pair.pendingLp src (w.pair.pendingLp src + amount)
      pendingLpTotal := w.pair.pendingLpTotal + amount } }

theorem depositLp_ok {env : Env contract} {w w' : World Address} {src : Address} {amount : ℤ}
    (hdeposit : depositLp env w src amount = .ok w') :
    ∃ lp, DepositLpSettles env w src amount lp w' := by
  simp only [depositLp, bind_eq_ok, failIf_eq_ok, okOr_eq_ok, require_eq_ok, nested_eq_ok,
    pure_eq_ok, Word.checkedAdd_eq_some, World.acquireLock_eq_ok,
    World.ensureLpTokenNotPaused_eq_ok, World.getPairState_eq_ok, exists_const, and_assoc,
    exists_and_left, exists_eq_left', not_or, not_le] at hdeposit
  obtain ⟨hauth, -, state, hstate, -, hpositive, hne, lp, hmoved, -, -, -, -, rfl⟩ := hdeposit
  exact ⟨lp,
    { authorised := hauth
      initialized := Option.isSome_iff_exists.mpr ⟨state, hstate⟩
      positive := hpositive
      ne_contract := hne
      moved := hmoved
      result := rfl }⟩

/-! ### Burn -/

/-- What a burn by `dst` redeems: exactly its own staged shares, else the unattributed rest. -/
def Redeems (w : World Address) (contract dst : Address) (burnLp : ℤ) : Prop :=
  (0 < w.pair.pendingLp dst ∧ burnLp = w.pair.pendingLp dst) ∨
    (w.pair.pendingLp dst ≤ 0 ∧
      burnLp = w.lp.balance contract - minimumLiquidity - w.pair.pendingLpTotal)

structure BurnSettles (env : Env contract) (w : World Address) (dst : Address)
    (state : PairStorage Address) (burnLp : ℤ) (lp : LpToken Address) (tokenA tokenB : Token Address)
    (w' : World Address) (amountA amountB : ℤ) : Prop where
  authorised : env.auth dst = true
  pairState : w.pair.pairState = some state
  supply : w.lp.totalSupply ≠ 0
  burnable : w.lp.totalSupply - minimumLiquidity ≠ 0
  redeems : Redeems w contract dst burnLp
  positive : 0 < burnLp
  shareA : amountA = (burnLp * state.reserveA).tdiv (w.lp.totalSupply - minimumLiquidity)
  shareB : amountB = (burnLp * state.reserveB).tdiv (w.lp.totalSupply - minimumLiquidity)
  floorA : minimumReserve ≤ amountA
  floorB : minimumReserve ≤ amountB
  restA : ¬(0 < state.reserveA - amountA ∧ state.reserveA - amountA < minimumReserve)
  restB : ¬(0 < state.reserveB - amountB ∧ state.reserveB - amountB < minimumReserve)
  burned : w.lp.burn env.lpEnv contract burnLp = .ok lp
  paidA : w.tokenA.transfer contract dst amountA = some tokenA
  paidB : w.tokenB.transfer contract dst amountB = some tokenB
  result : w' =
    { lp, tokenA, tokenB
      pair := { w.pair with
        locked := false
        pendingLp :=
          if 0 < w.pair.pendingLp dst then Function.update w.pair.pendingLp dst 0
          else w.pair.pendingLp
        pendingLpTotal :=
          if 0 < w.pair.pendingLp dst then w.pair.pendingLpTotal - w.pair.pendingLp dst
          else w.pair.pendingLpTotal
        pairState := some { state with
          reserveA := state.reserveA - amountA, reserveB := state.reserveB - amountB
          kLast := (state.reserveA - amountA) * (state.reserveB - amountB)
          blockTimestampLast := env.timestamp } } }

omit [DecidableEq Address] in
theorem burnableLp_ok {w : World Address} {dst : Address} {burnLp : ℤ}
    (hburnable : burnableLp w (w.lp.balance contract) dst = .ok burnLp) :
    Redeems w contract dst burnLp := by
  unfold burnableLp at hburnable
  dsimp only at hburnable
  split at hburnable
  · rename_i hpending
    exact Or.inl ⟨hpending, (pure_eq_ok.mp hburnable).symm⟩
  · rename_i hpending
    simp only [okOr_eq_ok, Option.bind_eq_some_iff, Word.checkedSub_eq_some, and_assoc,
      exists_and_left, exists_eq_left'] at hburnable
    obtain ⟨-, -, -, -, rfl⟩ := hburnable
    exact Or.inr ⟨by omega, rfl⟩

theorem clearPending_ok {w cleared : World Address} {dst : Address}
    (hclear : clearPending w dst = .ok cleared) :
    cleared = { w with pair := { w.pair with
      pendingLp :=
        if 0 < w.pair.pendingLp dst then Function.update w.pair.pendingLp dst 0
        else w.pair.pendingLp
      pendingLpTotal :=
        if 0 < w.pair.pendingLp dst then w.pair.pendingLpTotal - w.pair.pendingLp dst
        else w.pair.pendingLpTotal } } := by
  unfold clearPending at hclear
  dsimp only at hclear
  split at hclear
  · rename_i hpending
    simp only [bind_eq_ok, orTrap_eq_ok, Word.checkedSub_eq_some, pure_eq_ok, and_assoc,
      exists_and_left, exists_eq_left'] at hclear
    obtain ⟨-, -, rfl⟩ := hclear
    simp only [if_pos hpending]
    rfl
  · rename_i hpending
    simp only [pure_eq_ok] at hclear
    simp only [if_neg hpending]
    exact hclear.symm

theorem burn_ok {env : Env contract} {w w' : World Address} {dst : Address} {amountA amountB : ℤ}
    (hburn : burn env w dst = .ok (w', amountA, amountB)) :
    ∃ state burnLp lp tokenA tokenB,
      BurnSettles env w dst state burnLp lp tokenA tokenB w' amountA amountB := by
  simp only [burn, burnAmounts, bind_eq_ok, failIf_eq_ok, okOr_eq_ok, orTrap_eq_ok, require_eq_ok,
    nested_eq_ok, pure_eq_ok, share_eq_ok, Word.checkedSub_eq_some, Word.checkedMul_eq_some,
    World.acquireLock_eq_ok, World.ensureLpTokenNotPaused_eq_ok, World.getPairState_eq_ok,
    exists_const, and_assoc, exists_and_left, exists_eq_left', not_or] at hburn
  obtain ⟨hauth, -, state, hstate, -, hsupply, -, -, hburnable, burnLp, hredeems, hpositive, -, -, -, -, -,
    -, -, -, -, -, -, -, hfloorA, hfloorB, -, -, -, -, hrestA, hrestB, lp, hburned, cleared, hcleared,
    tokenA, hpaidA, tokenB, hpaidB, -, -, hresult⟩ := hburn
  obtain rfl := clearPending_ok hcleared
  cases hresult
  exact ⟨state, burnLp, lp, tokenA, tokenB,
    { authorised := hauth
      pairState := hstate
      supply := hsupply
      burnable := hburnable
      redeems := burnableLp_ok hredeems
      positive := by omega
      shareA := rfl
      shareB := rfl
      floorA := by omega
      floorB := by omega
      restA := hrestA
      restB := hrestB
      burned := hburned
      paidA := hpaidA
      paidB := hpaidB
      result := rfl }⟩

end CoralSwap
