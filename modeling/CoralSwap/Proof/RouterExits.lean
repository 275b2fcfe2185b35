import CoralSwap.Proof.RoundTrip
import CoralSwap.Proof.RouterSwaps
import CoralSwap.Proof.Staging
import CoralSwap.Router.Liquidity

/-!
# Withdrawals through the router

The router stages the shares of the caller and has the pair burn the whole stage. Shares that the
caller staged before are burned with them.
-/

namespace CoralSwap.Router

open Host Host.Call

variable {Address : Type} [LinearOrder Address] {router : Address}

/-- A withdrawal that burns `liquidity` shares of `dst` and nothing else of what it owns. -/
structure BurnsExactly (net net' : Network Address) (pair dst : Address) (liquidity : ℤ) : Prop where
  supply : (net'.lp pair).totalSupply = (net.lp pair).totalSupply - liquidity
  balance : (net'.lp pair).balance dst = (net.lp pair).balance dst - liquidity
  pending : (net'.pair pair).pendingLp dst = (net.pair pair).pendingLp dst

section Pair

variable {contract : Address} {env : Env contract} {w w' : World Address} {dst : Address} {liquidity : ℤ}

theorem shares_of_depositLp (hdeposit : depositLp env w dst liquidity = .ok w') :
    w'.lp.totalSupply = w.lp.totalSupply ∧ w'.lp.balance dst = w.lp.balance dst - liquidity ∧
      w'.pair.pendingLp dst = w.pair.pendingLp dst + liquidity := by
  obtain ⟨lp, hdeposit⟩ := depositLp_ok hdeposit
  obtain ⟨hsupply, -, -, hpending⟩ := hdeposit.stages
  obtain ⟨-, -, -, hmoved⟩ := LpToken.transfer_ok hdeposit.moved
  refine ⟨hsupply, ?_, hpending⟩
  rw [hdeposit.result, hmoved]
  simp [Token.moved, hdeposit.ne_contract]

/-- A burn by someone with staged shares takes all of them out of the supply. -/
theorem shares_of_burn {amountA amountB : ℤ} (hpending : 0 < w.pair.pendingLp dst)
    (hburn : burn env w dst = .ok (w', amountA, amountB)) :
    w'.lp.totalSupply = w.lp.totalSupply - w.pair.pendingLp dst ∧ w'.lp.balance dst = w.lp.balance dst ∧
      w'.pair.pendingLp dst = 0 := by
  obtain ⟨state, burnLp, lp, tokenA, tokenB, hburn⟩ := burn_ok hburn
  have hne := Env.ne_contract_of_auth hburn.authorised
  obtain rfl := hburn.burnLp_eq hpending
  obtain ⟨-, -, hredeemed⟩ := LpToken.burn_ok hburn.burned
  obtain rfl := hburn.result
  dsimp only
  rw [if_pos hpending, hredeemed]
  exact ⟨rfl, Function.update_of_ne hne _ _, Function.update_self _ _ _⟩

end Pair

section Network

variable {envOf : (pair : Address) → Env pair} {env : RouterEnv router (Network Address)}
variable {net net' staged : Network Address} {storage : RouterStorage Address}
variable {factory tokenA tokenB token0 token1 pair dst : Address}
variable {liquidity amountAMin amountBMin amountA amountB : ℤ} {deadline : ℕ} {deadlineLedger : Option ℕ}

/-- The two calls of the pair behind a withdrawal. -/
theorem removeLiquidity_ok (hchain : env.chain = networkChain envOf) (hfactory : storage.factory = some factory)
    (hsorted : sortTokens tokenA tokenB = .ok (token0, token1))
    (hpair : net.registry factory token0 token1 = some pair)
    (hremove : removeLiquidity env net storage tokenA tokenB liquidity amountAMin amountBMin dst deadline
      deadlineLedger = .ok (net', amountA, amountB)) :
    0 < liquidity ∧ ∃ state staged stagedWorld amount0 amount1,
      (net.pair pair).pairState = some state ∧
        depositLp (envOf pair) (net.world pair state) dst liquidity = .ok stagedWorld ∧
        staged = net.settle pair state stagedWorld ∧
        staged.callPair pair (fun w => burn (envOf pair) w dst) = some (net', amount0, amount1) := by
  simp only [removeLiquidity, hsorted, RouterStorage.getFactory, hfactory, hchain, bind_eq_ok, failIf_eq_ok,
    okOr_eq_ok, orTrap_eq_ok, require_eq_ok, pure_eq_ok, Except.ok.injEq, Option.some.injEq, Prod.exists,
    Prod.mk.injEq] at hremove
  obtain ⟨-, -, -, hpositive, -, -, _, _, ⟨rfl, rfl⟩, _, rfl, found, hfound, -, -, staged, hstaged, burned, amount0,
    amount1, hburned, -, -, rfl, -⟩ := hremove
  obtain rfl : pair = found := Option.some.inj (hpair.symm.trans (getPairAddress_ok hchain hfound))
  simp only [networkChain, Option.bind_eq_bind, Option.bind_eq_some_iff, Option.pure_def, Option.some.injEq,
    Prod.exists, Network.callPair_eq_some, bind_eq_ok, pure_eq_ok, Prod.mk.injEq, and_true] at hstaged
  obtain ⟨_, _, ⟨state, stagedWorld, hstate, ⟨_, hdeposit, rfl⟩, rfl⟩, rfl⟩ := hstaged
  exact ⟨not_le.mp hpositive, state, _, _, amount0, amount1, hstate, hdeposit, rfl, hburned⟩

/-- The shares that leave the supply are the caller's whole stage. -/
theorem shares_of_removeLiquidity (hchain : env.chain = networkChain envOf)
    (hfactory : storage.factory = some factory) (hsorted : sortTokens tokenA tokenB = .ok (token0, token1))
    (hpair : net.registry factory token0 token1 = some pair) (hnonneg : 0 ≤ (net.pair pair).pendingLp dst)
    (hremove : removeLiquidity env net storage tokenA tokenB liquidity amountAMin amountBMin dst deadline
      deadlineLedger = .ok (net', amountA, amountB)) :
    (net'.lp pair).totalSupply = (net.lp pair).totalSupply - ((net.pair pair).pendingLp dst + liquidity) ∧
      (net'.lp pair).balance dst = (net.lp pair).balance dst - liquidity ∧ (net'.pair pair).pendingLp dst = 0 := by
  obtain ⟨hpositive, state, _, stagedWorld, amount0, amount1, -, hdeposit, rfl, hburned⟩ :=
    removeLiquidity_ok hchain hfactory hsorted hpair hremove
  obtain ⟨state', burnedWorld, -, hburn, rfl⟩ := Network.callPair_eq_some.mp hburned
  obtain ⟨hsupply, hbalance, hpending⟩ := shares_of_depositLp hdeposit
  have hpair' : (net.settle pair state stagedWorld).pair pair = stagedWorld.pair := Network.settle_pair_self
  have hlp' : (net.settle pair state stagedWorld).lp pair = stagedWorld.lp := Function.update_self _ _ _
  simp only [Network.world, hpair', hlp'] at hburn hsupply hbalance hpending
  obtain ⟨hsupply', hbalance', hpending'⟩ := shares_of_burn (by dsimp only; omega) hburn
  rw [Network.settle_pair_self]
  simp only [Network.settle, Function.update_self]
  refine ⟨?_, hbalance'.trans hbalance, hpending'⟩
  rw [hsupply']
  dsimp only
  rw [hsupply, hpending]

/-- A withdrawal burns exactly what was asked for if and only if the caller has nothing staged before. -/
theorem removeLiquidity_exact_iff (hchain : env.chain = networkChain envOf)
    (hreach : ∀ state, (net.pair pair).pairState = some state → Reachable pair (net.world pair state))
    (hfactory : storage.factory = some factory) (hsorted : sortTokens tokenA tokenB = .ok (token0, token1))
    (hpair : net.registry factory token0 token1 = some pair)
    (hremove : removeLiquidity env net storage tokenA tokenB liquidity amountAMin amountBMin dst deadline
      deadlineLedger = .ok (net', amountA, amountB)) :
    BurnsExactly net net' pair dst liquidity ↔ (net.pair pair).pendingLp dst = 0 := by
  have hnonneg : 0 ≤ (net.pair pair).pendingLp dst := by
    obtain ⟨-, state, -, -, -, -, hstate, -⟩ := removeLiquidity_ok hchain hfactory hsorted hpair hremove
    obtain ⟨e, hstages⟩ := stages_of_reachable (hreach state hstate)
    have hentry := hstages.pendingLp dst
    exact hentry.symm ▸ Int.natCast_nonneg _
  obtain ⟨hsupply, hbalance, hpending⟩ :=
    shares_of_removeLiquidity hchain hfactory hsorted hpair hnonneg hremove
  constructor
  · intro hexact
    exact hexact.pending.symm.trans hpending
  · intro hzero
    rw [hzero, zero_add] at hsupply
    exact ⟨hsupply, hbalance, hpending.trans hzero.symm⟩

end Network

/-! ### A pool with and without a stage -/

/-- The network of the one pair at address 0, which trades tokens 10 and 11. -/
def poolNetwork (w : World ℕ) : Network ℕ where
  registry := fun _ tokenA tokenB => if (tokenA, tokenB) = (10, 11) then some 0 else none
  isPair := fun _ pair => pair = 0
  feeToSetter := fun _ => none
  pair := fun _ => w.pair
  lp := fun _ => w.lp
  ledger := fun token => if token = 10 then w.tokenA else w.tokenB

def poolEnv : RouterEnv 7 (Network ℕ) where
  sequence := 5
  timestamp := 1
  auth := fun who => who = 1
  crypto := Crypto.rejecting ℕ
  chain := networkChain fun pair => Env.quiet pair 1 1 none

/-- Address 1 has staged 5000 shares of its own. -/
def stagedPool : World ℕ :=
  (pairMachine 0).run (openedPool (Env.quiet 0 1 1 none) 100000 100000) [(Env.quiet 0 1 1 none, .depositLp 1 5000)]

theorem stagedPool_reachable : Reachable 0 stagedPool := by
  obtain ⟨tokenA, tokenB, calls, hopened⟩ := openedPool_reachable (Env.quiet 0 1 1 none) 100000 100000
  refine ⟨tokenA, tokenB, calls ++ [(Env.quiet 0 1 1 none, .depositLp 1 5000)], ?_⟩
  rw [Machine.run_append, ← hopened]
  rfl

theorem poolNetwork_reachable {w : World ℕ} (hreach : Reachable 0 w)
    (htokens : w.pair.pairState.map (fun state => (state.tokenA, state.tokenB)) = some (10, 11)) :
    ∀ state, ((poolNetwork w).pair 0).pairState = some state → Reachable 0 ((poolNetwork w).world 0 state) := by
  intro state hstate
  have htokens' : (state.tokenA, state.tokenB) = (10, 11) := by
    rw [show w.pair.pairState = some state from hstate] at htokens
    exact Option.some.inj htokens
  obtain ⟨hA, hB⟩ := Prod.mk.inj htokens'
  have hworld : (poolNetwork w).world 0 state = w := by
    unfold Network.world
    rw [hA, hB]
    rfl
  rw [hworld]
  exact hreach

theorem removeLiquidity_exact_unstaged :
    let net := poolNetwork (openedPool (Env.quiet 0 1 1 none) 100000 100000)
    ∃ net', removeLiquidity poolEnv net hubStorage 11 10 10000 0 0 1 1 none = .ok (net', 10101, 10101) ∧
      BurnsExactly net net' 0 1 10000 := by
  intro net
  obtain ⟨⟨net', _⟩, hremove, rfl⟩ := exists_ok_of_map_eq
    (show Prod.snd <$> removeLiquidity poolEnv net hubStorage 11 10 10000 0 0 1 1 none = .ok (10101, 10101) by
      decide +kernel)
  have hreach := poolNetwork_reachable (openedPool_reachable (Env.quiet 0 1 1 none) 100000 100000)
    (by decide +kernel)
  exact ⟨net', hremove, (removeLiquidity_exact_iff (show poolEnv.chain = _ from rfl) hreach
    (show hubStorage.factory = some 5 from rfl) (show sortTokens 11 10 = .ok (10, 11) from rfl) rfl
    hremove).mpr (by decide +kernel)⟩

/-- Of 10000 shares asked for and 5000 staged before, 15000 are burned. -/
theorem removeLiquidity_burns_stage :
    Reachable 0 stagedPool ∧ ∃ net', removeLiquidity poolEnv (poolNetwork stagedPool) hubStorage 10 11 10000 0 0 1 1
        none = .ok (net', 15151, 15151) ∧
      ((poolNetwork stagedPool).lp 0).totalSupply = 100000 ∧ (net'.lp 0).totalSupply = 85000 ∧
      ¬BurnsExactly (poolNetwork stagedPool) net' 0 1 10000 := by
  obtain ⟨⟨net', _⟩, hremove, hresult⟩ := exists_ok_of_map_eq
    (show (fun result => ((result.1.lp 0).totalSupply, result.2)) <$>
      removeLiquidity poolEnv (poolNetwork stagedPool) hubStorage 10 11 10000 0 0 1 1 none =
        .ok (85000, 15151, 15151) by decide +kernel)
  obtain ⟨hsupply', rfl⟩ := Prod.mk.inj hresult
  have hsupply : ((poolNetwork stagedPool).lp 0).totalSupply = 100000 := by decide +kernel
  refine ⟨stagedPool_reachable, net', hremove, hsupply, hsupply', fun hexact => ?_⟩
  have hasked := hexact.supply
  dsimp only at hsupply'
  omega

end CoralSwap.Router
