import CoralSwap.Proof.PoolViews
import CoralSwap.Proof.RouterDeposits
import CoralSwap.Proof.RouterCommits
import CoralSwap.Proof.RouterSwaps

/-!
# The router inside the exchange

All the router does to the other contracts is to transfer tokens, its own or those of a user who has signed, and to
call pairs for a swap, a deposit, a stage or a burn. A pair that waits for the receiver of a flash loan refuses these.
-/

namespace CoralSwap.System

open Host Host.Call

variable {Address : Type} [LinearOrder Address] {router pair dst : Address}

/-- What the router calls a pair for. -/
def Routed : CoralSwap.Op Address → Prop
  | .swap .. => True
  | .mint _ => True
  | .depositLp .. => True
  | .burn _ => True
  | _ => False

/-- Who signs in a network, and what may happen in it: its contracts and the signers may send tokens, no pair has
signed anything, and the router may call every pair. -/
structure Hosted (may : Address → Prop) (made : (pair : Address) → PairCall pair → Prop)
    (envOf : (pair : Address) → Env pair) (env : RouterEnv router (Network Address)) (net : Network Address) :
    Prop where
  chain : env.chain = networkChain envOf
  pools : ∀ who, (net.pair who).pairState.isSome = true → may who
  router : may router ∧ (net.pair router).pairState = none
  users : ∀ who, env.auth who = true → may who ∧ (net.pair who).pairState = none
  signers : ∀ pair who, (envOf pair).auth who = true → may who ∧ (net.pair who).pairState = none
  routed : ∀ pair op, Routed op → made pair (envOf pair, op)

/-! ### Guarded entry points -/

section Guarded

variable {env : Env pair} {w w' : World Address}

theorem unlocked_of_mint {liquidity : ℤ} (hmint : mint env w dst = .ok (w', liquidity)) : w.pair.locked = false := by
  obtain ⟨_, _, _, hsettles⟩ := mint_ok hmint
  exact hsettles.unlocked

theorem unlocked_of_depositLp {amount : ℤ} (hdeposit : depositLp env w dst amount = .ok w') :
    w.pair.locked = false := by
  simp only [depositLp, bind_eq_ok, World.acquireLock_eq_ok] at hdeposit
  obtain ⟨-, -, _, ⟨hunlocked, -⟩, -⟩ := hdeposit
  exact hunlocked

theorem unlocked_of_burn {amounts : ℤ × ℤ} (hburn : burn env w dst = .ok (w', amounts)) :
    w.pair.locked = false := by
  simp only [burn, bind_eq_ok, World.acquireLock_eq_ok] at hburn
  obtain ⟨-, -, _, ⟨hunlocked, -⟩, -⟩ := hburn
  exact hunlocked

end Guarded

/-! ### The calls of the router's clients -/

section Clients

variable {may : Address → Prop} {made : (pair : Address) → PairCall pair → Prop} {running : List Address}
variable {envOf : (pair : Address) → Env pair} {env : RouterEnv router (Network Address)}
variable {start net net' : Network Address} {amount : ℤ}

theorem Hosted.transfer (hosted : Hosted may made envOf env start) (hsofar : Evolution may made running start net)
    {token src : Address} (hsrc : may src ∧ (start.pair src).pairState = none)
    (htransfer : env.chain.transfer net token src dst amount = some net') : Evolution may made running start net' := by
  rw [hosted.chain] at htransfer
  have hnone : (net.pair src).pairState = none := by
    have hsame := hsofar.pools src
    rw [hsrc.2] at hsame
    exact Option.isSome_eq_false_iff.mp hsame |> Option.isNone_iff_eq_none.mp
  exact hsofar.trans (.of_transfer envOf hsrc.1 hnone htransfer)

theorem Hosted.call (hosted : Hosted may made envOf env start) (hsofar : Evolution may made running start net)
    {state : PairStorage Address} {w : World Address} (op : CoralSwap.Op Address) (hrouted : Routed op)
    (hstate : (net.pair pair).pairState = some state) (hunlocked : (net.pair pair).locked = false)
    (hexec : CoralSwap.exec (net.world pair state) (envOf pair, op) = .ok w) :
    Evolution may made running start (net.settle pair state w) := by
  have hpool : (start.pair pair).pairState.isSome = true := by
    rw [← hsofar.pools, hstate]
    rfl
  refine hsofar.trans (.of_call envOf (hosted.routed pair op hrouted) (hosted.pools pair hpool) (fun who hwho => ?_)
    ?_ (Or.inr hunlocked) hstate hexec)
  · obtain ⟨hmay, hnone⟩ := hosted.signers pair who hwho
    refine ⟨hmay, ?_⟩
    have hsame := hsofar.pools who
    rw [hnone] at hsame
    exact Option.isSome_eq_false_iff.mp hsame |> Option.isNone_iff_eq_none.mp
  · cases op <;> first | rfl | exact hrouted.elim

theorem Hosted.swap (hosted : Hosted may made envOf env start) (hsofar : Evolution may made running start net)
    {amountAOut amountBOut : ℤ} (hswap : env.chain.swap net pair amountAOut amountBOut dst = some net') :
    Evolution may made running start net' := by
  rw [hosted.chain] at hswap
  obtain ⟨state, w, event, hstate, hcall, rfl⟩ := Router.swap_call_ok hswap
  refine hosted.call hsofar (.swap amountAOut amountBOut dst) trivial hstate (swap_ok hcall).2.1 ?_
  simp only [CoralSwap.exec, hcall]
  rfl

theorem Hosted.mint (hosted : Hosted may made envOf env start) (hsofar : Evolution may made running start net)
    {liquidity : ℤ} (hmint : env.chain.mint net pair dst = some (net', liquidity)) :
    Evolution may made running start net' := by
  rw [hosted.chain] at hmint
  change net.callPair pair (fun w => CoralSwap.mint (envOf pair) w dst) = _ at hmint
  obtain ⟨state, w, hstate, hcall, rfl⟩ := Network.callPair_eq_some.mp hmint
  refine hosted.call hsofar (.mint dst) trivial hstate (unlocked_of_mint hcall) ?_
  simp only [CoralSwap.exec, hcall]
  rfl

theorem Hosted.depositLp (hosted : Hosted may made envOf env start) (hsofar : Evolution may made running start net)
    (hdeposit : env.chain.depositLp net pair dst amount = some net') : Evolution may made running start net' := by
  rw [hosted.chain] at hdeposit
  simp only [networkChain, Option.bind_eq_bind, Option.bind_eq_some_iff, Option.pure_def, Option.some.injEq,
    Prod.exists, Network.callPair_eq_some, bind_eq_ok, pure_eq_ok, Prod.mk.injEq, and_true] at hdeposit
  obtain ⟨_, _, ⟨state, w, hstate, ⟨_, hcall, rfl⟩, rfl⟩, rfl⟩ := hdeposit
  exact hosted.call hsofar (.depositLp dst amount) trivial hstate (unlocked_of_depositLp hcall) hcall

theorem Hosted.burn (hosted : Hosted may made envOf env start) (hsofar : Evolution may made running start net)
    {amounts : ℤ × ℤ} (hburn : env.chain.burn net pair dst = some (net', amounts)) :
    Evolution may made running start net' := by
  rw [hosted.chain] at hburn
  change net.callPair pair (fun w => CoralSwap.burn (envOf pair) w dst) = _ at hburn
  obtain ⟨state, w, hstate, hcall, rfl⟩ := Network.callPair_eq_some.mp hburn
  refine hosted.call hsofar (.burn dst) trivial hstate (unlocked_of_burn hcall) ?_
  simp only [CoralSwap.exec, hcall]
  rfl

end Clients

/-! ### The router's entry points -/

section Router

variable {may : Address → Prop} {made : (pair : Address) → PairCall pair → Prop} {running : List Address}
variable {envOf : (pair : Address) → Env pair} {env : RouterEnv router (Network Address)}
variable {start net net' : Network Address} {factory token : Address} {path : List Address}
variable {amounts : List ℤ} {amount : ℤ}

theorem Hosted.swapHop (hosted : Hosted may made envOf env start) (hsofar : Evolution may made running start net)
    {tokenFrom tokenTo : Address}
    (hhop : Router.swapHop env net pair tokenFrom tokenTo amount dst = .ok net') :
    Evolution may made running start net' := by
  simp only [Router.swapHop, bind_eq_ok] at hhop
  obtain ⟨_, -, hhop⟩ := hhop
  split at hhop
  · exact hosted.swap hsofar (orTrap_eq_ok.mp hhop)
  · exact hosted.swap hsofar (orTrap_eq_ok.mp hhop)

/-- **A path of hops**: each hop is a call of its pair, and the router forwards what it got. -/
theorem Hosted.executeHops (hosted : Hosted may made envOf env start) (hsofar : Evolution may made running start net)
    (hrun : Router.executeHops env factory dst net token path amounts = .ok net') :
    Evolution may made running start net' := by
  induction path generalizing net token amounts with
  | nil => cases hrun
  | cons next path ih =>
      cases amounts with
      | nil => cases path <;> cases hrun
      | cons amount amounts =>
          cases path with
          | nil =>
              simp only [Router.executeHops, bind_eq_ok] at hrun
              obtain ⟨_, -, hhop⟩ := hrun
              exact hosted.swapHop hsofar hhop
          | cons after path =>
              simp only [Router.executeHops, bind_eq_ok, orTrap_eq_ok] at hrun
              obtain ⟨_, -, swapped, hhop, _, -, forwarded, hforward, hrun⟩ := hrun
              exact ih (hosted.transfer (hosted.swapHop hsofar hhop) hosted.router hforward) hrun

theorem Hosted.executePath (hosted : Hosted may made envOf env start) (hsofar : Evolution may made running start net)
    (hrun : Router.executePath env net factory dst path amount amounts = .ok net') :
    Evolution may made running start net' := by
  simp only [Router.executePath, bind_eq_ok, require_eq_ok, exists_const] at hrun
  obtain ⟨hauth, hrun⟩ := hrun
  split at hrun
  · simp only [bind_eq_ok, orTrap_eq_ok] at hrun
    obtain ⟨_, -, paid, hpay, hrun⟩ := hrun
    exact hosted.executeHops (hosted.transfer hsofar (hosted.users dst hauth) hpay) hrun
  · cases hrun

theorem Hosted.sweepDust (hosted : Hosted may made envOf env start) (hsofar : Evolution may made running start net)
    (hsweep : Router.sweepDust env net dst path = .ok net') : Evolution may made running start net' := by
  simp only [Router.sweepDust, bind_eq_ok, orTrap_eq_ok] at hsweep
  obtain ⟨_, -, _, -, hsweep⟩ := hsweep
  split at hsweep
  · exact hosted.transfer hsofar hosted.router (orTrap_eq_ok.mp hsweep)
  · rwa [← pure_eq_ok.mp hsweep]

variable {storage : RouterStorage Address} {amountIn amountOutMin finalOut : ℤ} {deadline : ℕ}
variable {deadlineLedger : Option ℕ}

theorem Hosted.swapExactTokensMultiHop (hosted : Hosted may made envOf env start)
    (hsofar : Evolution may made running start net)
    (hswap : Router.swapExactTokensMultiHop env net storage path amountIn amountOutMin dst deadline deadlineLedger =
      .ok (net', finalOut)) : Evolution may made running start net' := by
  obtain ⟨_, _, executed, -, -, -, -, hrun, hsweep⟩ := Router.swapExactTokensMultiHop_ok hswap
  exact hosted.sweepDust (hosted.executePath hsofar hrun) hsweep

variable {w w' : SystemWorld Address}

/-- **Every call of the router** is such a sequence, and the calls that change its own storage are empty ones. -/
theorem Hosted.exec {op : Router.Op Address (Network Address)} (hosted : Hosted may made envOf env w.rest)
    (hop : ∀ rest, op ≠ .elsewhere rest) (hexec : Router.exec w (env, op) = .ok w') :
    Evolution may made running w.rest w'.rest := by
  have hstart : Evolution may made running w.rest w.rest := .refl
  cases op with
  | initializeRouter factory hubs =>
      obtain rfl := pure_eq_ok.mp hexec
      exact hstart
  | setHubs hubs =>
      obtain rfl := pure_eq_ok.mp hexec
      exact hstart
  | sweep token recipient =>
      simp only [Router.exec, Router.sweep, bind_eq_ok, orTrap_eq_ok, pure_eq_ok] at hexec
      obtain ⟨_, ⟨_, -, _, -, _, -, rest, hsweep, rfl⟩, rfl⟩ := hexec
      exact hosted.transfer hstart hosted.router hsweep
  | getBestPath tokenIn tokenOut amountIn =>
      simp only [Router.exec, bind_eq_ok, pure_eq_ok] at hexec
      obtain ⟨_, -, rfl⟩ := hexec
      exact hstart
  | swapExactTokensMultiHop path amountIn amountOutMin dst deadline deadlineLedger =>
      simp only [Router.exec, bind_eq_ok, pure_eq_ok, Prod.exists] at hexec
      obtain ⟨_, _, hswap, rfl⟩ := hexec
      exact hosted.swapExactTokensMultiHop hstart hswap
  | swapExactTokensForTokens amountIn amountOutMin path dst deadline deadlineLedger =>
      simp only [Router.exec, Router.swapExactTokensForTokens, bind_eq_ok, pure_eq_ok, Prod.exists,
        Prod.mk.injEq] at hexec
      obtain ⟨_, _, ⟨_, _, hswap, rfl, rfl⟩, rfl⟩ := hexec
      exact hosted.swapExactTokensMultiHop hstart hswap
  | swapTokensForExactTokens amountOut amountInMax path dst deadline deadlineLedger =>
      simp only [Router.exec, bind_eq_ok, pure_eq_ok, Prod.exists] at hexec
      obtain ⟨_, _, hswap, rfl⟩ := hexec
      obtain ⟨_, _, _, -, -, -, -, hrun⟩ := Router.swapTokensForExactTokens_ok hswap
      exact hosted.executePath hstart hrun
  | addLiquidity tokenA tokenB amountADesired amountBDesired amountAMin amountBMin dst deadline deadlineLedger =>
      simp only [Router.exec, Router.addLiquidity, bind_eq_ok, require_eq_ok, orTrap_eq_ok, pure_eq_ok, exists_const,
        Prod.exists, Prod.mk.injEq] at hexec
      obtain ⟨rest, _, _, _, hadd, rfl⟩ := hexec
      obtain ⟨-, -, -, -, -, -, _, _, -, _, -, _, -, _, _, -, _, _, -, hauth, sent0, hsent0, sent1, hsent1, minted, _,
        hminted, rfl, -⟩ := hadd
      have hsigned := hosted.users dst hauth
      exact hosted.mint (hosted.transfer (hosted.transfer hstart hsigned hsent0) hsigned hsent1) hminted
  | removeLiquidity tokenA tokenB liquidity amountAMin amountBMin dst deadline deadlineLedger =>
      simp only [Router.exec, Router.removeLiquidity, bind_eq_ok, orTrap_eq_ok, pure_eq_ok, Prod.exists,
        Prod.mk.injEq] at hexec
      obtain ⟨rest, _, _, hremove, rfl⟩ := hexec
      obtain ⟨-, -, -, -, -, -, _, _, -, _, -, _, -, -, -, staged, hstaged, burned, _, _, hburned, -, -, rfl, -⟩ :=
        hremove
      exact hosted.burn (hosted.depositLp hstart hstaged) hburned
  | commitSwap sender hash =>
      simp only [Router.exec, bind_eq_ok, pure_eq_ok] at hexec
      obtain ⟨_, -, rfl⟩ := hexec
      exact hstart
  | setCommitConfig maxCommits expiryLedgers =>
      simp only [Router.exec, Router.setCommitConfig, bind_eq_ok, pure_eq_ok] at hexec
      obtain ⟨_, -, _, -, rfl⟩ := hexec
      exact hstart
  | pruneExpiredCommit sender =>
      obtain rfl := pure_eq_ok.mp hexec
      exact hstart
  | revealSwap sender tokenIn tokenOut amountIn minOut nonce salt =>
      simp only [Router.exec, bind_eq_ok, pure_eq_ok, Prod.exists] at hexec
      obtain ⟨_, _, _, hreveal, rfl⟩ := hexec
      obtain ⟨_, hsettles⟩ := Router.revealSwap_ok hreveal
      obtain ⟨_, _, -, hswap⟩ := hsettles.executed
      exact hosted.swapExactTokensMultiHop hstart hswap
  | elsewhere rest => exact absurd rfl (hop rest)

end Router

end CoralSwap.System
