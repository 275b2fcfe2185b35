import CoralSwap.Pair.Machine
import CoralSwap.Proof.SwapEffects
import CoralSwap.Router.Network
import CoralSwap.Router.Swap

/-!
# What a routed swap moves

Along a path every pair pays the hop's output to the router, which forwards all of it, and the last
pair pays the recipient. The recipient pays the input once and gets the last output; the router keeps
nothing.
-/

namespace CoralSwap.Router

open Host Host.Call

variable {Address : Type} [LinearOrder Address] {router : Address}
variable {envOf : (pair : Address) → Env pair} {net net' net'' : Network Address}

/-! ### Gains -/

/-- What `who` holds of every token grows by `gain` at least, and by just that under `exactly`. -/
structure Gains (exactly : Prop) (net net' : Network Address) (who : Address) (gain : Address → ℤ) :
    Prop where
  atLeast : ∀ token, (net.ledger token).balance who + gain token ≤ (net'.ledger token).balance who
  exact : exactly → ∀ token,
    (net'.ledger token).balance who = (net.ledger token).balance who + gain token

/-- What a payment of `amount` to `dst` is to `who`. -/
def received (who dst token : Address) (amount : ℤ) : Address → ℤ :=
  Pi.single token (if who = dst then amount else 0)

@[simp]
theorem received_self (who token : Address) (amount : ℤ) :
    received who who token amount = Pi.single token amount := by
  rw [received, if_pos rfl]

theorem received_of_ne {who dst : Address} (hne : who ≠ dst) (token : Address) (amount : ℤ) :
    received who dst token amount = 0 := by
  rw [received, if_neg hne, Pi.single_zero]

theorem received_zero (who dst token : Address) : received who dst token 0 = 0 := by
  rw [received, ite_self, Pi.single_zero]

namespace Gains

variable {exactly exactly' : Prop} {who : Address} {gain gain' : Address → ℤ}

omit [LinearOrder Address] in
theorem refl (net : Network Address) (who : Address) : Gains exactly net net who 0 :=
  ⟨fun _ => (add_zero _).le, fun _ _ => (add_zero _).symm⟩

omit [LinearOrder Address] in
theorem mono (himplies : exactly' → exactly) (hgains : Gains exactly net net' who gain) :
    Gains exactly' net net' who gain :=
  ⟨hgains.atLeast, fun hexactly => hgains.exact (himplies hexactly)⟩

omit [LinearOrder Address] in
theorem trans (hfirst : Gains exactly net net' who gain)
    (hsecond : Gains exactly net' net'' who gain') :
    Gains exactly net net'' who (gain + gain') := by
  constructor
  · intro token
    have hle := hfirst.atLeast token
    have hle' := hsecond.atLeast token
    rw [Pi.add_apply]
    omega
  · intro hexactly token
    rw [hsecond.exact hexactly, hfirst.exact hexactly, Pi.add_apply, add_assoc]

/-- One ledger changes. -/
theorem of_update {token : Address} {t : Token Address} {change : ℤ}
    (hle : (net.ledger token).balance who + change ≤ t.balance who)
    (heq : exactly → t.balance who = (net.ledger token).balance who + change) :
    Gains exactly net { net with ledger := Function.update net.ledger token t } who
      (Pi.single token change) := by
  constructor
  · intro other
    change _ ≤ (Function.update net.ledger token t other).balance who
    by_cases hother : other = token
    · subst hother
      rwa [Function.update_self, Pi.single_eq_same]
    · rw [Function.update_of_ne hother, Pi.single_eq_of_ne hother, add_zero]
  · intro hexactly other
    change (Function.update net.ledger token t other).balance who = _
    by_cases hother : other = token
    · subst hother
      rw [Function.update_self, Pi.single_eq_same, heq hexactly]
    · rw [Function.update_of_ne hother, Pi.single_eq_of_ne hother, add_zero]

end Gains

/-! ### A transfer -/

/-- The two tokens a pair trades, in canonical order. -/
def Trades (net : Network Address) (pair tokenX tokenY : Address) : Prop :=
  ∃ state, (net.pair pair).pairState = some state ∧
    (state.tokenA, state.tokenB) = if tokenX < tokenY then (tokenX, tokenY) else (tokenY, tokenX)

/-- The factories and what the pairs trade are the same. -/
structure SameRegistry (net net' : Network Address) : Prop where
  registry : net'.registry = net.registry
  trades : ∀ {pair tokenX tokenY}, Trades net pair tokenX tokenY → Trades net' pair tokenX tokenY

theorem SameRegistry.trans (hfirst : SameRegistry net net') (hsecond : SameRegistry net' net'') :
    SameRegistry net net'' :=
  ⟨hsecond.registry.trans hfirst.registry, fun htrades => hsecond.trades (hfirst.trades htrades)⟩

section Transfer

variable {token src dst : Address} {amount : ℤ}

theorem transfer_ok (htransfer : net.transfer token src dst amount = some net') :
    ∃ moved, (net.ledger token).transfer src dst amount = some moved ∧
      net' = { net with ledger := Function.update net.ledger token moved } := by
  simp only [Network.transfer, Option.bind_eq_bind, Option.bind_eq_some_iff, Option.pure_def,
    Option.some.injEq] at htransfer
  obtain ⟨moved, hmoved, hresult⟩ := htransfer
  exact ⟨moved, hmoved, hresult.symm⟩

theorem sameRegistry_of_transfer (htransfer : net.transfer token src dst amount = some net') :
    SameRegistry net net' := by
  obtain ⟨moved, -, rfl⟩ := transfer_ok htransfer
  exact ⟨rfl, fun htrades => htrades⟩

/-- Who sends loses the amount, who receives gains it. -/
theorem gains_of_transfer {exactly : Prop} (hne : src ≠ dst)
    (htransfer : net.transfer token src dst amount = some net') (who : Address) :
    Gains exactly net net' who
      (received who dst token amount - received who src token amount) := by
  obtain ⟨moved, hmoved, rfl⟩ := transfer_ok htransfer
  have hbalance : moved.balance who = (net.ledger token).balance who +
      ((if who = dst then amount else 0) - if who = src then amount else 0) := by
    rw [(Token.transfer_eq_some hmoved).2, Token.moved, if_neg hne]
    split_ifs with hsrc hdst hdst
    · exact absurd (hsrc.symm.trans hdst) hne
    · subst hsrc
      omega
    · subst hdst
      omega
    · omega
  rw [received, received, ← Pi.single_sub]
  exact .of_update hbalance.ge fun _ => hbalance

end Transfer

/-! ### A hop -/

section Hop

variable {pair who dst tokenX tokenY : Address} {state : PairStorage Address}
variable {amountAOut amountBOut amount : ℤ}

theorem swap_call_ok
    (hswap : (networkChain envOf).swap net pair amountAOut amountBOut dst = some net') :
    ∃ state w' event, (net.pair pair).pairState = some state ∧
      swap (envOf pair) (net.world pair state) amountAOut amountBOut dst = .ok (w', event) ∧
      net' = net.settle pair state w' := by
  simp only [networkChain, Option.bind_eq_bind, Option.bind_eq_some_iff, Option.pure_def,
    Option.some.injEq, Prod.exists] at hswap
  obtain ⟨_, event, hcall, rfl⟩ := hswap
  obtain ⟨state, w', hstate, hrun, hsettled⟩ := Network.callPair_eq_some.mp hcall
  exact ⟨state, w', event, hstate, hrun, hsettled⟩

/-- A call that leaves the pair's tokens as they are. -/
theorem sameRegistry_of_settle {after : PairStorage Address} {w' : World Address}
    (hstate : (net.pair pair).pairState = some state) (hafter : w'.pair.pairState = some after)
    (htokenA : after.tokenA = state.tokenA) (htokenB : after.tokenB = state.tokenB) :
    SameRegistry net (net.settle pair state w') := by
  refine ⟨rfl, ?_⟩
  rintro other tokenX tokenY ⟨state', hstate', horder⟩
  by_cases hother : other = pair
  · subst hother
    obtain rfl := Option.some.inj (hstate.symm.trans hstate')
    refine ⟨after, ?_, ?_⟩
    · rw [Network.settle_pair_self]
      exact hafter
    · rw [htokenA, htokenB]
      exact horder
  · refine ⟨state', ?_, horder⟩
    rwa [Network.settle_pair_of_ne hother]

/-- A call moves the two ledgers of a pair, which are different ones. -/
theorem gains_of_settle {exactly : Prop} {w' : World Address} {changeA changeB : ℤ}
    (htokens : state.tokenA ≠ state.tokenB)
    (hleA : (net.ledger state.tokenA).balance who + changeA ≤ w'.tokenA.balance who)
    (hleB : (net.ledger state.tokenB).balance who + changeB ≤ w'.tokenB.balance who)
    (heqA : exactly → w'.tokenA.balance who = (net.ledger state.tokenA).balance who + changeA)
    (heqB : exactly → w'.tokenB.balance who = (net.ledger state.tokenB).balance who + changeB) :
    Gains exactly net (net.settle pair state w') who
      (Pi.single state.tokenA changeA + Pi.single state.tokenB changeB) := by
  have hledger : (Function.update net.ledger state.tokenA w'.tokenA) state.tokenB =
      net.ledger state.tokenB := Function.update_of_ne htokens.symm _ _
  have hfirst : Gains exactly net
      { net with ledger := Function.update net.ledger state.tokenA w'.tokenA } who
      (Pi.single state.tokenA changeA) := .of_update hleA heqA
  rw [← hledger] at hleB heqB
  have hboth := hfirst.trans (.of_update hleB heqB)
  exact ⟨hboth.atLeast, hboth.exact⟩

/-- **A swap**, seen from the network: the pair trades what it did, and everyone else gets what it
pays out. -/
theorem gains_of_swap (hstate : (net.pair pair).pairState = some state)
    (htokens : state.tokenA ≠ state.tokenB)
    (hswap : (networkChain envOf).swap net pair amountAOut amountBOut dst = some net') :
    (0 < amountAOut ∨ 0 < amountBOut) ∧ SameRegistry net net' ∧ ∀ who ≠ pair,
      Gains ((envOf pair).protocolFeeTo ≠ some who) net net' who
        (received who dst state.tokenA (max amountAOut 0) +
          received who dst state.tokenB (max amountBOut 0)) := by
  obtain ⟨_, w', event, hstored, hcall, rfl⟩ := swap_call_ok hswap
  obtain rfl := Option.some.inj (hstate.symm.trans hstored)
  obtain ⟨-, -, before, after, stored, decayed, paidA, paidB, hsettles⟩ := swap_ok hcall
  obtain rfl := Option.some.inj (hstate.symm.trans hsettles.pairState)
  refine ⟨hsettles.requested, ?_, fun who hne => ?_⟩
  · apply sameRegistry_of_settle hstate hsettles.pairState'
    · rw [hsettles.storage]
    · rw [hsettles.storage]
  · apply gains_of_settle htokens
    · exact hsettles.sideA.others_le hne
    · exact hsettles.sideB.others_le hne
    · exact hsettles.sideA.others_eq hne
    · exact hsettles.sideB.others_eq hne

variable {env : RouterEnv router (Network Address)}

theorem sortTokens_eq_ok {sorted : Address × Address} :
    sortTokens tokenX tokenY = .ok sorted ↔ tokenX ≠ tokenY ∧
      (if tokenX < tokenY then (tokenX, tokenY) else (tokenY, tokenX)) = sorted := by
  simp only [sortTokens, bind_eq_ok, failIf_eq_ok, pure_eq_ok, exists_const, ne_eq]

theorem gains_of_swapHop (hchain : env.chain = networkChain envOf)
    (htrades : Trades net pair tokenX tokenY)
    (hhop : swapHop env net pair tokenX tokenY amount dst = .ok net') :
    SameRegistry net net' ∧ ∀ who ≠ pair, Gains ((envOf pair).protocolFeeTo ≠ some who) net net' who
      (received who dst tokenY amount) := by
  obtain ⟨state, hstate, horder⟩ := htrades
  simp only [swapHop, hchain, bind_eq_ok] at hhop
  obtain ⟨⟨token0, token1⟩, hsort, hhop⟩ := hhop
  obtain ⟨hne, hsorted⟩ := sortTokens_eq_ok.mp hsort
  rcases lt_or_gt_of_ne hne with hlt | hgt
  · rw [if_pos hlt, Prod.mk.injEq] at horder hsorted
    obtain ⟨rfl, rfl⟩ := horder
    rw [if_pos hsorted.1, orTrap_eq_ok] at hhop
    obtain ⟨hrequested, hregistry, hgains⟩ := gains_of_swap hstate hne hhop
    have hpositive : 0 < amount := by omega
    refine ⟨hregistry, fun who hwho => ?_⟩
    simpa [max_eq_left hpositive.le, received] using hgains who hwho
  · rw [if_neg hgt.not_gt, Prod.mk.injEq] at horder hsorted
    obtain ⟨rfl, rfl⟩ := horder
    rw [if_neg (hsorted.1.symm.trans_ne hne.symm).symm, orTrap_eq_ok] at hhop
    obtain ⟨hrequested, hregistry, hgains⟩ := gains_of_swap hstate hne.symm hhop
    have hpositive : 0 < amount := by omega
    refine ⟨hregistry, fun who hwho => ?_⟩
    simpa [max_eq_left hpositive.le, received] using hgains who hwho

/-- What the router forwards cancels what it was paid. -/
theorem gains_of_forwarded {exactly : Prop} {nextPair token : Address}
    (hpaid : Gains exactly net net' who (received who router token amount))
    (hforward : net'.transfer token router nextPair amount = some net'') (hnext : router ≠ nextPair)
    (hne : who ≠ nextPair) : Gains exactly net net'' who 0 := by
  have htotal := hpaid.trans (gains_of_transfer hnext hforward who)
  rwa [received_of_ne hne, zero_sub, add_neg_cancel] at htotal

end Hop

/-! ### A path -/

/-- Every pair of the path trades the tokens it is registered for, and neither the router nor the
recipient is one of them. -/
structure PathServed (net : Network Address) (factory router dst : Address) (path : List Address) :
    Prop where
  recipient : dst ≠ router
  pairs : ∀ tokenX tokenY pair, [tokenX, tokenY] <:+: path →
    net.registry factory tokenX tokenY = some pair →
      Trades net pair tokenX tokenY ∧ pair ≠ router ∧ pair ≠ dst

/-- No pair of the path pays its protocol fee to `who`. -/
def FeesElsewhere (envOf : (pair : Address) → Env pair) (net : Network Address) (factory : Address)
    (path : List Address) (who : Address) : Prop :=
  ∀ tokenX tokenY pair, [tokenX, tokenY] <:+: path →
    net.registry factory tokenX tokenY = some pair → (envOf pair).protocolFeeTo ≠ some who

section Path

variable {factory dst who token tokenX tokenY tokenIn tokenOut pair : Address}
variable {path path' : List Address}
variable {amount amountIn finalOut : ℤ} {amounts : List ℤ} {env : RouterEnv router (Network Address)}

theorem PathServed.of_part (hserved : PathServed net factory router dst path)
    (hpart : path' <:+: path) : PathServed net factory router dst path' :=
  ⟨hserved.recipient, fun _ _ _ hhop => hserved.pairs _ _ _ (hhop.trans hpart)⟩

theorem PathServed.ne_pair (hserved : PathServed net factory router dst path)
    (hhop : [tokenX, tokenY] <:+: path) (hpair : net.registry factory tokenX tokenY = some pair)
    (hwho : who = router ∨ who = dst) : who ≠ pair := by
  obtain ⟨-, hrouter, hdst⟩ := hserved.pairs _ _ _ hhop hpair
  rcases hwho with rfl | rfl
  · exact hrouter.symm
  · exact hdst.symm

theorem PathServed.of_sameRegistry (hserved : PathServed net factory router dst path)
    (hregistry : SameRegistry net net') : PathServed net' factory router dst path := by
  refine ⟨hserved.recipient, fun tokenX tokenY pair hhop hpair => ?_⟩
  rw [hregistry.registry] at hpair
  obtain ⟨htrades, hothers⟩ := hserved.pairs _ _ _ hhop hpair
  exact ⟨hregistry.trades htrades, hothers⟩

omit [LinearOrder Address] in
theorem FeesElsewhere.of_part (hfees : FeesElsewhere envOf net factory path who)
    (hpart : path' <:+: path) : FeesElsewhere envOf net factory path' who :=
  fun _ _ _ hhop => hfees _ _ _ (hhop.trans hpart)

theorem FeesElsewhere.of_sameRegistry (hfees : FeesElsewhere envOf net factory path who)
    (hregistry : SameRegistry net net') : FeesElsewhere envOf net' factory path who := by
  intro tokenX tokenY pair hhop hpair
  rw [hregistry.registry] at hpair
  exact hfees _ _ _ hhop hpair

theorem getPairAddress_ok (hchain : env.chain = networkChain envOf)
    (hpair : getPairAddress env net factory tokenX tokenY = .ok pair) :
    net.registry factory tokenX tokenY = some pair := by
  simp only [getPairAddress, hchain, networkChain, bind_eq_ok, orTrap_eq_ok, okOr_eq_ok, failIf_eq_ok,
    pure_eq_ok, Option.some.injEq, exists_eq_left'] at hpair
  obtain ⟨_, hfound, _, -, rfl⟩ := hpair
  exact hfound

/-- **A path of hops.** Each credit of the router is forwarded, so all that reaches the router or the
recipient is the output of the last hop. -/
theorem gains_of_executeHops (hchain : env.chain = networkChain envOf)
    (hserved : PathServed net factory router dst (token :: path))
    (hlength : amounts.length = path.length) (hamount : amounts.getLast? = some finalOut)
    (htoken : path.getLast? = some tokenOut)
    (hrun : executeHops env factory dst net token path amounts = .ok net')
    (hwho : who = router ∨ who = dst) :
    Gains (FeesElsewhere envOf net factory (token :: path) who) net net' who
      (received who dst tokenOut finalOut) := by
  induction path generalizing net token amounts with
  | nil => cases htoken
  | cons next path ih =>
      obtain ⟨amount, amounts, rfl⟩ := List.exists_cons_of_length_eq_add_one hlength
      have hfirst : [token, next] <:+: token :: next :: path := ⟨[], path, rfl⟩
      cases path with
      | nil =>
          obtain rfl : amounts = [] := by simpa using hlength
          obtain rfl : amount = finalOut := by simpa using hamount
          obtain rfl : next = tokenOut := by simpa using htoken
          simp only [executeHops, bind_eq_ok] at hrun
          obtain ⟨pair, hpair, hhop⟩ := hrun
          have hregistered := getPairAddress_ok hchain hpair
          have hne := hserved.ne_pair hfirst hregistered hwho
          have htrades := (hserved.pairs _ _ _ hfirst hregistered).1
          exact ((gains_of_swapHop hchain htrades hhop).2 who hne).mono fun hfees =>
            hfees _ _ _ hfirst hregistered
      | cons after path =>
          have hrest : amounts.length = (after :: path).length := Nat.succ.inj hlength
          obtain ⟨output, amounts, rfl⟩ := List.exists_cons_of_length_eq_add_one hrest
          rw [List.getLast?_cons_cons] at hamount htoken
          simp only [executeHops, bind_eq_ok, orTrap_eq_ok] at hrun
          obtain ⟨pair, hpair, swapped, hhop, nextPair, hnext, forwarded, hforward, hrun⟩ := hrun
          have hregistered := getPairAddress_ok hchain hpair
          have hne := hserved.ne_pair hfirst hregistered hwho
          have htrades := (hserved.pairs _ _ _ hfirst hregistered).1
          obtain ⟨hswapped, hpaid⟩ := gains_of_swapHop hchain htrades hhop
          have hsecond : [next, after] <:+: token :: next :: after :: path := ⟨[token], path, rfl⟩
          have hregistered' := getPairAddress_ok hchain hnext
          rw [hswapped.registry] at hregistered'
          have hne' := hserved.ne_pair hsecond hregistered' hwho
          have hrouter := hserved.ne_pair hsecond hregistered' (.inl rfl)
          rw [hchain] at hforward
          have hregistry := hswapped.trans (sameRegistry_of_transfer hforward)
          have htail : next :: after :: path <:+: token :: next :: after :: path :=
            (List.suffix_cons token _).isInfix
          have hpassed := (gains_of_forwarded (hpaid who hne) hforward hrouter hne').mono
            fun hfees : FeesElsewhere envOf net factory (token :: next :: after :: path) who =>
              hfees _ _ _ hfirst hregistered
          have hlater := (ih ((hserved.of_part htail).of_sameRegistry hregistry)
            hrest hamount htoken hrun).mono
            fun hfees : FeesElsewhere envOf net factory (token :: next :: after :: path) who =>
              (hfees.of_part htail).of_sameRegistry hregistry
          have htotal := hpassed.trans hlater
          rwa [zero_add] at htotal

theorem gains_of_executePath (hchain : env.chain = networkChain envOf)
    (hserved : PathServed net factory router dst path) (hlength : amounts.length + 1 = path.length)
    (hamount : amounts.getLast? = some finalOut) (hin : path.head? = some tokenIn)
    (hout : path.getLast? = some tokenOut)
    (hrun : executePath env net factory dst path amountIn amounts = .ok net')
    (hwho : who = router ∨ who = dst) :
    Gains (FeesElsewhere envOf net factory path who) net net' who
      (received who dst tokenOut finalOut - received who dst tokenIn amountIn) := by
  simp only [executePath, bind_eq_ok, require_eq_ok, exists_const] at hrun
  obtain ⟨-, hrun⟩ := hrun
  split at hrun
  · rename_i first next path
    obtain rfl : first = tokenIn := by simpa using hin
    simp only [bind_eq_ok, orTrap_eq_ok] at hrun
    obtain ⟨firstPair, hpair, paid, hpay, hrun⟩ := hrun
    have hregistered := getPairAddress_ok hchain hpair
    have hne := hserved.ne_pair ⟨[], path, rfl⟩ hregistered hwho
    have hdst := hserved.ne_pair ⟨[], path, rfl⟩ hregistered (.inr rfl)
    rw [hchain] at hpay
    have hregistry := sameRegistry_of_transfer hpay
    have hlater := (gains_of_executeHops hchain (hserved.of_sameRegistry hregistry)
      (Nat.succ.inj hlength) hamount hout hrun hwho).mono
      fun hfees : FeesElsewhere envOf net factory (first :: next :: path) who =>
        hfees.of_sameRegistry hregistry
    have htotal := (gains_of_transfer hdst hpay who).trans hlater
    rwa [received_of_ne hne, zero_sub, neg_add_eq_sub] at htotal
  · cases hrun

end Path

/-! ### An exact input -/

section ExactInput

variable {factory dst token tokenIn tokenOut : Address} {path : List Address}
variable {amountIn amountOutMin finalOut : ℤ} {amounts : List ℤ} {deadline : ℕ}
variable {deadlineLedger : Option ℕ} {env : RouterEnv router (Network Address)}
variable {storage : RouterStorage Address}

theorem length_of_pathAmountsOut {χ : Type} {env : RouterEnv router χ} {rest : χ}
    (hquote : pathAmountsOut env rest factory token path amountIn = .ok amounts) :
    amounts.length = path.length := by
  induction path generalizing token amountIn amounts with
  | nil =>
      cases hquote
      rfl
  | cons next path ih =>
      simp only [pathAmountsOut, bind_eq_ok, pure_eq_ok] at hquote
      obtain ⟨_, -, _, -, later, hlater, rfl⟩ := hquote
      rw [List.length_cons, List.length_cons, ih hlater]

theorem length_of_getPathAmountsOut {χ : Type} {env : RouterEnv router χ} {rest : χ}
    (hquote : getPathAmountsOut env rest factory path amountIn = .ok amounts) :
    amounts.length + 1 = path.length := by
  unfold getPathAmountsOut at hquote
  split at hquote
  · rw [length_of_pathAmountsOut hquote]
    rfl
  · cases hquote

theorem gains_of_sweepDust (hchain : env.chain = networkChain envOf) (hne : dst ≠ router)
    (hin : path.head? = some tokenIn) (hsweep : sweepDust env net dst path = .ok net')
    (who : Address) {exactly : Prop} :
    Gains exactly net net' who (received who dst tokenIn ((net.ledger tokenIn).balance router) -
      received who router tokenIn ((net.ledger tokenIn).balance router)) := by
  simp only [sweepDust, hchain, bind_eq_ok, orTrap_eq_ok] at hsweep
  obtain ⟨first, hfirst, dust, hdust, hsweep⟩ := hsweep
  obtain rfl := Option.some.inj (hin.symm.trans hfirst)
  obtain rfl := Option.some.inj hdust
  split at hsweep
  · exact gains_of_transfer hne.symm (orTrap_eq_ok.mp hsweep) who
  · rename_i hempty
    obtain rfl := pure_eq_ok.mp hsweep
    have hdust : (net.ledger tokenIn).balance router = 0 :=
      le_antisymm (not_lt.mp hempty) ((net.ledger tokenIn).nonneg router)
    rw [hdust, received_zero, received_zero, sub_zero]
    exact .refl net who

/-- What an accepted swap of an exact input has checked and run. -/
theorem swapExactTokensMultiHop_ok
    (hswap : swapExactTokensMultiHop env net storage path amountIn amountOutMin dst deadline
      deadlineLedger = .ok (net', finalOut)) :
    ∃ factory amounts executed, storage.factory = some factory ∧ amounts.length + 1 = path.length ∧
      amounts.getLast? = some finalOut ∧ amountOutMin ≤ finalOut ∧
      executePath env net factory dst path amountIn amounts = .ok executed ∧
      sweepDust env executed dst path = .ok net' := by
  simp only [swapExactTokensMultiHop, RouterStorage.getFactory, bind_eq_ok, failIf_eq_ok, okOr_eq_ok,
    orTrap_eq_ok, pure_eq_ok, exists_const, Prod.mk.injEq, not_lt] at hswap
  obtain ⟨_, -, -, _, -, factory, hfactory, amounts, hquote, out, hlast, hmin, _, -, -, executed,
    hrun, swept, hsweep, rfl, rfl⟩ := hswap
  exact ⟨factory, amounts, executed, hfactory, length_of_getPathAmountsOut hquote, hlast, hmin, hrun,
    hsweep⟩

omit [LinearOrder Address] in
theorem exists_ends_of_length (hlength : amounts.length + 1 = path.length)
    (hlast : amounts.getLast? = some finalOut) :
    ∃ tokenIn tokenOut, path.head? = some tokenIn ∧ path.getLast? = some tokenOut ∧
      (path.Nodup → tokenIn ≠ tokenOut) := by
  obtain ⟨amount, amounts, rfl⟩ : ∃ amount rest, amounts = amount :: rest := by
    cases amounts with
    | nil => cases hlast
    | cons amount rest => exact ⟨amount, rest, rfl⟩
  obtain ⟨tokenIn, path, rfl⟩ := List.exists_cons_of_length_eq_add_one hlength.symm
  obtain ⟨next, path, rfl⟩ := List.exists_cons_of_length_eq_add_one (Nat.succ.inj hlength).symm
  refine ⟨tokenIn, (next :: path).getLast (List.cons_ne_nil _ _), rfl, ?_, ?_⟩
  · rw [List.getLast?_cons_cons, List.getLast?_eq_some_getLast]
  · intro hnodup heq
    exact (List.nodup_cons.mp hnodup).1 (heq ▸ List.getLast_mem _)

/-- What a routed swap of an exact input moves, from the first token of its path to the last. -/
structure ExactInSettles (net net' : Network Address) (router dst tokenIn tokenOut : Address)
    (path : List Address) (amountIn amountOutMin finalOut : ℤ) : Prop where
  input : (net'.ledger tokenIn).balance dst =
    (net.ledger tokenIn).balance dst - amountIn + (net.ledger tokenIn).balance router
  output : (net'.ledger tokenOut).balance dst = (net.ledger tokenOut).balance dst + finalOut
  minimum : amountOutMin ≤ finalOut
  kept : ∀ token ∈ path, token ≠ tokenIn →
    (net'.ledger token).balance router = (net.ledger token).balance router

theorem exactInSettles_of_swap (hchain : env.chain = networkChain envOf)
    (hfactory : storage.factory = some factory) (hserved : PathServed net factory router dst path)
    (hnodup : path.Nodup) (hrouter : FeesElsewhere envOf net factory path router)
    (hdst : FeesElsewhere envOf net factory path dst)
    (hswap : swapExactTokensMultiHop env net storage path amountIn amountOutMin dst deadline
      deadlineLedger = .ok (net', finalOut)) :
    ∃ tokenIn tokenOut, path.head? = some tokenIn ∧ path.getLast? = some tokenOut ∧
      ExactInSettles net net' router dst tokenIn tokenOut path amountIn amountOutMin finalOut := by
  obtain ⟨_, amounts, executed, hstored, hlength, hlast, hmin, hrun, hsweep⟩ :=
    swapExactTokensMultiHop_ok hswap
  obtain rfl := Option.some.inj (hfactory.symm.trans hstored)
  obtain ⟨tokenIn, tokenOut, hin, hout, hne⟩ := exists_ends_of_length hlength hlast
  have hrouterNe := hserved.recipient.symm
  have hpaid := (gains_of_executePath hchain hserved hlength hlast hin hout hrun
    (.inr rfl)).exact hdst
  have hpassed := (gains_of_executePath hchain hserved hlength hlast hin hout hrun
    (.inl rfl)).exact hrouter
  have hswept := (gains_of_sweepDust hchain hserved.recipient hin hsweep dst).exact trivial
  have hdrained := (gains_of_sweepDust hchain hserved.recipient hin hsweep router).exact trivial
  simp only [received_self, received_of_ne hrouterNe, received_of_ne hserved.recipient, Pi.sub_apply,
    Pi.zero_apply, sub_zero, add_zero] at hpaid hpassed hswept hdrained
  refine ⟨tokenIn, tokenOut, hin, hout, ?_, ?_, hmin, ?_⟩
  · rw [hswept, hpaid, hpassed, Pi.single_eq_of_ne (hne hnodup), Pi.single_eq_same, Pi.single_eq_same]
    omega
  · rw [hswept, hpaid, Pi.single_eq_of_ne (hne hnodup).symm, Pi.single_eq_of_ne (hne hnodup).symm,
      Pi.single_eq_same]
    omega
  · intro token _ hother
    rw [hdrained, hpassed, Pi.single_eq_of_ne hother]
    omega

/-- Whatever the protocol fees, the recipient gets the minimum of the last token at least. -/
theorem minimum_le_of_swap (hchain : env.chain = networkChain envOf)
    (hfactory : storage.factory = some factory) (hserved : PathServed net factory router dst path)
    (hin : path.head? = some tokenIn) (hout : path.getLast? = some tokenOut)
    (hne : tokenIn ≠ tokenOut)
    (hswap : swapExactTokensMultiHop env net storage path amountIn amountOutMin dst deadline
      deadlineLedger = .ok (net', finalOut)) :
    (net.ledger tokenOut).balance dst + amountOutMin ≤ (net'.ledger tokenOut).balance dst := by
  obtain ⟨_, amounts, executed, hstored, hlength, hlast, hmin, hrun, hsweep⟩ :=
    swapExactTokensMultiHop_ok hswap
  obtain rfl := Option.some.inj (hfactory.symm.trans hstored)
  have hpaid := (gains_of_executePath hchain hserved hlength hlast hin hout hrun (.inr rfl)).atLeast
    tokenOut
  have hswept := (gains_of_sweepDust hchain hserved.recipient hin hsweep dst).exact trivial tokenOut
  rw [received_self, received_self, Pi.sub_apply, Pi.single_eq_same,
    Pi.single_eq_of_ne hne.symm] at hpaid
  rw [received_self, received_of_ne hserved.recipient, Pi.sub_apply, Pi.zero_apply,
    Pi.single_eq_of_ne hne.symm] at hswept
  omega

end ExactInput

/-! ### An exact output -/

section ExactOutput

variable {factory dst token : Address} {path : List Address}
variable {amountOut amountInMax needed : ℤ} {required amounts : List ℤ} {deadline : ℕ}
variable {deadlineLedger : Option ℕ} {env : RouterEnv router (Network Address)}
variable {storage : RouterStorage Address}

theorem length_of_pathAmountsIn
    (hquote : pathAmountsIn env net factory token path amountOut = .ok (required, needed)) :
    required.length = path.length := by
  induction path generalizing token required needed with
  | nil =>
      cases hquote
      rfl
  | cons next path ih =>
      simp only [pathAmountsIn, bind_eq_ok, pure_eq_ok, Prod.exists, Prod.mk.injEq] at hquote
      obtain ⟨later, _, hlater, _, _, _, -, _, -, rfl, -⟩ := hquote
      rw [List.length_cons, List.length_cons, ih hlater]

theorem swapTokensForExactTokens_ok
    (hswap : swapTokensForExactTokens env net storage amountOut amountInMax path dst deadline
      deadlineLedger = .ok (net', amounts)) :
    ∃ factory required needed, storage.factory = some factory ∧
      (required ++ [amountOut]).length + 1 = path.length ∧ amounts = [needed] ∧
      needed ≤ amountInMax ∧
      executePath env net factory dst path needed (required ++ [amountOut]) = .ok net' := by
  simp only [swapTokensForExactTokens, RouterStorage.getFactory, countHops, bind_eq_ok, failIf_eq_ok,
    okOr_eq_ok, orTrap_eq_ok, pure_eq_ok, exists_const, Prod.exists, Prod.mk.injEq, not_lt, not_not,
    Word.checkedSub_eq_some] at hswap
  obtain ⟨_, -, -, _, ⟨hops, ⟨-, rfl⟩, hhops, -⟩, factory, hfactory, token, htoken, required, needed,
    hquote, hmax, executed, hrun, rfl, rfl⟩ := hswap
  refine ⟨factory, required.tail, needed, hfactory, ?_, rfl, hmax, hrun⟩
  have hlength := length_of_pathAmountsIn hquote
  rw [List.length_tail] at hlength
  rw [List.length_append, List.length_tail, List.length_singleton]
  omega

/-- What a routed swap for an exact output moves. -/
structure ExactOutSettles (net net' : Network Address) (router dst tokenIn tokenOut : Address)
    (path : List Address) (needed amountInMax amountOut : ℤ) : Prop where
  input : (net'.ledger tokenIn).balance dst = (net.ledger tokenIn).balance dst - needed
  maximum : needed ≤ amountInMax
  output : (net'.ledger tokenOut).balance dst = (net.ledger tokenOut).balance dst + amountOut
  kept : ∀ token ∈ path, (net'.ledger token).balance router = (net.ledger token).balance router

theorem exactOutSettles_of_swap (hchain : env.chain = networkChain envOf)
    (hfactory : storage.factory = some factory) (hserved : PathServed net factory router dst path)
    (hnodup : path.Nodup) (hrouter : FeesElsewhere envOf net factory path router)
    (hdst : FeesElsewhere envOf net factory path dst)
    (hswap : swapTokensForExactTokens env net storage amountOut amountInMax path dst deadline
      deadlineLedger = .ok (net', amounts)) :
    ∃ tokenIn tokenOut needed, path.head? = some tokenIn ∧ path.getLast? = some tokenOut ∧
      amounts = [needed] ∧
      ExactOutSettles net net' router dst tokenIn tokenOut path needed amountInMax amountOut := by
  obtain ⟨_, required, needed, hstored, hlength, rfl, hmax, hrun⟩ := swapTokensForExactTokens_ok hswap
  obtain rfl := Option.some.inj (hfactory.symm.trans hstored)
  have hlast : (required ++ [amountOut]).getLast? = some amountOut := List.getLast?_concat
  obtain ⟨tokenIn, tokenOut, hin, hout, hne⟩ := exists_ends_of_length hlength hlast
  have hpaid := (gains_of_executePath hchain hserved hlength hlast hin hout hrun
    (.inr rfl)).exact hdst
  have hpassed := (gains_of_executePath hchain hserved hlength hlast hin hout hrun
    (.inl rfl)).exact hrouter
  simp only [received_self, received_of_ne hserved.recipient.symm, Pi.sub_apply, Pi.zero_apply,
    sub_zero, add_zero] at hpaid hpassed
  refine ⟨tokenIn, tokenOut, needed, hin, hout, rfl, ?_, hmax, ?_, fun token _ => hpassed token⟩
  · rw [hpaid, Pi.single_eq_of_ne (hne hnodup), Pi.single_eq_same, zero_sub, sub_eq_add_neg]
  · rw [hpaid, Pi.single_eq_of_ne (hne hnodup).symm, Pi.single_eq_same, sub_zero]

/-- **Conservation.** A routed swap moves between the recipient and the pairs only: the router
forwards what it is paid, and gives up what it held of the first token when the input is exact. -/
theorem routedSwaps_conserve (hchain : env.chain = networkChain envOf)
    (hfactory : storage.factory = some factory) (hserved : PathServed net factory router dst path)
    (hnodup : path.Nodup) (hrouter : FeesElsewhere envOf net factory path router)
    (hdst : FeesElsewhere envOf net factory path dst) :
    (∀ {amountIn amountOutMin deadline deadlineLedger net' finalOut},
      swapExactTokensMultiHop env net storage path amountIn amountOutMin dst deadline deadlineLedger =
          .ok (net', finalOut) →
        ∃ tokenIn tokenOut, path.head? = some tokenIn ∧ path.getLast? = some tokenOut ∧
          ExactInSettles net net' router dst tokenIn tokenOut path amountIn amountOutMin finalOut) ∧
    ∀ {amountOut amountInMax deadline deadlineLedger net' amounts},
      swapTokensForExactTokens env net storage amountOut amountInMax path dst deadline
          deadlineLedger = .ok (net', amounts) →
        ∃ tokenIn tokenOut needed, path.head? = some tokenIn ∧ path.getLast? = some tokenOut ∧
          amounts = [needed] ∧
          ExactOutSettles net net' router dst tokenIn tokenOut path needed amountInMax amountOut :=
  ⟨fun hswap => exactInSettles_of_swap hchain hfactory hserved hnodup hrouter hdst hswap,
    fun hswap => exactOutSettles_of_swap hchain hfactory hserved hnodup hrouter hdst hswap⟩

end ExactOutput

/-- A pair that holds 20000 of either token. -/
def hubPair (tokenA tokenB : ℕ) : Pair ℕ :=
  { (World.deployed 0 (.issued 1 0 (by decide)) (.issued 1 0 (by decide))).pair with
    pairState := some
      { factory := 5, tokenA, tokenB, lpToken := 40, reserveA := 20000, reserveB := 20000
        blockTimestampLast := 1, kLast := 400000000 }
    feeState := some FeeState.initial }

/-- The router at 0 has been left with 7 of every token. -/
def hubLedger : Token ℕ where
  balance := fun who => if who = 1 ∨ who = 10 ∨ who = 11 then 20000 else if who = 0 then 7 else 0
  nonneg := by
    intro who
    split_ifs <;> decide
  bounded := by
    intro who
    split_ifs <;> decide

/-- Token 21 is the hub: pair 10 trades it for 20, pair 11 for 22. -/
def hubNetwork : Network ℕ where
  registry := fun _ tokenA tokenB =>
    if (tokenA, tokenB) = (20, 21) ∨ (tokenA, tokenB) = (21, 20) then some 10
    else if (tokenA, tokenB) = (21, 22) ∨ (tokenA, tokenB) = (22, 21) then some 11
    else none
  isPair := fun _ pair => pair = 10 ∨ pair = 11
  feeToSetter := fun _ => none
  pair := fun pair => if pair = 10 then hubPair 20 21 else hubPair 21 22
  lp := fun pair => LpToken.fresh pair
  ledger := fun _ => hubLedger

def hubEnv : RouterEnv 0 (Network ℕ) where
  sequence := 5
  timestamp := 1
  auth := fun who => who = 1
  crypto := Crypto.rejecting ℕ
  chain := networkChain fun pair => Env.quiet pair 1 1 none

def hubStorage : RouterStorage ℕ := { (.deployed : RouterStorage ℕ) with factory := some 5 }

theorem hubPath_served : PathServed hubNetwork 5 0 1 [20, 21, 22] := by
  refine ⟨by decide, fun tokenX tokenY pair _ hpair => ?_⟩
  simp only [hubNetwork] at hpair
  split_ifs at hpair with hdirect hhub
  · obtain rfl := Option.some.inj hpair
    rcases hdirect with h | h
    · cases h
      exact ⟨⟨_, rfl, by decide⟩, by decide, by decide⟩
    · cases h
      exact ⟨⟨_, rfl, by decide⟩, by decide, by decide⟩
  · obtain rfl := Option.some.inj hpair
    rcases hhub with h | h
    · cases h
      exact ⟨⟨_, rfl, by decide⟩, by decide, by decide⟩
    · cases h
      exact ⟨⟨_, rfl, by decide⟩, by decide, by decide⟩

theorem routedSwaps_conserve_hub :
    (∃ net' tokenIn tokenOut, swapExactTokensMultiHop hubEnv hubNetwork hubStorage [20, 21, 22] 1000
        900 1 1 none = .ok (net', 903) ∧
      ExactInSettles hubNetwork net' 0 1 tokenIn tokenOut [20, 21, 22] 1000 900 903) ∧
    ∃ net' tokenIn tokenOut needed, swapTokensForExactTokens hubEnv hubNetwork hubStorage 900 2000
        [20, 21, 22] 1 1 none = .ok (net', [needed]) ∧
      ExactOutSettles hubNetwork net' 0 1 tokenIn tokenOut [20, 21, 22] needed 2000 900 := by
  have hfees : ∀ who,
      FeesElsewhere (fun pair => Env.quiet pair 1 1 none) hubNetwork 5 [20, 21, 22] who :=
    fun who _ _ _ _ _ hto => by cases hto
  have hconserve := routedSwaps_conserve (show hubEnv.chain = _ from rfl)
    (show hubStorage.factory = some 5 from rfl) hubPath_served (by decide) (hfees 0) (hfees 1)
  obtain ⟨⟨net', _⟩, hin, rfl⟩ := exists_ok_of_map_eq (f := Prod.snd) (b := 903)
    (show _ <$> swapExactTokensMultiHop hubEnv hubNetwork hubStorage [20, 21, 22] 1000 900 1 1 none =
      _ by decide +kernel)
  obtain ⟨⟨net'', _⟩, hout, rfl⟩ := exists_ok_of_map_eq (f := Prod.snd) (b := [996])
    (show _ <$> swapTokensForExactTokens hubEnv hubNetwork hubStorage 900 2000 [20, 21, 22] 1 1 none =
      _ by decide +kernel)
  obtain ⟨tokenIn, tokenOut, -, -, hsettles⟩ := hconserve.1 hin
  obtain ⟨tokenIn', tokenOut', needed, -, -, hneeded, hsettles'⟩ := hconserve.2 hout
  cases hneeded
  exact ⟨⟨net', tokenIn, tokenOut, hin, hsettles⟩, net'', tokenIn', tokenOut', _, hout, hsettles'⟩

end CoralSwap.Router
