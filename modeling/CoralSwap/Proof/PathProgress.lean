import CoralSwap.Proof.PathQuotes
import CoralSwap.Proof.SwapProgress
import CoralSwap.Proof.TokenMoves

/-!
# Quoted paths go through

Every hop of a path is ready when its pair is open, holds its reserves, and can trade what was quoted. Paying
a hop and executing it leaves the rest of the path as it was, since its pairs trade other tokens. So a path
that was quoted is executed to its end.
-/

namespace CoralSwap.Router

open Host Host.Call

variable {Address : Type} [LinearOrder Address] {router : Address}
variable {envOf : (pair : Address) → Env pair} {net net' net'' : Network Address}

/-! ### Hops -/

/-- A hop that the pair at `pair` can execute as soon as it has been paid for; `paid` of it has been. -/
structure HopReady (envOf : (pair : Address) → Env pair) (net : Network Address) (factory router dst : Address)
    (paid : ℤ) (tokenIn tokenOut : Address) (amountIn amountOut : ℤ) (pair : Address)
    (state : PairStorage Address) (fs : FeeState) (feeBps : ℕ) : Prop where
  registered : net.registry factory tokenIn tokenOut = some pair
  isPair : net.isPair factory pair = true
  ne_router : pair ≠ router
  ne_dst : pair ≠ dst
  pairState : (net.pair pair).pairState = some state
  feeState : (net.pair pair).feeState = some fs
  unlocked : (net.pair pair).locked = false
  unfrozen : (net.pair pair).frozen = false
  order : (state.tokenA, state.tokenB) = if tokenIn < tokenOut then (tokenIn, tokenOut) else (tokenOut, tokenIn)
  stamp : ¬StampOverflows fs
  quoted : Quoted (state.reserve (tokenIn < tokenOut)) (state.reserve (!decide (tokenIn < tokenOut))) amountIn
    amountOut feeBps
  charged : ∀ decayed, fs.decayStaleEma (envOf pair) = .ok decayed →
    (envOf pair).effectiveFeeBps decayed.computeFeeBps ≤ feeBps
  fits : TradeFits (state.reserve (tokenIn < tokenOut)) (state.reserve (!decide (tokenIn < tokenOut))) amountIn
    amountOut
  balanceIn : (net.ledger tokenIn).balance pair = state.reserve (tokenIn < tokenOut) + paid
  balanceOut : (net.ledger tokenOut).balance pair = state.reserve (!decide (tokenIn < tokenOut))

/-- All hops of a path are ready, and the first one has been paid `paid`. -/
def HopsReady (envOf : (pair : Address) → Env pair) (net : Network Address) (factory router dst : Address) :
    ℤ → Address → List Address → ℤ → List ℤ → Prop
  | _, _, [], _, [] => True
  | paid, tokenIn, tokenOut :: path, amountIn, amountOut :: amounts =>
      (∃ pair state fs feeBps, HopReady envOf net factory router dst paid tokenIn tokenOut amountIn amountOut
        pair state fs feeBps) ∧ HopsReady envOf net factory router dst 0 tokenOut path amountOut amounts
  | _, _, _, _, _ => False

section Hop

variable {factory dst recipient tokenIn tokenOut pair token : Address} {state : PairStorage Address} {fs : FeeState}
variable {paid extra amountIn amountOut : ℤ} {feeBps : ℕ} {w' : World Address}

theorem world_token_in (net : Network Address) (pair : Address)
    (horder : (state.tokenA, state.tokenB) = if tokenIn < tokenOut then (tokenIn, tokenOut) else (tokenOut, tokenIn)) :
    (net.world pair state).token (tokenIn < tokenOut) = net.ledger tokenIn ∧
      (net.world pair state).token (!decide (tokenIn < tokenOut)) = net.ledger tokenOut := by
  by_cases hlt : tokenIn < tokenOut
  · rw [if_pos hlt, Prod.mk.injEq] at horder
    simp [hlt, World.token, Network.world, horder]
  · rw [if_neg hlt, Prod.mk.injEq] at horder
    simp [hlt, World.token, Network.world, horder]

theorem settle_ledger (net : Network Address) (pair : Address) (w' : World Address) (hne : tokenIn ≠ tokenOut)
    (horder : (state.tokenA, state.tokenB) = if tokenIn < tokenOut then (tokenIn, tokenOut) else (tokenOut, tokenIn)) :
    (net.settle pair state w').ledger tokenIn = w'.token (tokenIn < tokenOut) ∧
      (net.settle pair state w').ledger tokenOut = w'.token (!decide (tokenIn < tokenOut)) ∧
        ∀ token, token ≠ tokenIn → token ≠ tokenOut → (net.settle pair state w').ledger token = net.ledger token := by
  by_cases hlt : tokenIn < tokenOut
  · rw [if_pos hlt, Prod.mk.injEq] at horder
    obtain ⟨hA, hB⟩ := horder
    simp only [hlt, World.token, Network.settle, hA, hB]
    refine ⟨?_, ?_, fun token hin hout => ?_⟩
    · simp [Function.update_of_ne hne]
    · simp
    · rw [Function.update_of_ne hout, Function.update_of_ne hin]
  · rw [if_neg hlt, Prod.mk.injEq] at horder
    obtain ⟨hA, hB⟩ := horder
    simp only [hlt, World.token, Network.settle, hA, hB]
    refine ⟨?_, ?_, fun token hin hout => ?_⟩
    · simp
    · simp [Function.update_of_ne hne.symm]
    · rw [Function.update_of_ne hin, Function.update_of_ne hout]

theorem HopReady.tokens (hready : HopReady envOf net factory router dst paid tokenIn tokenOut amountIn amountOut pair
    state fs feeBps) :
    (state.tokenA = tokenIn ∧ state.tokenB = tokenOut) ∨ (state.tokenA = tokenOut ∧ state.tokenB = tokenIn) := by
  have horder := hready.order
  split_ifs at horder
  · rw [Prod.mk.injEq] at horder
    exact Or.inl horder
  · rw [Prod.mk.injEq] at horder
    exact Or.inr horder

/-- What changes between two networks leaves a hop ready, but for what its pair has been paid. -/
theorem HopReady.frame (hready : HopReady envOf net factory router dst paid tokenIn tokenOut amountIn amountOut pair
      state fs feeBps)
    (hregistry : net'.registry = net.registry) (hisPair : net'.isPair = net.isPair)
    (hpair : net'.pair pair = net.pair pair)
    (hin : (net'.ledger tokenIn).balance pair = (net.ledger tokenIn).balance pair + extra)
    (hout : (net'.ledger tokenOut).balance pair = (net.ledger tokenOut).balance pair) :
    HopReady envOf net' factory router dst (paid + extra) tokenIn tokenOut amountIn amountOut pair state fs feeBps where
  registered := by rw [hregistry, hready.registered]
  isPair := by rw [hisPair, hready.isPair]
  ne_router := hready.ne_router
  ne_dst := hready.ne_dst
  pairState := by rw [hpair, hready.pairState]
  feeState := by rw [hpair, hready.feeState]
  unlocked := by rw [hpair, hready.unlocked]
  unfrozen := by rw [hpair, hready.unfrozen]
  order := hready.order
  stamp := hready.stamp
  quoted := hready.quoted
  charged := hready.charged
  fits := hready.fits
  balanceIn := by rw [hin, hready.balanceIn, add_assoc]
  balanceOut := by rw [hout, hready.balanceOut]

/-- What an executed hop does to the network. -/
structure HopDone (net net' : Network Address) (pair tokenIn tokenOut recipient : Address) (amountOut : ℤ) : Prop where
  registry : net'.registry = net.registry
  isPair : net'.isPair = net.isPair
  pairs : ∀ other ≠ pair, net'.pair other = net.pair other
  ledgers : ∀ token, token ≠ tokenIn → token ≠ tokenOut → net'.ledger token = net.ledger token
  payout : (net.ledger tokenOut).transfer pair recipient amountOut = some (net'.ledger tokenOut)
  supplied : (∀ token, (net.ledger token).Supplied) → ∀ token, (net'.ledger token).Supplied

/-- The side of a swap that takes nothing in pays its output, and no protocol fee. -/
theorem transfer_of_outputSide {env : Env pair} {reserve amountIn reserve' : ℤ} {before mid after : Token Address}
    (hside : SideSettles env feeBps recipient reserve amountOut before mid after amountIn reserve')
    (hout : 0 < amountOut) (hne : recipient ≠ pair) (hbalance : before.balance pair = reserve) :
    before.transfer pair recipient amountOut = some after := by
  obtain ⟨-, htransfer⟩ | ⟨hnone, -⟩ := payOut_ok hside.payout
  swap
  · omega
  have hinput : amountIn = 0 := by
    rw [hside.input, Token.balance_src_of_transfer htransfer hne.symm, hbalance, sub_self, max_self]
  have hkept : after = mid := by
    have hcollect := hside.collected
    rw [hinput, show env.protocolFee 0 feeBps = 0 by simp [Env.protocolFee]] at hcollect
    unfold Env.collectProtocolFee payOut at hcollect
    split at hcollect
    · exact (pure_eq_ok.mp hcollect).symm
    · exact (pure_eq_ok.mp hcollect).symm
  rw [hkept, htransfer]

theorem quotedInput_of_ready (hready : HopReady envOf net factory router dst amountIn tokenIn tokenOut amountIn
    amountOut pair state fs feeBps) :
    QuotedInput pair (net.world pair state) state fs (tokenIn < tokenOut) amountIn amountOut feeBps := by
  obtain ⟨hin, hout⟩ := world_token_in net pair hready.order
  refine ⟨hready.pairState, hready.feeState, hready.quoted, ?_, ?_⟩
  · rw [hin]
    exact hready.balanceIn
  · rw [hout]
    exact hready.balanceOut

variable {env : RouterEnv router (Network Address)}

/-- The swap of a hop is the call of its pair that takes the hop's first token in. -/
theorem swapHop_of_swapFor {event : SwapEvent} (hchain : env.chain = networkChain envOf) (hne : tokenIn ≠ tokenOut)
    (hstate : (net.pair pair).pairState = some state)
    (hswap : swapFor (envOf pair) (net.world pair state) (tokenIn < tokenOut) amountOut recipient = .ok (w', event)) :
    swapHop env net pair tokenIn tokenOut amountOut recipient = .ok (net.settle pair state w') := by
  have hcall : ∀ amountAOut amountBOut,
      swap (envOf pair) (net.world pair state) amountAOut amountBOut recipient = .ok (w', event) →
        env.chain.swap net pair amountAOut amountBOut recipient = some (net.settle pair state w') := by
    intro amountAOut amountBOut hcall
    rw [hchain]
    simp only [networkChain, Option.bind_eq_bind, Option.bind_eq_some_iff, Option.pure_def, Option.some.injEq,
      Prod.exists, Network.callPair_eq_some]
    exact ⟨_, _, ⟨state, w', hstate, hcall, rfl⟩, rfl⟩
  simp only [swapHop, bind_eq_ok]
  by_cases hlt : tokenIn < tokenOut
  · refine ⟨(tokenIn, tokenOut), sortTokens_eq_ok.mpr ⟨hne, if_pos hlt⟩, ?_⟩
    rw [if_pos rfl, orTrap_eq_ok]
    refine hcall 0 amountOut ?_
    simpa [swapFor, hlt] using hswap
  · refine ⟨(tokenOut, tokenIn), sortTokens_eq_ok.mpr ⟨hne, if_neg hlt⟩, ?_⟩
    rw [if_neg hne, orTrap_eq_ok]
    refine hcall amountOut 0 ?_
    simpa [swapFor, hlt] using hswap

/-- **A hop that is ready and paid for goes through.** -/
theorem exists_swapHop (hchain : env.chain = networkChain envOf) (hne : tokenIn ≠ tokenOut)
    (hready : HopReady envOf net factory router dst amountIn tokenIn tokenOut amountIn amountOut pair state fs feeBps)
    (hrecipient : recipient ≠ pair) (hsupplied : ∀ token, (net.ledger token).Supplied) :
    ∃ net', swapHop env net pair tokenIn tokenOut amountOut recipient = .ok net' ∧
      HopDone net net' pair tokenIn tokenOut recipient amountOut := by
  have hinput := quotedInput_of_ready hready
  obtain ⟨⟨w', event⟩, hswap⟩ := exists_swap_of_room recipient hready.unlocked hready.unfrozen hinput
    hready.fits hready.stamp (fun isA => by cases isA <;> exact hsupplied _) hready.charged
  refine ⟨net.settle pair state w', swapHop_of_swapFor hchain hne hready.pairState hswap, ?_⟩
  obtain ⟨hledgerIn, hledgerOut, hledgers⟩ := settle_ledger net pair w' hne hready.order
  obtain ⟨hworldIn, hworldOut⟩ := world_token_in net pair hready.order
  have hout := hready.quoted.amountOut_pos
  have hsettles : (net.ledger tokenOut).transfer pair recipient amountOut =
      some (w'.token (!decide (tokenIn < tokenOut))) ∧ WorldMoves (· = pair) (net.world pair state) w' := by
    rw [← hworldOut]
    have hbalance := hinput.balanceOut
    by_cases hlt : tokenIn < tokenOut
    · simp only [hlt, decide_true, Bool.not_true] at hswap hbalance ⊢
      obtain ⟨-, -, before, after, stored, decayed, paidA, paidB, hsettles⟩ := swap_ok hswap
      obtain rfl := Option.some.inj (hready.pairState.symm.trans hsettles.pairState)
      exact ⟨transfer_of_outputSide hsettles.sideB hout hrecipient hbalance, hsettles.moves rfl⟩
    · simp only [hlt, decide_false, Bool.not_false] at hswap hbalance ⊢
      obtain ⟨-, -, before, after, stored, decayed, paidA, paidB, hsettles⟩ := swap_ok hswap
      obtain rfl := Option.some.inj (hready.pairState.symm.trans hsettles.pairState)
      exact ⟨transfer_of_outputSide hsettles.sideA hout hrecipient hbalance, hsettles.moves rfl⟩
  refine ⟨rfl, rfl, fun other hother => Network.settle_pair_of_ne hother, hledgers, ?_, fun _ token => ?_⟩
  · rw [hledgerOut]
    exact hsettles.1
  · have hmoved : ∀ isA, (w'.token isA).Supplied := by
      intro isA
      cases isA
      · exact (hsupplied state.tokenB).moves hsettles.2.tokenB
      · exact (hsupplied state.tokenA).moves hsettles.2.tokenA
    by_cases hin : token = tokenIn
    · rw [hin, hledgerIn]
      exact hmoved _
    · by_cases houtToken : token = tokenOut
      · rw [houtToken, hledgerOut]
        exact hmoved _
      · rw [hledgers token hin houtToken]
        exact hsupplied token

end Hop

/-! ### Paths -/

section Path

variable {factory dst token tokenIn pair : Address} {path : List Address}
variable {paid extra amountIn amount : ℤ} {amounts : List ℤ}

/-- A change that spares the pairs of a path and their tokens, but for what the first pair is paid. -/
theorem HopsReady.frame (net' : Network Address) (extra : ℤ)
    (hready : HopsReady envOf net factory router dst paid token path amountIn amounts)
    (hregistry : net'.registry = net.registry) (hisPair : net'.isPair = net.isPair)
    (hpairs : ∀ pair state, (net.pair pair).pairState = some state → state.tokenA ∈ token :: path →
      state.tokenB ∈ token :: path → net'.pair pair = net.pair pair)
    (hledgers : ∀ other ∈ path, net'.ledger other = net.ledger other)
    (hfirst : ∀ next pair, path.head? = some next → net.registry factory token next = some pair →
      (net'.ledger token).balance pair = (net.ledger token).balance pair + extra) :
    HopsReady envOf net' factory router dst (paid + extra) token path amountIn amounts := by
  induction path generalizing paid extra token amountIn amounts with
  | nil => cases amounts <;> exact hready
  | cons next path ih =>
      cases amounts with
      | nil => exact hready
      | cons amountOut amounts =>
          obtain ⟨⟨pair, state, fs, feeBps, hhop⟩, hrest⟩ := hready
          have hnext : net'.ledger next = net.ledger next := hledgers next List.mem_cons_self
          have htokens : state.tokenA ∈ token :: next :: path ∧ state.tokenB ∈ token :: next :: path := by
            rcases hhop.tokens with ⟨hA, hB⟩ | ⟨hA, hB⟩
            · simp [hA, hB]
            · simp [hA, hB]
          refine ⟨⟨pair, state, fs, feeBps, hhop.frame hregistry hisPair ?_ ?_ (by rw [hnext])⟩, ?_⟩
          · exact hpairs pair state hhop.pairState htokens.1 htokens.2
          · exact hfirst next pair rfl hhop.registered
          · have hlater := ih 0 hrest ?_ ?_ ?_
            · rwa [add_zero] at hlater
            · intro other state' hstate hA hB
              exact hpairs other state' hstate (List.mem_cons_of_mem token hA) (List.mem_cons_of_mem token hB)
            · exact fun other hother => hledgers other (List.mem_cons_of_mem next hother)
            · intro _ other _ _
              rw [hnext, add_zero]

/-- Paying the first pair of a path makes its first hop executable. -/
theorem HopsReady.pay {next src : Address} {moved : Token Address}
    (hready : HopsReady envOf net factory router dst 0 token (next :: path) amountIn amounts)
    (hnodup : (token :: next :: path).Nodup) (hregistered : net.registry factory token next = some pair)
    (hsrc : src ≠ pair) (htransfer : (net.ledger token).transfer src pair amount = some moved) :
    HopsReady envOf { net with ledger := Function.update net.ledger token moved } factory router dst amount token
      (next :: path) amountIn amounts := by
  have hpaid := hready.frame { net with ledger := Function.update net.ledger token moved } amount rfl rfl
    (fun _ _ _ _ _ => rfl) ?_ ?_
  · rwa [zero_add] at hpaid
  · intro other hother
    refine Function.update_of_ne ?_ _ _
    rintro rfl
    exact (List.nodup_cons.mp hnodup).1 hother
  · intro after other hafter hother
    obtain rfl : next = after := by simpa using hafter
    obtain rfl : pair = other := Option.some.inj (hregistered.symm.trans hother)
    change (Function.update net.ledger token moved token).balance pair = _
    rw [Function.update_self, Token.balance_dst_of_transfer htransfer hsrc]

/-- The pairs further down the path trade other tokens, so they are other pairs. -/
theorem HopReady.ne_of_tokens {tokenOut other : Address} {amountOut : ℤ} {state state' : PairStorage Address}
    {fs : FeeState} {feeBps : ℕ}
    (hready : HopReady envOf net factory router dst paid tokenIn tokenOut amountIn amountOut pair state fs feeBps)
    (hnodup : (tokenIn :: path).Nodup) (hother : (net.pair other).pairState = some state')
    (hA : state'.tokenA ∈ path) (hB : state'.tokenB ∈ path) : other ≠ pair := by
  rintro rfl
  obtain rfl := Option.some.inj (hready.pairState.symm.trans hother)
  have hnot := (List.nodup_cons.mp hnodup).1
  rcases hready.tokens with ⟨htoken, -⟩ | ⟨-, htoken⟩
  · exact hnot (htoken ▸ hA)
  · exact hnot (htoken ▸ hB)

variable {env : RouterEnv router (Network Address)}

theorem getPairAddress_eq_ok {tokenX tokenY : Address} (hchain : env.chain = networkChain envOf) :
    getPairAddress env net factory tokenX tokenY = .ok pair ↔
      net.registry factory tokenX tokenY = some pair ∧ net.isPair factory pair = true := by
  simp only [getPairAddress, hchain, networkChain, bind_eq_ok, orTrap_eq_ok, okOr_eq_ok, failIf_eq_ok, pure_eq_ok,
    Option.some.injEq, exists_eq_left', exists_const, Bool.not_eq_false]
  constructor
  · rintro ⟨found, hregistered, hisPair, rfl⟩
    exact ⟨hregistered, hisPair⟩
  · rintro ⟨hregistered, hisPair⟩
    exact ⟨pair, hregistered, hisPair, rfl⟩

theorem exists_forward (recipient : Address) (hchain : env.chain = networkChain envOf) {src : Address}
    (hsupplied : ∀ token, (net.ledger token).Supplied) (hamount : 0 ≤ amount)
    (hfunds : amount ≤ (net.ledger token).balance src) :
    ∃ moved, (net.ledger token).transfer src recipient amount = some moved ∧
      env.chain.transfer net token src recipient amount =
        some { net with ledger := Function.update net.ledger token moved } ∧
      ∀ other, (Function.update net.ledger token moved other).Supplied := by
  obtain ⟨moved, htransfer⟩ := (hsupplied token).exists_transfer recipient hamount hfunds
  refine ⟨moved, htransfer, ?_, fun other => ?_⟩
  · rw [hchain]
    simp only [networkChain, Network.transfer, htransfer]
    rfl
  · by_cases hother : other = token
    · subst hother
      rw [Function.update_self]
      exact (hsupplied other).transfer htransfer
    · rw [Function.update_of_ne hother]
      exact hsupplied other

/-- Executing the first hop leaves the rest of the path ready, with the router holding what it forwards. -/
theorem HopDone.rest {next after : Address} {amountOut : ℤ} {state : PairStorage Address} {fs : FeeState}
    {feeBps : ℕ} (hdone : HopDone net net' pair token next router amountOut)
    (hhop : HopReady envOf net factory router dst paid token next amountIn amountOut pair state fs feeBps)
    (hnodup : (token :: next :: after :: path).Nodup)
    (hrest : HopsReady envOf net factory router dst 0 next (after :: path) amountOut amounts) :
    HopsReady envOf net' factory router dst 0 next (after :: path) amountOut amounts := by
  have hframe := hrest.frame net' 0 hdone.registry hdone.isPair ?_ ?_ ?_
  · rwa [add_zero] at hframe
  · intro other state' hstate hA hB
    exact hdone.pairs other (hhop.ne_of_tokens hnodup hstate hA hB)
  · intro other hother
    have hnext := (List.nodup_cons.mp hnodup).2
    refine hdone.ledgers other ?_ ?_
    · rintro rfl
      exact (List.nodup_cons.mp hnodup).1 (List.mem_cons_of_mem next hother)
    · rintro rfl
      exact (List.nodup_cons.mp hnext).1 hother
  · intro second other hsecond hregistered
    cases amounts with
    | nil => exact hrest.elim
    | cons amount amounts =>
        obtain ⟨⟨nextPair, state', fs', feeBps', hlater⟩, -⟩ := hrest
        obtain rfl : after = second := by simpa using hsecond
        obtain rfl : nextPair = other := Option.some.inj (hlater.registered.symm.trans hregistered)
        have hmem : state'.tokenA ∈ next :: after :: path ∧ state'.tokenB ∈ next :: after :: path := by
          rcases hlater.tokens with ⟨hA, hB⟩ | ⟨hA, hB⟩
          · simp [hA, hB]
          · simp [hA, hB]
        have hne := hhop.ne_of_tokens hnodup hlater.pairState hmem.1 hmem.2
        have hkept : (net'.ledger next).balance nextPair = (net.ledger next).balance nextPair := by
          rw [(Token.transfer_eq_some hdone.payout).2]
          simp [Token.moved, hne, hlater.ne_router]
        rw [hkept, add_zero]

/-- **Every hop of a ready path goes through**, once its first pair is paid. -/
theorem exists_executeHops (hchain : env.chain = networkChain envOf) (hpath : path ≠ [])
    (hnodup : (token :: path).Nodup) (hsupplied : ∀ token, (net.ledger token).Supplied)
    (hready : HopsReady envOf net factory router dst amountIn token path amountIn amounts) :
    ∃ net', executeHops env factory dst net token path amounts = .ok net' ∧
      ∀ token, (net'.ledger token).Supplied := by
  induction path generalizing net token amountIn amounts with
  | nil => exact absurd rfl hpath
  | cons next path ih =>
      cases amounts with
      | nil => exact hready.elim
      | cons amountOut amounts =>
          obtain ⟨⟨pair, state, fs, feeBps, hhop⟩, hrest⟩ := hready
          have hne : token ≠ next := fun heq => (List.nodup_cons.mp hnodup).1 (heq ▸ List.mem_cons_self)
          have hpair := (getPairAddress_eq_ok hchain).mpr ⟨hhop.registered, hhop.isPair⟩
          cases path with
          | nil =>
              obtain ⟨net', hswap, hdone⟩ := exists_swapHop hchain hne hhop hhop.ne_dst.symm hsupplied
              refine ⟨net', ?_, hdone.supplied hsupplied⟩
              simp only [executeHops, bind_eq_ok]
              exact ⟨pair, hpair, hswap⟩
          | cons after path =>
              obtain ⟨swapped, hswap, hdone⟩ := exists_swapHop hchain hne hhop hhop.ne_router.symm hsupplied
              have hswappedRest := hdone.rest hhop hnodup hrest
              cases amounts with
              | nil => exact hrest.elim
              | cons amount amounts =>
                  obtain ⟨nextPair, state', fs', feeBps', hlater⟩ := hswappedRest.1
                  have hnext := (getPairAddress_eq_ok hchain).mpr ⟨hlater.registered, hlater.isPair⟩
                  have hheld : amountOut ≤ (swapped.ledger next).balance router := by
                    rw [Token.balance_dst_of_transfer hdone.payout hhop.ne_router]
                    have hnonneg := (net.ledger next).nonneg router
                    omega
                  obtain ⟨moved, htransfer, hforward, hforwarded⟩ :=
                    exists_forward nextPair hchain (hdone.supplied hsupplied) hhop.quoted.amountOut_pos.le hheld
                  have hpaid := hswappedRest.pay (List.nodup_cons.mp hnodup).2 hlater.registered
                    hlater.ne_router.symm htransfer
                  obtain ⟨net', hrun, hfinal⟩ := ih (by simp) (List.nodup_cons.mp hnodup).2 hforwarded hpaid
                  refine ⟨net', ?_, hfinal⟩
                  simp only [executeHops, bind_eq_ok, orTrap_eq_ok]
                  exact ⟨pair, hpair, swapped, hswap, nextPair, hnext, _, hforward, hrun⟩

end Path

/-! ### Quotes -/

/-- A pair that trades two tokens, is not in the middle of a call or frozen, and holds just its reserves. -/
structure PairOpen (net : Network Address) (pair tokenX tokenY : Address) : Prop where
  trades : Trades net pair tokenX tokenY
  unlocked : (net.pair pair).locked = false
  unfrozen : (net.pair pair).frozen = false
  balanced : ∀ state, (net.pair pair).pairState = some state → Balanced pair (net.world pair state)
  clock : ∃ fs, (net.pair pair).feeState = some fs ∧ (fs.baselineFeeBps : ℤ) ≤ u32.max ∧ ¬StampOverflows fs

/-- Every pair of the path is open, and is neither the router nor the recipient. -/
def PathOpen (net : Network Address) (factory router dst : Address) (path : List Address) : Prop :=
  ∀ tokenX tokenY pair, [tokenX, tokenY] <:+: path → net.registry factory tokenX tokenY = some pair →
    PairOpen net pair tokenX tokenY ∧ pair ≠ router ∧ pair ≠ dst

section Quotes

variable {Token : Type} (price : Token → Token → Call RouterError (ℤ × ℤ × ℕ))

/-- The amounts of a path are quoted hop by hop at these prices. -/
def HopsQuoted : Token → List Token → ℤ → List ℤ → Prop
  | _, [], _, [] => True
  | token, next :: path, amountIn, amountOut :: amounts =>
      (∃ reserveIn reserveOut feeBps, price token next = .ok (reserveIn, reserveOut, feeBps) ∧
        Quoted reserveIn reserveOut amountIn amountOut feeBps) ∧ HopsQuoted next path amountOut amounts
  | _, _, _, _ => False

/-- The trade of every hop fits its pair. -/
def HopsFit : Token → List Token → ℤ → List ℤ → Prop
  | token, next :: path, amountIn, amountOut :: amounts =>
      (∀ reserveIn reserveOut feeBps, price token next = .ok (reserveIn, reserveOut, feeBps) →
        TradeFits reserveIn reserveOut amountIn amountOut) ∧ HopsFit next path amountOut amounts
  | _, _, _, _ => True

variable {price} {token : Token} {path : List Token} {amountIn amountOut needed : ℤ}
variable {outputs required : List ℤ}

theorem hopsQuoted_of_outputsAlong (hforward : outputsAlong price token path amountIn = .ok outputs) :
    HopsQuoted price token path amountIn outputs := by
  induction path generalizing token amountIn outputs with
  | nil =>
      obtain rfl := pure_eq_ok.mp hforward
      trivial
  | cons next path ih =>
      obtain ⟨reserveIn, reserveOut, feeBps, out, rest, hprice, hquote, hrest, rfl⟩ := outputsAlong_cons hforward
      have hquoted := quoted_of_quoteOutputAmount (mapQuote_eq_ok.mp hquote)
      exact ⟨⟨reserveIn, reserveOut, feeBps, hprice, hquoted⟩, ih hrest⟩

theorem hopsQuoted_of_inputsAlong (hbackward : inputsAlong price token path amountOut = .ok (required, needed)) :
    HopsQuoted price token path needed (required ++ [amountOut]).tail := by
  induction path generalizing token required needed with
  | nil =>
      cases pure_eq_ok.mp hbackward
      trivial
  | cons next path ih =>
      simp only [inputsAlong, bind_eq_ok, pure_eq_ok, Prod.exists] at hbackward
      obtain ⟨inner, current, hinner, reserveIn, reserveOut, feeBps, hprice, _, hneeded, hresult⟩ := hbackward
      cases hresult
      have hquoted := quoted_of_quoteInputAmount (mapQuote_eq_ok.mp hneeded)
      rw [List.cons_append, List.tail_cons, append_of_inputsAlong hinner]
      exact ⟨⟨reserveIn, reserveOut, feeBps, hprice, hquoted⟩, ih hinner⟩

theorem tail_append_of_inputsAlong {next : Token}
    (hbackward : inputsAlong price token (next :: path) amountOut = .ok (required, needed)) :
    (required ++ [amountOut]).tail = required.tail ++ [amountOut] := by
  simp only [inputsAlong, bind_eq_ok, pure_eq_ok, Prod.exists] at hbackward
  obtain ⟨_, _, -, _, _, _, -, _, -, hresult⟩ := hbackward
  cases hresult
  rfl

theorem HopsQuoted.pos {amounts : List ℤ} (hquoted : HopsQuoted price token path amountIn amounts) :
    ∀ amount ∈ amounts, 0 < amount := by
  induction path generalizing token amountIn amounts with
  | nil =>
      cases amounts with
      | nil => exact List.forall_mem_nil _
      | cons amount amounts => exact hquoted.elim
  | cons next path ih =>
      cases amounts with
      | nil => exact List.forall_mem_nil _
      | cons amount amounts =>
          obtain ⟨⟨_, _, _, -, hhop⟩, hrest⟩ := hquoted
          exact List.forall_mem_cons.mpr ⟨hhop.amountOut_pos, ih hrest⟩

end Quotes

/-! ### Swaps -/

section Swaps

variable {factory dst token tokenX tokenY pair : Address} {path : List Address}
variable {env : RouterEnv router (Network Address)} {storage : RouterStorage Address}
variable {amountIn amountOut amountOutMin amountInMax finalOut needed : ℤ} {amounts required : List ℤ}
variable {deadline : ℕ} {deadlineLedger : Option ℕ}

theorem PathOpen.of_part {part : List Address} (hopen : PathOpen net factory router dst path)
    (hpart : part <:+: path) : PathOpen net factory router dst part :=
  fun _ _ _ hhop => hopen _ _ _ (hhop.trans hpart)

theorem getPairReservesAndFee_ok (hchain : env.chain = networkChain envOf) {reserveIn reserveOut : ℤ} {feeBps : ℕ}
    (hprice : getPairReservesAndFee env net pair tokenX tokenY = .ok (reserveIn, reserveOut, feeBps)) :
    ∃ state isOverride, (net.pair pair).pairState = some state ∧
      getEffectiveFeeBps (envOf pair) (net.world pair state) = .ok (feeBps, isOverride) ∧ tokenX ≠ tokenY ∧
        reserveIn = state.reserve (tokenX < tokenY) ∧ reserveOut = state.reserve (!decide (tokenX < tokenY)) := by
  simp only [getPairReservesAndFee, hchain, networkChain, bind_eq_ok, okOr_eq_ok, failIf_eq_ok, pure_eq_ok,
    Option.map_eq_some_iff, Option.bind_eq_bind, Option.bind_eq_some_iff, toOption_eq_some, exists_const,
    Prod.exists, Prod.mk.injEq] at hprice
  obtain ⟨_, _, ⟨state, hstate, rfl, rfl⟩, -, feeBps', isOverride, ⟨state', hstate', hview⟩, -, token0, _, hsort,
    hresult⟩ := hprice
  obtain rfl := Option.some.inj (hstate.symm.trans hstate')
  obtain ⟨hne, hsorted⟩ := sortTokens_eq_ok.mp hsort
  by_cases hlt : tokenX < tokenY
  · rw [if_pos hlt, Prod.mk.injEq] at hsorted
    rw [if_pos hsorted.1, Prod.mk.injEq, Prod.mk.injEq] at hresult
    obtain ⟨rfl, rfl, rfl⟩ := hresult
    exact ⟨state, isOverride, hstate, hview, hne, by simp [hlt, PairStorage.reserve],
      by simp [hlt, PairStorage.reserve]⟩
  · rw [if_neg hlt, Prod.mk.injEq] at hsorted
    rw [if_neg (hsorted.1.symm.trans_ne hne.symm).symm, Prod.mk.injEq, Prod.mk.injEq] at hresult
    obtain ⟨rfl, rfl, rfl⟩ := hresult
    exact ⟨state, isOverride, hstate, hview, hne, by simp [hlt, PairStorage.reserve],
      by simp [hlt, PairStorage.reserve]⟩

/-- A quoted trade that fits is ready at an open pair. -/
theorem hopReady_of_quoted (hchain : env.chain = networkChain envOf) {reserveIn reserveOut : ℤ} {feeBps : ℕ}
    (hopen : PathOpen net factory router dst [tokenX, tokenY])
    (hprice : getHop env net factory tokenX tokenY = .ok (reserveIn, reserveOut, feeBps))
    (hquoted : Quoted reserveIn reserveOut amountIn amountOut feeBps)
    (hfits : TradeFits reserveIn reserveOut amountIn amountOut) :
    ∃ pair state fs feeBps, HopReady envOf net factory router dst 0 tokenX tokenY amountIn amountOut pair state fs
      feeBps := by
  simp only [getHop, bind_eq_ok] at hprice
  obtain ⟨pair, hpair, hprice⟩ := hprice
  obtain ⟨hregistered, hisPair⟩ := (getPairAddress_eq_ok hchain).mp hpair
  obtain ⟨⟨htrades, hunlocked, hunfrozen, hbalanced, fs, hfs, hbaseline, hstamp⟩, hrouter, hdst⟩ :=
    hopen tokenX tokenY pair (List.infix_refl _) hregistered
  obtain ⟨state, isOverride, hstate, hview, hne, rfl, rfl⟩ := getPairReservesAndFee_ok hchain hprice
  obtain ⟨state', hstate', horder⟩ := htrades
  obtain rfl := Option.some.inj (hstate.symm.trans hstate')
  obtain ⟨hin, hout⟩ := world_token_in net pair horder
  have hheld := hbalanced state hstate
  refine ⟨pair, state, fs, feeBps, hregistered, hisPair, hrouter, hdst, hstate, hfs, hunlocked, hunfrozen, horder,
    hstamp, hquoted, fun decayed hdecay => ?_, hfits, ?_, ?_⟩
  · exact effectiveFeeBps_le_of_view hbaseline hfs hview hdecay
  · rw [add_zero, ← hin, hheld, World.reserve_of_pairState _ hstate]
  · rw [← hout, hheld, World.reserve_of_pairState _ hstate]

theorem hopsReady_of_quoted (hchain : env.chain = networkChain envOf)
    (hopen : PathOpen net factory router dst (token :: path))
    (hquoted : HopsQuoted (getHop env net factory) token path amountIn amounts)
    (hfits : HopsFit (getHop env net factory) token path amountIn amounts) :
    HopsReady envOf net factory router dst 0 token path amountIn amounts := by
  induction path generalizing token amountIn amounts with
  | nil =>
      cases amounts with
      | nil => trivial
      | cons amount amounts => exact hquoted.elim
  | cons next path ih =>
      cases amounts with
      | nil => exact hquoted.elim
      | cons amountOut amounts =>
          obtain ⟨⟨reserveIn, reserveOut, feeBps, hprice, hhop⟩, hrest⟩ := hquoted
          refine ⟨?_, ih (hopen.of_part (List.suffix_cons token _).isInfix) hrest hfits.2⟩
          exact hopReady_of_quoted hchain (hopen.of_part ⟨[], path, rfl⟩) hprice hhop (hfits.1 _ _ _ hprice)

/-- The user can pay `amountIn` of the first token of a path. -/
def CanPay (net : Network Address) (dst : Address) (path : List Address) (amountIn : ℤ) : Prop :=
  ∀ tokenIn, path.head? = some tokenIn → amountIn ≤ (net.ledger tokenIn).balance dst

/-- **A path whose hops were quoted is executed.** -/
theorem exists_executePath {next : Address} (hchain : env.chain = networkChain envOf)
    (hauth : env.auth dst = true) (hopen : PathOpen net factory router dst (token :: next :: path))
    (hnodup : (token :: next :: path).Nodup) (hsupplied : ∀ token, (net.ledger token).Supplied)
    (hquoted : HopsQuoted (getHop env net factory) token (next :: path) amountIn amounts)
    (hfits : HopsFit (getHop env net factory) token (next :: path) amountIn amounts)
    (hfunds : amountIn ≤ (net.ledger token).balance dst) :
    ∃ net', executePath env net factory dst (token :: next :: path) amountIn amounts = .ok net' ∧
      ∀ token, (net'.ledger token).Supplied := by
  have hready := hopsReady_of_quoted hchain hopen hquoted hfits
  cases amounts with
  | nil => exact hquoted.elim
  | cons amountOut amounts =>
      obtain ⟨pair, state, fs, feeBps, hhop⟩ := hready.1
      have hpair := (getPairAddress_eq_ok hchain).mpr ⟨hhop.registered, hhop.isPair⟩
      obtain ⟨moved, htransfer, hpay, hpaid⟩ := exists_forward pair hchain hsupplied
        hhop.quoted.amountIn_pos.le hfunds
      have hpaidReady := hready.pay hnodup hhop.registered hhop.ne_dst.symm htransfer
      obtain ⟨net', hrun, hfinal⟩ := exists_executeHops hchain (by simp) hnodup hpaid hpaidReady
      refine ⟨net', ?_, hfinal⟩
      simp only [executePath, bind_eq_ok, require_eq_ok, orTrap_eq_ok, exists_const]
      exact ⟨hauth, pair, hpair, _, hpay, hrun⟩

theorem exists_sweepDust (dst : Address) (path : List Address) (hchain : env.chain = networkChain envOf)
    (hpath : path ≠ []) (hsupplied : ∀ token, (net.ledger token).Supplied) :
    ∃ net', sweepDust env net dst path = .ok net' := by
  obtain ⟨token, rest, rfl⟩ := List.exists_cons_of_ne_nil hpath
  have hbalance : env.chain.balance net token router = some ((net.ledger token).balance router) := by
    rw [hchain]
    rfl
  simp only [sweepDust, bind_eq_ok, orTrap_eq_ok, List.head?_cons, Option.some.injEq, exists_eq_left', hbalance]
  split
  · rename_i hdust
    obtain ⟨moved, -, hsweep, -⟩ := exists_forward dst hchain hsupplied hdust.le le_rfl
    exact ⟨_, orTrap_eq_ok.mpr hsweep⟩
  · exact ⟨net, rfl⟩

omit [LinearOrder Address] in
theorem countHops_eq (hlength : 2 ≤ path.length ∧ path.length ≤ 4) :
    countHops path = .ok (path.length - 1) := by
  have hfits : u32.checkedSub path.length 1 = some ((path.length : ℤ) - 1) := by
    refine Word.checkedSub_eq_some.mpr ⟨⟨?_, ?_⟩, rfl⟩
    · change (0 : ℤ) ≤ _
      omega
    · change _ ≤ (4294967295 : ℤ)
      omega
  simp only [countHops, hfits, bind_eq_ok, orTrap_eq_ok, Option.some.injEq, exists_eq_left', failIf_eq_ok,
    pure_eq_ok, exists_const]
  omega

/-- A quoted path starts with a hop. -/
theorem exists_hop_of_quoted (hforward : getPathAmountsOut env net factory path amountIn = .ok amounts) :
    ∃ token next rest, path = token :: next :: rest ∧
      HopsQuoted (getHop env net factory) token (next :: rest) amountIn amounts := by
  rcases path with _ | ⟨token, _ | ⟨next, rest⟩⟩
  · exact absurd hforward (by simp [getPathAmountsOut])
  · exact absurd hforward (by simp [getPathAmountsOut])
  · rw [getPathAmountsOut, pathAmountsOut_eq] at hforward
    exact ⟨token, next, rest, rfl, hopsQuoted_of_outputsAlong hforward⟩

/-- What a swap along a path needs besides its quote. -/
structure PathFunded (env : RouterEnv router (Network Address)) (net : Network Address) (dst : Address)
    (path : List Address) : Prop where
  authorised : env.auth dst = true
  length : 2 ≤ path.length ∧ path.length ≤ 4
  nodup : path.Nodup
  supplied : ∀ token, (net.ledger token).Supplied

/-- The trade of every hop of the path fits its pair. -/
def PathFits (env : RouterEnv router (Network Address)) (net : Network Address) (factory : Address)
    (path : List Address) (amountIn : ℤ) (amounts : List ℤ) : Prop :=
  ∀ tokenIn, path.head? = some tokenIn → HopsFit (getHop env net factory) tokenIn path.tail amountIn amounts

theorem exactIn_executes_iff (hchain : env.chain = networkChain envOf) (hfactory : storage.getFactory = .ok factory)
    (hdeadline : checkDeadline env deadline deadlineLedger = .ok ()) (hfunded : PathFunded env net dst path)
    (hopen : PathOpen net factory router dst path)
    (hforward : getPathAmountsOut env net factory path amountIn = .ok amounts)
    (hlast : amounts.getLast? = some finalOut) (hpays : CanPay net dst path amountIn)
    (hfits : PathFits env net factory path amountIn amounts) :
    (∃ net', swapExactTokensMultiHop env net storage path amountIn amountOutMin dst deadline deadlineLedger =
      .ok (net', finalOut)) ↔ amountOutMin ≤ finalOut := by
  have hhops := countHops_eq hfunded.length
  obtain ⟨token, next, rest, rfl, hquoted⟩ := exists_hop_of_quoted hforward
  have hamountIn : 0 < amountIn := by
    cases amounts with
    | nil => exact hquoted.elim
    | cons amountOut amounts =>
        obtain ⟨⟨_, _, _, -, hhop⟩, -⟩ := hquoted
        exact hhop.amountIn_pos
  constructor
  · rintro ⟨net', hswap⟩
    simp only [swapExactTokensMultiHop, bind_eq_ok, failIf_eq_ok, orTrap_eq_ok, exists_const, hfactory, hforward,
      hlast, Except.ok.injEq, Option.some.injEq, exists_eq_left'] at hswap
    obtain ⟨_, -, -, _, -, hreached, -⟩ := hswap
    exact not_lt.mp hreached
  · intro hmin
    obtain ⟨minimums, hminimums, hreached⟩ := exists_getPathMinimums hforward hlast hmin
    obtain ⟨executed, hrun, hsupplied⟩ := exists_executePath hchain hfunded.authorised hopen hfunded.nodup
      hfunded.supplied hquoted (hfits token rfl) (hpays token rfl)
    obtain ⟨swept, hsweep⟩ := exists_sweepDust dst (token :: next :: rest) hchain (by simp) hsupplied
    refine ⟨swept, ?_⟩
    simp only [swapExactTokensMultiHop, bind_eq_ok, failIf_eq_ok, orTrap_eq_ok, pure_eq_ok, exists_const, hdeadline,
      hhops, hfactory, hforward, hlast, hminimums, hrun, hsweep, Except.ok.injEq, Option.some.injEq, exists_eq_left',
      hreached]
    exact ⟨trivial, not_le.mpr hamountIn, not_lt.mpr hmin, by simp⟩

theorem exactOut_executes_iff (hchain : env.chain = networkChain envOf) (hfactory : storage.getFactory = .ok factory)
    (hdeadline : checkDeadline env deadline deadlineLedger = .ok ()) (hfunded : PathFunded env net dst path)
    (hopen : PathOpen net factory router dst path) (hhead : path.head? = some token)
    (hbackward : pathAmountsIn env net factory token path.tail amountOut = .ok (required, needed))
    (hpays : CanPay net dst path needed)
    (hfits : PathFits env net factory path needed (required.tail ++ [amountOut])) :
    (∃ net', swapTokensForExactTokens env net storage amountOut amountInMax path dst deadline deadlineLedger =
      .ok (net', [needed])) ↔ needed ≤ amountInMax := by
  have hhops := countHops_eq hfunded.length
  obtain ⟨next, rest, rfl⟩ : ∃ next rest, path = token :: next :: rest := by
    have hlength := hfunded.length.1
    rcases path with _ | ⟨first, _ | ⟨next, rest⟩⟩
    · cases hhead
    · simp at hlength
    · obtain rfl : first = token := by simpa using hhead
      exact ⟨next, rest, rfl⟩
  have hquoted : HopsQuoted (getHop env net factory) token (next :: rest) needed (required.tail ++ [amountOut]) := by
    rw [List.tail_cons, pathAmountsIn_eq] at hbackward
    have hquoted := hopsQuoted_of_inputsAlong hbackward
    rwa [tail_append_of_inputsAlong hbackward] at hquoted
  have hamountOut : 0 < amountOut := hquoted.pos amountOut (by simp)
  constructor
  · rintro ⟨net', hswap⟩
    simp only [swapTokensForExactTokens, bind_eq_ok, failIf_eq_ok, orTrap_eq_ok, exists_const, hfactory,
      List.head?_cons, hbackward, Except.ok.injEq, Option.some.injEq, exists_eq_left'] at hswap
    obtain ⟨_, -, -, _, -, hreached, -⟩ := hswap
    exact not_lt.mp hreached
  · intro hmax
    obtain ⟨executed, hrun, -⟩ := exists_executePath hchain hfunded.authorised hopen hfunded.nodup hfunded.supplied
      hquoted (hfits token rfl) (hpays token rfl)
    refine ⟨executed, ?_⟩
    simp only [swapTokensForExactTokens, bind_eq_ok, failIf_eq_ok, orTrap_eq_ok, pure_eq_ok, exists_const, hdeadline,
      hhops, hfactory, List.head?_cons, hbackward, hrun, Except.ok.injEq, Option.some.injEq, exists_eq_left']
    exact ⟨trivial, not_le.mpr hamountOut, not_lt.mpr hmax, trivial⟩

end Swaps

theorem hubLedger_supplied : hubLedger.Supplied := by
  refine ⟨60007, by decide, ?_⟩
  have haddsUp := (((Ledger.AddsUp.zero.write 1 (show (0 : ℤ) ≤ 20000 by decide)).write 10
    (show (0 : ℤ) ≤ 20000 by decide)).write 11 (show (0 : ℤ) ≤ 20000 by decide)).write 0
    (show (0 : ℤ) ≤ 7 by decide)
  convert haddsUp using 1
  · funext who
    simp only [hubLedger, Function.update_apply]
    split_ifs <;> omega
  · simp

theorem hubPath_open : PathOpen hubNetwork 5 0 1 [20, 21, 22] := by
  intro tokenX tokenY pair hhop hpair
  obtain ⟨htrades, hrouter, hdst⟩ := hubPath_served.pairs tokenX tokenY pair hhop hpair
  have hknown : pair = 10 ∨ pair = 11 := by
    simp only [hubNetwork] at hpair
    split_ifs at hpair
    · exact Or.inl (Option.some.inj hpair).symm
    · exact Or.inr (Option.some.inj hpair).symm
  have hclock : ¬StampOverflows FeeState.initial := by
    unfold StampOverflows
    decide
  refine ⟨⟨htrades, ?_, ?_, fun state hstate => ?_, FeeState.initial, ?_, by decide, hclock⟩, hrouter, hdst⟩
  all_goals rcases hknown with rfl | rfl
  all_goals first
    | rfl
    | cases hstate
      intro isA
      cases isA <;> rfl

theorem hubPath_funded : PathFunded hubEnv hubNetwork 1 [20, 21, 22] :=
  ⟨by decide, by decide, by decide, fun _ => hubLedger_supplied⟩

/-- Along the hub trades of at most 2000 fit. -/
theorem hubPath_fits {amountIn mid amountOut : ℤ} (hin : amountIn ≤ 2000) (hmid : mid ≤ 2000)
    (hout : amountOut ≤ 2000) : PathFits hubEnv hubNetwork 5 [20, 21, 22] amountIn [mid, amountOut] := by
  have hfits : ∀ {tradeIn tradeOut : ℤ} {priced reserveIn reserveOut feeBps}, tradeIn ≤ 2000 → tradeOut ≤ 2000 →
      priced = Except.ok ((20000 : ℤ), (20000 : ℤ), 30) →
        priced = (.ok (reserveIn, reserveOut, feeBps) : Call RouterError (ℤ × ℤ × ℕ)) →
          TradeFits reserveIn reserveOut tradeIn tradeOut := by
    rintro tradeIn tradeOut _ _ _ _ hsmallIn hsmallOut rfl hpriced
    cases hpriced
    refine ⟨by decide, ?_, ?_⟩
    · unfold minimumReserve
      omega
    · unfold i128
      norm_num
      omega
  intro tokenIn htoken
  obtain rfl : 20 = tokenIn := by simpa using htoken
  refine ⟨fun _ _ _ => hfits hin hmid (by decide +kernel), fun _ _ _ => hfits hmid hout (by decide +kernel), trivial⟩

end CoralSwap.Router
