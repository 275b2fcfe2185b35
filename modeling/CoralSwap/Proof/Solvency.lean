import CoralSwap.Proof.PairEffects

/-!
# Solvency

The reserves a pair stores should be backed by its token balances. Every entry point keeps this
except the one-token mint: its internal swap already books the whole deposit, and the mint books
part of it a second time.
-/

namespace CoralSwap

open Host Host.Call

variable {Address : Type} [DecidableEq Address] {contract : Address}

structure Solvent (contract : Address) (w : World Address) : Prop where
  reserveA_le : w.reserveA ≤ w.tokenA.balance contract
  reserveB_le : w.reserveB ≤ w.tokenB.balance contract

/-! ### One call -/

section Call

variable {env : Env contract} {w w' : World Address} {dst : Address}

omit [DecidableEq Address] in
theorem solvent_iff_of_pairState {state : PairStorage Address}
    (hstate : w.pair.pairState = some state) :
    Solvent contract w ↔ state.reserveA ≤ w.tokenA.balance contract ∧
      state.reserveB ≤ w.tokenB.balance contract := by
  rw [← World.reserveA_of_pairState hstate, ← World.reserveB_of_pairState hstate]
  exact ⟨fun h => ⟨h.reserveA_le, h.reserveB_le⟩, fun h => ⟨h.1, h.2⟩⟩

omit [DecidableEq Address] in
theorem Solvent.of_frame (hsolvent : Solvent contract w)
    (hstate : w'.pair.pairState = w.pair.pairState)
    (hA : w.tokenA.balance contract ≤ w'.tokenA.balance contract)
    (hB : w.tokenB.balance contract ≤ w'.tokenB.balance contract) : Solvent contract w' := by
  constructor
  · simpa only [World.reserveA, hstate] using hsolvent.reserveA_le.trans hA
  · simpa only [World.reserveB, hstate] using hsolvent.reserveB_le.trans hB

theorem solvent_of_swap {amountAOut amountBOut : ℤ} {before after : PairStorage Address}
    {stored decayed : FeeState} {paidA paidB : Token Address} {event : SwapEvent}
    (hswap : SwapSettles env w amountAOut amountBOut dst before after stored decayed paidA paidB w'
      event) : Solvent contract w' :=
  (solvent_iff_of_pairState hswap.pairState').mpr
    ⟨hswap.sideA.reserve_le_balance, hswap.sideB.reserve_le_balance⟩

theorem solvent_of_mint {state : PairStorage Address} {seeded lp : LpToken Address} {liquidity : ℤ}
    (hmint : MintSettles env w dst state seeded lp w' liquidity) : Solvent contract w' := by
  obtain rfl := hmint.result
  exact (solvent_iff_of_pairState rfl).mpr ⟨le_rfl, le_rfl⟩

theorem solvent_of_burn {state : PairStorage Address} {burnLp amountA amountB : ℤ}
    {lp : LpToken Address} {tokenA tokenB : Token Address} (hsolvent : Solvent contract w)
    (hburn : BurnSettles env w dst state burnLp lp tokenA tokenB w' amountA amountB) :
    Solvent contract w' := by
  obtain ⟨hA, hB⟩ := (solvent_iff_of_pairState hburn.pairState).mp hsolvent
  have hpaidA := Token.sub_le_balance_src_of_transfer hburn.paidA
  have hpaidB := Token.sub_le_balance_src_of_transfer hburn.paidB
  obtain rfl := hburn.result
  refine (solvent_iff_of_pairState rfl).mpr ⟨?_, ?_⟩
  · show state.reserveA - amountA ≤ tokenA.balance contract
    omega
  · show state.reserveB - amountB ≤ tokenB.balance contract
    omega

theorem solvent_of_burnSingleSide {lpAmount totalOut sharePreferred shareUnwanted swapOut : ℤ}
    {preferredToken : Address} {state : PairStorage Address} {stored : FeeState} {isA : Bool}
    {lp : LpToken Address} (hsolvent : Solvent contract w)
    (hburn : BurnSingleSideSettles env w dst lpAmount preferredToken state stored isA lp
      sharePreferred shareUnwanted swapOut w' totalOut) : Solvent contract w' := by
  obtain ⟨hA, hB⟩ := (solvent_iff_of_pairState hburn.pairState).mp hsolvent
  have hpaid := Token.sub_le_balance_src_of_transfer hburn.paid
  have hkept := congrArg (fun t => t.balance contract) hburn.kept
  have htotal := hburn.total
  have hstate' := congrArg Pair.pairState hburn.pair'
  refine (solvent_iff_of_pairState hstate').mpr ?_
  cases isA
  · simp only [World.token, Bool.not_false, Bool.false_eq_true, if_true, if_false] at *
    omega
  · simp only [World.token, Bool.not_true, Bool.false_eq_true, if_true, if_false] at *
    omega

theorem solvent_of_flashLoan {receiver : Address} {amountA amountB : ℤ} {callback : Callback Address}
    {state : PairStorage Address} {lentA lentB : Token Address} {called : World Address}
    (hloan : FlashLoanSettles contract w receiver amountA amountB callback state lentA lentB called
      w') : Solvent contract w' := by
  obtain rfl := hloan.result
  exact (solvent_iff_of_pairState rfl).mpr ⟨le_rfl, le_rfl⟩

def Op.IsMintWithOneToken : Op Address → Prop
  | .mintWithOneToken .. => True
  | _ => False

/-- **Step.** Every other accepted call keeps the pair solvent. -/
theorem solvent_of_exec {op : Op Address} (hsolvent : Solvent contract w)
    (hop : ¬op.IsMintWithOneToken) (hexec : exec w (env, op) = .ok w') : Solvent contract w' := by
  cases callEffect_of_exec hexec with
  | initializePair hnone hne hresult =>
      subst hresult
      exact (solvent_iff_of_pairState rfl).mpr ⟨w.tokenA.nonneg contract, w.tokenB.nonneg contract⟩
  | mint hmint => exact solvent_of_mint hmint
  | mintWithOneToken hmint => exact absurd trivial hop
  | depositLp hdeposit =>
      obtain rfl := hdeposit.result
      exact hsolvent.of_frame rfl le_rfl le_rfl
  | burn hburn => exact solvent_of_burn hsolvent hburn
  | burnSingleSide hburn => exact solvent_of_burnSingleSide hsolvent hburn
  | swap hswap => exact solvent_of_swap hswap
  | flashLoan hloan => exact solvent_of_flashLoan hloan
  | emptyFlashLoan hresult => rwa [hresult]
  | sync hstate hresult =>
      subst hresult
      exact (solvent_iff_of_pairState rfl).mpr ⟨le_rfl, le_rfl⟩
  | setStaleThreshold hfs hresult =>
      subst hresult
      exact hsolvent.of_frame rfl le_rfl le_rfl
  | setLpTokenPaused hlp hresult =>
      subst hresult
      exact hsolvent.of_frame rfl le_rfl le_rfl
  | setFrozen hresult =>
      subst hresult
      exact hsolvent.of_frame rfl le_rfl le_rfl
  | external heffect =>
      have hframe := outsideFrame_of_external heffect
      exact hsolvent.of_frame (by rw [hframe.pair]) hframe.balanceA hframe.balanceB

theorem not_solvent_of_mintWithOneToken {tokenIn : Address} {amount minLpOut : ℤ}
    {published : MintSingleSideEvent} (hto : env.protocolFeeTo ≠ some contract)
    (hmint : mintWithOneToken env w dst tokenIn amount minLpOut = .ok (w', published)) :
    ¬Solvent contract w' := by
  obtain ⟨state, stored, isA, pulled, swapped, event, postSwap, lp, hmint⟩ := mintWithOneToken_ok hmint
  obtain ⟨_, after, _, _, _, _, hswap⟩ := swapIntoPair_ok hmint.swap
  obtain rfl : postSwap = after := Option.some.inj (hmint.postSwapState.symm.trans hswap.pairState')
  have hA := hswap.sideA.reserve_eq_balance hto
  have hin := hmint.swapIn_lt
  have hout := hmint.swapOut_pos
  obtain rfl := hmint.result
  rw [solvent_iff_of_pairState rfl]
  rintro ⟨hle, -⟩
  dsimp only at hle
  cases isA
  · simp only [Bool.false_eq_true, if_false] at hle
    omega
  · simp only [if_true] at hle
    omega

end Call

/-! ### Runs -/

omit [DecidableEq Address] in
theorem solvent_deployed (tokenA tokenB : Token Address) :
    Solvent contract (World.deployed contract tokenA tokenB) :=
  ⟨tokenA.nonneg contract, tokenB.nonneg contract⟩

/-- **Solvency.** A run in which no one-token mint goes through ends in a solvent state. -/
theorem solvent_of_no_mintWithOneToken (tokenA tokenB : Token Address)
    (calls : List (PairCall contract))
    (hcalls : (pairMachine contract).Along
      (fun w call => ¬(call.2.IsMintWithOneToken ∧ (pairMachine contract).Accepts w call))
      (World.deployed contract tokenA tokenB) calls) :
    Solvent contract ((pairMachine contract).run (World.deployed contract tokenA tokenB) calls) := by
  refine Machine.run_invariant (m := pairMachine contract) ?_ (solvent_deployed tokenA tokenB) hcalls
  rintro w ⟨env, op⟩ w' hsolvent hcall hexec
  exact solvent_of_exec hsolvent (fun hop => hcall ⟨hop, w', hexec⟩) hexec

theorem solvent_of_no_mintWithOneToken_opening :
    Solvent 0 (openedPool (Env.quiet 0 1 1 none) 20000 20000) :=
  solvent_of_no_mintWithOneToken _ _ _
    ⟨fun h => h.1, fun h => h.1, fun h => h.1, fun h => h.1, trivial⟩

theorem solvent_fails_after_mintWithOneToken :
    ¬∀ (tokenA tokenB : Token ℕ) (calls : List (PairCall 0)),
      Solvent 0 ((pairMachine 0).run (World.deployed 0 tokenA tokenB) calls) := by
  intro hsolvent
  let env : Env 0 := Env.quiet 0 1 1 none
  have hcase := hsolvent (.issued 1 100000 (by decide)) (.issued 1 100000 (by decide))
    (openingCalls env 9 10 11 12 1 20000 20000 ++ [(env, .mintWithOneToken 1 10 10000 1)])
  exact absurd hcase.reserveA_le (by decide +kernel)

end CoralSwap
