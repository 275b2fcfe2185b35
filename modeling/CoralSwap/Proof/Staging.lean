import CoralSwap.Lib.Escrow
import CoralSwap.Proof.OutsideCalls

/-!
# Staged shares

The pair's LP balance mixes the locked seed, what users have staged for a withdrawal, and stray
transfers. The staged part is an escrow: `deposit_lp` stages, `burn` takes everything of its caller
back, and no other call touches it. The balance covers the seed and the escrow from the first mint
on.
-/

namespace CoralSwap

open Host Host.Call

variable {Address : Type} [DecidableEq Address] {contract : Address}

/-! ### The escrow behind the pair -/

/-- The pair's pending entries and their total are those of an escrow. -/
structure Stages (w : World Address) (e : Escrow Address) : Prop where
  pendingLp : ∀ who, w.pair.pendingLp who = e.staged who
  pendingLpTotal : w.pair.pendingLpTotal = e.total

def stagingAction : PairCall contract → Escrow.Action Address
  | (_, .depositLp src amount) => .stage src amount.toNat
  | (_, .burn dst) => .withdraw dst
  | _ => .other

section Call

variable {env : Env contract} {w w' : World Address} {e : Escrow Address}

def Op.KeepsPending : Op Address → Prop
  | .depositLp .. => False
  | .burn .. => False
  | _ => True

theorem pending_of_exec {op : Op Address} (hop : op.KeepsPending)
    (hexec : exec w (env, op) = .ok w') :
    w'.pair.pendingLp = w.pair.pendingLp ∧ w'.pair.pendingLpTotal = w.pair.pendingLpTotal := by
  cases callEffect_of_exec hexec with
  | initializePair hnone hne hresult => exact ⟨by rw [hresult], by rw [hresult]⟩
  | mint hmint => exact ⟨by rw [hmint.result], by rw [hmint.result]⟩
  | mintWithOneToken hmint =>
      obtain ⟨-, -, hpulled, -⟩ := moveToken_ok hmint.pull
      obtain ⟨_, _, _, _, _, _, hswap⟩ := swapIntoPair_ok hmint.swap
      obtain ⟨-, hpending, htotal, -⟩ := hswap.frame
      rw [hpulled] at hpending htotal
      obtain rfl := hmint.result
      exact ⟨hpending, htotal⟩
  | depositLp => exact hop.elim
  | burn => exact hop.elim
  | burnSingleSide hburn => exact ⟨by rw [hburn.pair'], by rw [hburn.pair']⟩
  | swap hswap => exact ⟨hswap.frame.2.1, hswap.frame.2.2.1⟩
  | flashLoan hloan => exact ⟨by rw [hloan.result], by rw [hloan.result]⟩
  | emptyFlashLoan hresult => exact ⟨by rw [hresult], by rw [hresult]⟩
  | sync hstate hresult => exact ⟨by rw [hresult], by rw [hresult]⟩
  | setStaleThreshold hfs hresult => exact ⟨by rw [hresult]; rfl, by rw [hresult]; rfl⟩
  | setLpTokenPaused hlp hresult => exact ⟨by rw [hresult], by rw [hresult]⟩
  | setFrozen hresult => exact ⟨by rw [hresult], by rw [hresult]⟩
  | external heffect =>
      have hframe := outsideFrame_of_external heffect
      exact ⟨by rw [hframe.pair], by rw [hframe.pair]⟩

theorem stages_of_burn {dst : Address} {state : PairStorage Address} {burnLp amountA amountB : ℤ}
    {lp : LpToken Address} {tokenA tokenB : Token Address} (hstages : Stages w e)
    (hburn : BurnSettles env w dst state burnLp lp tokenA tokenB w' amountA amountB) :
    Stages w' (e.apply (.withdraw dst)) := by
  have hown := hstages.pendingLp dst
  have hwithdraw := e.total_withdraw dst
  obtain rfl := hburn.result
  by_cases hpending : 0 < w.pair.pendingLp dst
  · refine ⟨fun who => ?_, ?_⟩
    · simp only [if_pos hpending, Escrow.staged_withdraw]
      by_cases hwho : who = dst
      · subst hwho
        simp
      · simp [hwho, hstages.pendingLp who]
    · have htotal := hstages.pendingLpTotal
      simp only [if_pos hpending]
      omega
  · refine ⟨fun who => ?_, ?_⟩
    · simp only [if_neg hpending, Escrow.staged_withdraw]
      by_cases hwho : who = dst
      · subst hwho
        simp only [Function.update_self]
        omega
      · simp [hwho, hstages.pendingLp who]
    · have htotal := hstages.pendingLpTotal
      simp only [if_neg hpending]
      omega

/-- **Refinement.** Every accepted call takes the escrow behind the pair where its action does. -/
theorem stages_of_exec {op : Op Address} (hstages : Stages w e)
    (hexec : exec w (env, op) = .ok w') : Stages w' (e.apply (stagingAction (env, op))) := by
  by_cases hop : op.KeepsPending
  · obtain ⟨hpending, htotal⟩ := pending_of_exec hop hexec
    have hother : stagingAction (env, op) = .other := by
      cases op <;> first | rfl | exact hop.elim
    rw [hother]
    exact ⟨fun who => by rw [hpending]; exact hstages.pendingLp who,
      by rw [htotal]; exact hstages.pendingLpTotal⟩
  cases op with
  | depositLp src amount =>
      obtain ⟨_, hdeposit⟩ := depositLp_ok hexec
      have hpositive := hdeposit.positive
      obtain rfl := hdeposit.result
      refine ⟨fun who => ?_, ?_⟩
      · simp only [stagingAction, Escrow.staged_stage]
        by_cases hwho : who = src
        · subst hwho
          simp only [Function.update_self, hstages.pendingLp who, Nat.cast_add,
            Int.toNat_of_nonneg hpositive.le]
        · simp [hwho, hstages.pendingLp who]
      · simp only [stagingAction, Escrow.total_stage, hstages.pendingLpTotal, Nat.cast_add,
          Int.toNat_of_nonneg hpositive.le]
  | burn dst =>
      simp only [exec, bind_eq_ok, pure_eq_ok] at hexec
      obtain ⟨⟨_, _, _⟩, hburn, rfl⟩ := hexec
      obtain ⟨_, _, _, _, _, hburn⟩ := burn_ok hburn
      exact stages_of_burn hstages hburn
  | _ => exact absurd trivial hop

end Call

/-! ### What the balance covers -/

def Seeded (contract : Address) (w : World Address) : Prop :=
  minimumLiquidity + w.pair.pendingLpTotal ≤ w.lp.balance contract

/-- What is staged is always there, and from the first share on so is the seed. Nobody but the pair
can touch either. -/
structure Covered (contract : Address) (w : World Address) : Prop where
  staged : w.pair.pendingLpTotal ≤ w.lp.balance contract
  held : LpToken.Held contract w.lp
  seeded : LpToken.Unissued w.lp ∨ Seeded contract w

/-- A step that stages nothing, takes no shares from the pair, and issues no first share. -/
structure SharesFrame (contract : Address) (w w' : World Address) : Prop where
  pendingLpTotal : w'.pair.pendingLpTotal = w.pair.pendingLpTotal
  balance : w.lp.balance contract ≤ w'.lp.balance contract
  held : LpToken.Held contract w.lp → LpToken.Held contract w'.lp
  unissued : LpToken.Unissued w.lp → LpToken.Unissued w'.lp

/-- No signature on behalf of the pair: its address is a contract's, and has no key. -/
def Keyless (call : PairCall contract) : Prop :=
  ∀ lpCall ∈ outsideLpCalls call, ¬LpToken.Signs lpCall.1 contract

/-- While no shares exist, no burn of a negative amount goes through. -/
def FirstSharesMinted (w : World Address) (call : PairCall contract) : Prop :=
  LpToken.machine.Along (fun t lpCall => t.totalSupply = 0 → ¬LpToken.BurnsNegative t lpCall) w.lp
    (outsideLpCalls call)

section Frame

variable {w w' w'' : World Address} {actions : List (External Address)}

omit [DecidableEq Address] in
theorem SharesFrame.seeded (hframe : SharesFrame contract w w') (hseeded : Seeded contract w) :
    Seeded contract w' := by
  unfold Seeded at *
  rw [hframe.pendingLpTotal]
  exact hseeded.trans hframe.balance

omit [DecidableEq Address] in
theorem SharesFrame.covered (hframe : SharesFrame contract w w') (hcovered : Covered contract w) :
    Covered contract w' := by
  refine ⟨?_, hframe.held hcovered.held, hcovered.seeded.imp hframe.unissued hframe.seeded⟩
  rw [hframe.pendingLpTotal]
  exact hcovered.staged.trans hframe.balance

omit [DecidableEq Address] in
theorem SharesFrame.of_eq (hlp : w'.lp = w.lp)
    (htotal : w'.pair.pendingLpTotal = w.pair.pendingLpTotal) : SharesFrame contract w w' :=
  ⟨htotal, by rw [hlp], by rw [hlp]; exact id, by rw [hlp]; exact id⟩

omit [DecidableEq Address] in
theorem Covered.seeded_of_supply (hcovered : Covered contract w) (hsupply : w.lp.totalSupply ≠ 0) :
    Seeded contract w :=
  hcovered.seeded.resolve_left fun hunissued => hsupply hunissued.totalSupply

theorem sharesFrame_of_run (hheld : LpToken.Held contract w.lp)
    (hkeyless : ∀ lpCall ∈ actions.filterMap (External.toLpCall contract),
      ¬LpToken.Signs lpCall.1 contract)
    (hfirst : LpToken.machine.Along
      (fun t lpCall => t.totalSupply = 0 → ¬LpToken.BurnsNegative t lpCall) w.lp
      (actions.filterMap (External.toLpCall contract))) :
    SharesFrame contract w ((externalMachine contract).run w actions) := by
  have houtside : ∀ lpCall ∈ actions.filterMap (External.toLpCall contract),
      LpToken.Outside contract lpCall.1 :=
    fun lpCall hcall => ⟨auth_of_mem_lpCalls hcall, hkeyless lpCall hcall⟩
  have halong := (Machine.along_of_forall_mem (m := LpToken.machine) houtside w.lp).and hfirst
  have hrun := Machine.run_invariant (m := LpToken.machine)
    (I := fun t => LpToken.Held contract t ∧ w.lp.balance contract ≤ t.balance contract ∧
      (LpToken.Unissued w.lp → LpToken.Unissued t)) ?_ ⟨hheld, le_rfl, id⟩ halong
  · rw [← lp_run_eq] at hrun
    have hpair := (outsideFrame_of_run contract w actions).pair
    exact ⟨by rw [hpair], hrun.2.1, fun _ => hrun.1, hrun.2.2⟩
  · rintro t ⟨env, op⟩ t' ⟨hheld, hbalance, hunissued⟩ ⟨houtside, hburns⟩ hexec
    refine ⟨LpToken.held_of_exec houtside hheld hexec,
      hbalance.trans (LpToken.balance_le_of_exec houtside hheld hexec), fun hstart => ?_⟩
    have hnone := hunissued hstart
    exact LpToken.unissued_of_exec houtside hheld (hburns hnone.totalSupply) hnone hexec

end Frame

section Call

variable {env : Env contract} {w w' : World Address} {dst : Address}

theorem lpBalance_of_mint {lp lp' : LpToken Address} {amount : ℤ} (hdst : dst ≠ contract)
    (hmint : lp.mint env.lpEnv dst amount = .ok lp') :
    lp'.balance contract = lp.balance contract := by
  obtain ⟨-, -, -, rfl⟩ := LpToken.mint_ok hmint
  exact Function.update_of_ne hdst.symm _ _

theorem held_of_mint {lp lp' : LpToken Address} {amount : ℤ} (hheld : LpToken.Held contract lp)
    (hmint : lp.mint env.lpEnv dst amount = .ok lp') : LpToken.Held contract lp' := by
  obtain ⟨-, -, -, rfl⟩ := LpToken.mint_ok hmint
  exact hheld.of_eq rfl rfl

theorem seeded_of_mint {state : PairStorage Address} {seeded lp : LpToken Address} {liquidity : ℤ}
    (hcovered : Covered contract w) (hmint : MintSettles env w dst state seeded lp w' liquidity) :
    Seeded contract w' := by
  have hdst := Env.ne_contract_of_auth hmint.authorised
  have hlp : w'.lp.balance contract = seeded.balance contract := by
    rw [hmint.result]
    exact lpBalance_of_mint hdst hmint.minted
  have htotal : w'.pair.pendingLpTotal = w.pair.pendingLpTotal := by rw [hmint.result]
  rcases mintedLiquidity_ok hmint.priced with ⟨-, hseed⟩ | ⟨hsupply, rfl, -⟩
  · obtain ⟨-, -, -, rfl⟩ := LpToken.mint_ok hseed
    have hstaged := hcovered.staged
    have hbalance : (Function.update w.lp.balance contract
        (w.lp.balance contract + minimumLiquidity)) contract =
          w.lp.balance contract + minimumLiquidity := Function.update_self _ _ _
    unfold Seeded
    rw [hlp, htotal]
    show _ ≤ (Function.update w.lp.balance contract _) contract
    omega
  · have hbefore := hcovered.seeded_of_supply hsupply
    unfold Seeded at *
    omega

theorem held_of_pairMint {state : PairStorage Address} {seeded lp : LpToken Address} {liquidity : ℤ}
    (hheld : LpToken.Held contract w.lp)
    (hmint : MintSettles env w dst state seeded lp w' liquidity) : LpToken.Held contract w'.lp := by
  rw [hmint.result]
  refine held_of_mint ?_ hmint.minted
  rcases mintedLiquidity_ok hmint.priced with ⟨-, hseed⟩ | ⟨-, rfl, -⟩
  · exact held_of_mint hheld hseed
  · exact hheld

theorem lpBalance_of_depositLp {src : Address} {amount : ℤ} {lp : LpToken Address}
    (hdeposit : DepositLpSettles env w src amount lp w') :
    w'.lp.balance contract = w.lp.balance contract + amount ∧
      w'.pair.pendingLpTotal = w.pair.pendingLpTotal + amount ∧ ¬LpToken.Unissued w.lp ∧
      (LpToken.Held contract w.lp → LpToken.Held contract w'.lp) := by
  obtain ⟨-, -, hfunds, hlp⟩ := LpToken.transfer_ok hdeposit.moved
  have hpositive := hdeposit.positive
  obtain rfl := hdeposit.result
  subst hlp
  refine ⟨?_, rfl, fun hunissued => ?_, fun hheld => hheld.of_eq rfl rfl⟩
  · simp [Token.moved, hdeposit.ne_contract, hdeposit.ne_contract.symm]
  · have hnone := hunissued.balance src
    have hsome := hfunds hpositive
    omega

theorem seeded_of_burn {state : PairStorage Address} {burnLp amountA amountB : ℤ}
    {lp : LpToken Address} {tokenA tokenB : Token Address} (hcovered : Covered contract w)
    (hburn : BurnSettles env w dst state burnLp lp tokenA tokenB w' amountA amountB) :
    Seeded contract w' := by
  have hbefore := hcovered.seeded_of_supply hburn.supply
  have hbalance : w'.lp.balance contract = w.lp.balance contract - burnLp := by
    obtain ⟨-, -, hlp⟩ := LpToken.burn_ok hburn.burned
    rw [hburn.result, hlp]
    exact Function.update_self _ _ _
  have htotal : w'.pair.pendingLpTotal = if 0 < w.pair.pendingLp dst then
      w.pair.pendingLpTotal - w.pair.pendingLp dst else w.pair.pendingLpTotal := by
    rw [hburn.result]
  unfold Seeded at *
  rcases hburn.redeems with ⟨hpending, hamount⟩ | ⟨hpending, hamount⟩
  · rw [if_pos hpending] at htotal
    omega
  · rw [if_neg (not_lt.mpr hpending)] at htotal
    omega

theorem sharesFrame_of_mintWithOneToken {tokenIn : Address} {amount minLpOut : ℤ}
    {state : PairStorage Address} {stored : FeeState} {isA : Bool} {pulled swapped : World Address}
    {event : SwapEvent} {postSwap : PairStorage Address} {lp : LpToken Address}
    {published : MintSingleSideEvent}
    (hmint : MintWithOneTokenSettles env w dst tokenIn amount minLpOut state stored isA pulled swapped
      event postSwap lp w' published) : SharesFrame contract w w' := by
  obtain ⟨-, -, hpulledPair, hpulledLp⟩ := moveToken_ok hmint.pull
  obtain ⟨_, _, _, _, _, _, hswap⟩ := swapIntoPair_ok hmint.swap
  obtain ⟨hlp, -, htotal, -⟩ := hswap.frame
  have hbalance := lpBalance_of_mint (Env.ne_contract_of_auth hmint.authorised) hmint.minted
  have hsupply := hmint.supply
  rw [hlp, hpulledLp] at hbalance hsupply
  rw [hpulledPair] at htotal
  have hheld : LpToken.Held contract w.lp → LpToken.Held contract lp := fun hheld =>
    held_of_mint (by rw [hlp, hpulledLp]; exact hheld) hmint.minted
  obtain rfl := hmint.result
  exact ⟨htotal, hbalance.ge, hheld, fun hunissued => absurd hunissued.totalSupply hsupply⟩

theorem sharesFrame_of_burnSingleSide {preferredToken : Address} {lpAmount totalOut : ℤ}
    {state : PairStorage Address} {stored : FeeState} {isA : Bool} {lp : LpToken Address}
    {sharePreferred shareUnwanted swapOut : ℤ}
    (hburn : BurnSingleSideSettles env w dst lpAmount preferredToken state stored isA lp sharePreferred
      shareUnwanted swapOut w' totalOut) : SharesFrame contract w w' := by
  have hdst := Env.ne_contract_of_auth hburn.authorised
  obtain ⟨-, -, hlp⟩ := LpToken.burn_ok hburn.burned
  refine ⟨by rw [hburn.pair'], ?_, fun hheld => ?_,
    fun hunissued => absurd hunissued.totalSupply hburn.supply⟩
  · rw [hburn.lp', hlp]
    exact (Function.update_of_ne hdst.symm _ _).ge
  · rw [hburn.lp', hlp]
    exact hheld.of_eq rfl rfl

theorem sharesFrame_of_flashLoan {receiver : Address} {amountA amountB : ℤ} {dataLen : ℕ}
    {callback : Callback Address} {state : PairStorage Address} {lentA lentB : Token Address}
    {called : World Address} (hheld : LpToken.Held contract w.lp)
    (hkeyless : Keyless (env, Op.flashLoan receiver amountA amountB dataLen callback))
    (hfirst : FirstSharesMinted w (env, Op.flashLoan receiver amountA amountB dataLen callback))
    (hloan : FlashLoanSettles contract w receiver amountA amountB callback state lentA lentB called
      w') : SharesFrame contract w w' := by
  have hrun := sharesFrame_of_run
    (w := { w with tokenA := lentA, tokenB := lentB, pair := { w.pair with locked := true } })
    hheld hkeyless hfirst
  rw [outsideActions, ← hloan.called_eq] at hrun
  obtain rfl := hloan.result
  exact ⟨rfl, hrun.balance, hrun.held, hrun.unissued⟩

theorem sharesFrame_of_external {action : External Address} (hheld : LpToken.Held contract w.lp)
    (hkeyless : Keyless (env, Op.external action))
    (hfirst : FirstSharesMinted w (env, Op.external action))
    (hexec : action.exec contract w = .ok w') : SharesFrame contract w w' := by
  have hrun := sharesFrame_of_run hheld hkeyless hfirst
  rwa [outsideActions, Machine.run_cons, Machine.run_nil,
    Machine.step_of_exec_ok (m := externalMachine contract) hexec] at hrun

/-- **Step.** Every accepted call keeps the balance covered, and the seed once it is there. -/
theorem covered_of_exec {op : Op Address} (hkeyless : Keyless (env, op))
    (hfirst : FirstSharesMinted w (env, op)) (hcovered : Covered contract w)
    (hexec : exec w (env, op) = .ok w') :
    Covered contract w' ∧ (Seeded contract w → Seeded contract w') := by
  have hframe : SharesFrame contract w w' →
      Covered contract w' ∧ (Seeded contract w → Seeded contract w') :=
    fun hframe => ⟨hframe.covered hcovered, hframe.seeded⟩
  have hseed : LpToken.Held contract w'.lp → Seeded contract w' →
      Covered contract w' ∧ (Seeded contract w → Seeded contract w') := by
    intro hheld hseeded
    refine ⟨⟨?_, hheld, Or.inr hseeded⟩, fun _ => hseeded⟩
    unfold Seeded minimumLiquidity at hseeded
    omega
  cases callEffect_of_exec hexec with
  | initializePair hnone hne hresult => exact hframe (.of_eq (by rw [hresult]) (by rw [hresult]))
  | mint hmint => exact hseed (held_of_pairMint hcovered.held hmint) (seeded_of_mint hcovered hmint)
  | mintWithOneToken hmint => exact hframe (sharesFrame_of_mintWithOneToken hmint)
  | depositLp hdeposit =>
      obtain ⟨hbalance, htotal, hissued, hheld⟩ := lpBalance_of_depositLp hdeposit
      have hseeded := hcovered.seeded.resolve_left hissued
      refine hseed (hheld hcovered.held) ?_
      unfold Seeded at *
      omega
  | burn hburn =>
      refine hseed ?_ (seeded_of_burn hcovered hburn)
      obtain ⟨-, -, hlp⟩ := LpToken.burn_ok hburn.burned
      rw [hburn.result, hlp]
      exact hcovered.held.of_eq rfl rfl
  | burnSingleSide hburn => exact hframe (sharesFrame_of_burnSingleSide hburn)
  | swap hswap => exact hframe (.of_eq hswap.frame.1 hswap.frame.2.2.1)
  | flashLoan hloan =>
      exact hframe (sharesFrame_of_flashLoan hcovered.held hkeyless hfirst hloan)
  | emptyFlashLoan hresult => exact hframe (.of_eq (by rw [hresult]) (by rw [hresult]))
  | sync hstate hresult => exact hframe (.of_eq (by rw [hresult]) (by rw [hresult]))
  | setStaleThreshold hfs hresult =>
      exact hframe (.of_eq (by rw [hresult]; rfl) (by rw [hresult]; rfl))
  | setLpTokenPaused hlp hresult =>
      obtain ⟨-, rfl⟩ := LpToken.setPaused_ok hlp
      subst hresult
      exact hframe ⟨rfl, le_rfl, fun hheld => hheld.of_eq rfl rfl,
        fun hunissued => ⟨hunissued.totalSupply, hunissued.balance⟩⟩
  | setFrozen hresult => exact hframe (.of_eq (by rw [hresult]) (by rw [hresult]))
  | external heffect =>
      exact hframe (sharesFrame_of_external hcovered.held hkeyless hfirst hexec)

end Call

/-! ### Runs -/

/-- A pending entry changes only by its owner's accepted `deposit_lp`, by exactly the amount, or by
its owner's accepted burn, which clears it. -/
def ChangesOwnPending (w : World Address) (call : PairCall contract) : Prop :=
  ∀ who, ((pairMachine contract).step w call).pair.pendingLp who ≠ w.pair.pendingLp who →
    (pairMachine contract).Accepts w call ∧ call.1.auth who = true ∧
      ((∃ amount, call.2 = .depositLp who amount ∧
          ((pairMachine contract).step w call).pair.pendingLp who = w.pair.pendingLp who + amount) ∨
        (call.2 = .burn who ∧ ((pairMachine contract).step w call).pair.pendingLp who = 0))

/-- An accepted burn leaves the seed and everybody else's stage where they are. -/
def BurnSpares (w : World Address) (call : PairCall contract) : Prop :=
  ∀ dst, call.2 = .burn dst → (pairMachine contract).Accepts w call →
    Seeded contract ((pairMachine contract).step w call) ∧ ∀ who, who ≠ dst →
      ((pairMachine contract).step w call).pair.pendingLp who = w.pair.pendingLp who

theorem changesOwnPending_of_stages {w : World Address} {e : Escrow Address} (hstages : Stages w e)
    (call : PairCall contract) : ChangesOwnPending w call := by
  intro who hchange
  obtain ⟨env, op⟩ := call
  rcases Machine.step_cases (m := pairMachine contract) w (env, op) with hexec | hstay
  swap
  · exact absurd (by rw [hstay]) hchange
  refine ⟨⟨_, hexec⟩, ?_⟩
  have hstages' := stages_of_exec hstages hexec
  have hne : (e.apply (stagingAction (env, op))).staged who ≠ e.staged who := by
    intro heq
    rw [hstages'.pendingLp, hstages.pendingLp, heq] at hchange
    exact hchange rfl
  have howner := Escrow.staged_changes hne
  cases op with
  | depositLp src amount =>
      rcases howner with ⟨_, haction, -⟩ | ⟨haction, -⟩
      · cases haction
        obtain ⟨_, hdeposit⟩ := depositLp_ok hexec
        refine ⟨hdeposit.authorised, Or.inl ⟨amount, rfl, ?_⟩⟩
        rw [hdeposit.result]
        exact Function.update_self _ _ _
      · cases haction
  | burn dst =>
      rcases howner with ⟨_, haction, -⟩ | ⟨haction, hcleared⟩
      · cases haction
      · cases haction
        cases callEffect_of_exec (show exec w (env, Op.burn who) = .ok _ from hexec) with
        | burn hburn =>
            refine ⟨hburn.authorised, Or.inr ⟨rfl, ?_⟩⟩
            rw [hstages'.pendingLp, hcleared]
            rfl
  | _ => exact absurd rfl hne

theorem burnSpares_of_covered {w : World Address} {e : Escrow Address} (hstages : Stages w e)
    (hcovered : Covered contract w) (call : PairCall contract) : BurnSpares w call := by
  rintro dst hop ⟨w', hexec⟩
  obtain ⟨env, op⟩ := call
  obtain rfl : op = .burn dst := hop
  have hown := changesOwnPending_of_stages hstages (env, Op.burn dst)
  have hstep := Machine.step_of_exec_ok (m := pairMachine contract) hexec
  refine ⟨?_, fun who hwho => ?_⟩
  · rw [hstep]
    cases callEffect_of_exec (show exec w (env, Op.burn dst) = .ok w' from hexec) with
    | burn hburn => exact seeded_of_burn hcovered hburn
  · by_contra hchange
    obtain ⟨-, -, ⟨_, hdeposit, -⟩ | ⟨hburn, -⟩⟩ := hown who hchange
    · cases hdeposit
    · cases hburn
      exact hwho rfl

def StagingInvariant (contract : Address) (w : World Address) : Prop :=
  (∃ e, Stages w e) ∧ Covered contract w

theorem stagingInvariant_of_exec {w w' : World Address} {call : PairCall contract}
    (hinv : StagingInvariant contract w) (hkeyless : Keyless call) (hfirst : FirstSharesMinted w call)
    (hexec : exec w call = .ok w') : StagingInvariant contract w' := by
  obtain ⟨⟨e, hstages⟩, hcovered⟩ := hinv
  exact ⟨⟨_, stages_of_exec hstages hexec⟩, (covered_of_exec hkeyless hfirst hcovered hexec).1⟩

omit [DecidableEq Address] in
theorem stagingInvariant_deployed (tokenA tokenB : Token Address) :
    StagingInvariant contract (World.deployed contract tokenA tokenB) := by
  refine ⟨⟨Escrow.empty, fun _ => rfl, ?_⟩, ⟨le_rfl, ⟨rfl, fun _ => rfl⟩, Or.inl ⟨rfl, fun _ => rfl⟩⟩⟩
  rw [Escrow.total_empty]
  rfl

theorem stages_of_reachable {w : World Address} (hreach : Reachable contract w) :
    ∃ e, Stages w e := by
  obtain ⟨tokenA, tokenB, calls, rfl⟩ := hreach
  refine Machine.run_invariant_all (I := fun w : World Address => ∃ e, Stages w e) ?_
    (stagingInvariant_deployed tokenA tokenB).1 calls
  rintro w ⟨env, op⟩ w' ⟨e, hstages⟩ hexec
  exact ⟨_, stages_of_exec hstages hexec⟩

def Op.IsMint : Op Address → Prop
  | .mint _ => True
  | _ => False

/-- **Attribution of staged shares.** In a run without forged signatures and forged first shares the
pending total is the sum of the pending entries, once a mint has gone through the pair holds the seed
and everything staged, and an entry changes only by what its owner does; no burn touches the seed or
the stage of anyone else. -/
theorem staging_attribution (tokenA tokenB : Token Address) (calls : List (PairCall contract))
    (hkeyless : ∀ call ∈ calls, Keyless call)
    (hfirst : (pairMachine contract).Along FirstSharesMinted (World.deployed contract tokenA tokenB)
      calls) :
    let start := World.deployed contract tokenA tokenB
    let w := (pairMachine contract).run start calls
    (∃ accounts : Finset Address, (∀ who, who ∉ accounts → w.pair.pendingLp who = 0) ∧
        w.pair.pendingLpTotal = ∑ who ∈ accounts, w.pair.pendingLp who) ∧
      ((pairMachine contract).Occurs (fun call => call.2.IsMint) start calls →
        minimumLiquidity + w.pair.pendingLpTotal ≤ w.lp.balance contract) ∧
      (pairMachine contract).Along ChangesOwnPending start calls ∧
      (pairMachine contract).Along BurnSpares start calls := by
  intro start w
  have halong := (Machine.along_of_forall_mem (m := pairMachine contract) hkeyless start).and hfirst
  have hstep : ∀ w (call : PairCall contract) w', StagingInvariant contract w →
      (Keyless call ∧ FirstSharesMinted w call) → (pairMachine contract).exec w call = .ok w' →
      StagingInvariant contract w' :=
    fun _ _ _ hinv hcall hexec => stagingInvariant_of_exec hinv hcall.1 hcall.2 hexec
  have hstart : StagingInvariant contract start := stagingInvariant_deployed tokenA tokenB
  refine ⟨?_, ?_, ?_, ?_⟩
  · obtain ⟨⟨e, hstages⟩, -⟩ := Machine.run_invariant hstep hstart halong
    refine ⟨e.staged.support, fun who hwho => ?_, ?_⟩
    · rw [hstages.pendingLp, Finsupp.notMem_support_iff.mp hwho]
      rfl
    · rw [hstages.pendingLpTotal, Escrow.total, Finsupp.degree_apply, Nat.cast_sum]
      exact Finset.sum_congr rfl fun who _ => (hstages.pendingLp who).symm
  · refine Machine.run_of_occurs (R := Seeded contract) hstep ?_ ?_ hstart halong
    · rintro w₁ ⟨env, op⟩ w₂ hinv hmint hexec
      cases callEffect_of_exec hexec with
      | mint h => exact seeded_of_mint hinv.2 h
      | _ => exact hmint.elim
    · rintro w₁ ⟨env, op⟩ w₂ ⟨hinv, hseeded⟩ hcall hexec
      exact (covered_of_exec hcall.1 hcall.2 hinv.2 hexec).2 hseeded
  · refine Machine.along_of_invariant hstep ?_ hstart halong
    rintro w₁ call ⟨⟨e, hstages⟩, -⟩ -
    exact changesOwnPending_of_stages hstages call
  · refine Machine.along_of_invariant hstep ?_ hstart halong
    rintro w₁ call ⟨⟨e, hstages⟩, hcovered⟩ -
    exact burnSpares_of_covered hstages hcovered call

theorem staging_attribution_opened :
    let env : Env 0 := Env.quiet 0 1 1 none
    let calls := openingCalls env 9 10 11 12 1 100000 100000 ++ [(env, .depositLp 1 5000)]
    let start := World.deployed 0 (.issued 1 1000000 (by decide)) (.issued 1 1000000 (by decide))
    let w := (pairMachine 0).run start calls
    (∃ accounts : Finset ℕ, (∀ who, who ∉ accounts → w.pair.pendingLp who = 0) ∧
        w.pair.pendingLpTotal = ∑ who ∈ accounts, w.pair.pendingLp who) ∧
      ((pairMachine 0).Occurs (fun call => call.2.IsMint) start calls →
        minimumLiquidity + w.pair.pendingLpTotal ≤ w.lp.balance 0) ∧
      (pairMachine 0).Along ChangesOwnPending start calls ∧
      (pairMachine 0).Along BurnSpares start calls := by
  intro env calls
  have hquiet : ∀ call ∈ calls, outsideLpCalls call = [] := by
    simp [calls, openingCalls, depositCalls, outsideLpCalls, outsideActions, External.toLpCall]
  refine staging_attribution (.issued 1 1000000 (by decide)) (.issued 1 1000000 (by decide)) calls ?_ ?_
  · intro call hcall lpCall hlpCall
    rw [hquiet call hcall] at hlpCall
    cases hlpCall
  · exact ⟨trivial, trivial, trivial, trivial, trivial, trivial⟩

def TransfersBetween : PairCall contract → Prop
  | (_, .external (.lpCall _ op)) => ∃ src dst amount, op = .transfer src dst amount
  | _ => True

/-- Before the first mint, a receiver lent some of the tokens that wait in the pair burns `-5000`
shares. The supply is then not zero, and the first mint locks no seed. -/
theorem staging_attribution_fails :
    ¬∀ (tokenA tokenB : Token ℕ) (calls : List (PairCall 0)), (∀ call ∈ calls, Keyless call) →
      (∀ call ∈ calls, TransfersBetween call) →
      (pairMachine 0).Occurs (fun call => call.2.IsMint) (World.deployed 0 tokenA tokenB) calls →
      minimumLiquidity +
          ((pairMachine 0).run (World.deployed 0 tokenA tokenB) calls).pair.pendingLpTotal ≤
        ((pairMachine 0).run (World.deployed 0 tokenA tokenB) calls).lp.balance 0 := by
  intro hlaw
  let env : Env 0 := Env.quiet 0 1 1 none
  let callback : Callback ℕ :=
    ⟨[.lpCall ⟨1, fun who => who = 1, Crypto.rejecting ℕ⟩ (.burn 1 (-5000)), .transferA 1 0 5015], true⟩
  let before : List (PairCall 0) :=
    [(env, .initializePair 9 10 11 12), (env, .external (.transferA 1 0 100000)),
      (env, .external (.transferB 1 0 100000)), (env, .sync), (env, .flashLoan 1 5000 0 0 callback),
      (env, .external (.transferA 1 0 100000)), (env, .external (.transferB 1 0 100000))]
  let start : World ℕ := World.deployed 0 (.issued 1 1000000 (by decide))
    (.issued 1 1000000 (by decide))
  have hkeyless : ∀ call ∈ before ++ [(env, .mint 1)], Keyless call := by
    simp [before, callback, Keyless, outsideLpCalls, outsideActions, External.toLpCall, LpToken.Signs,
      Crypto.rejecting]
  have htransfers : ∀ call ∈ before ++ [(env, .mint 1)], TransfersBetween call := by
    simp [before, TransfersBetween]
  obtain ⟨⟨w', _⟩, hmint, -⟩ := exists_ok_of_map_eq
    (show Prod.snd <$> mint env ((pairMachine 0).run start before) 1 = .ok 4999 by decide +kernel)
  have hoccurs : (pairMachine 0).Occurs (fun call => call.2.IsMint) start
      (before ++ [(env, .mint 1)]) := by
    refine Machine.occurs_append (Or.inl ⟨trivial, w', ?_⟩)
    show (mint env ((pairMachine 0).run start before) 1 >>= fun minted => pure minted.1) = .ok w'
    rw [hmint]
    rfl
  have hcase := hlaw _ _ (before ++ [(env, .mint 1)]) hkeyless htransfers hoccurs
  exact absurd hcase (by decide +kernel)

end CoralSwap
