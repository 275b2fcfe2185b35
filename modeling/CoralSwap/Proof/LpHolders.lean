import CoralSwap.Lib.Ledger
import CoralSwap.Proof.Invariants
import CoralSwap.Proof.Staging

/-!
# Who holds the shares

In every reachable state the LP balances are never negative and add up to the supply, and the LP token
is paused exactly when the pair has recorded it. Nobody can spend what has been staged with the pair.
-/

namespace CoralSwap

open Host Host.Call

variable {Address : Type} [DecidableEq Address] {contract : Address}

/-! ### The supply is what the holders have -/

namespace LpToken

def Backed (t : LpToken Address) : Prop := Ledger.AddsUp t.balance t.totalSupply

variable {env : LpEnv Address} {t t' : LpToken Address} {src dst : Address} {amount : ℤ}

theorem Backed.write (hbacked : Backed t) (who : Address) {value supply : ℤ} (hvalue : 0 ≤ value)
    (hbalance : t'.balance = Function.update t.balance who value)
    (hsupply : t'.totalSupply = supply) (htotal : supply = t.totalSupply - t.balance who + value) :
    Backed t' := by
  unfold Backed
  rw [hbalance, hsupply, htotal]
  exact Ledger.AddsUp.write hbacked who hvalue

theorem Backed.issue (hbacked : Backed t) (dst : Address) (hamount : 0 ≤ amount)
    (hbalance : t'.balance = Function.update t.balance dst (t.balance dst + amount))
    (hsupply : t'.totalSupply = t.totalSupply + amount) : Backed t' := by
  have hnonneg := hbacked.nonneg dst
  exact hbacked.write dst (by omega) hbalance hsupply (by omega)

theorem Backed.redeem (hbacked : Backed t) (src : Address) (hfunds : amount ≤ t.balance src)
    (hbalance : t'.balance = Function.update t.balance src (t.balance src - amount))
    (hsupply : t'.totalSupply = t.totalSupply - amount) : Backed t' :=
  hbacked.write src (by omega) hbalance hsupply (by omega)

theorem Backed.move (hbacked : Backed t) (hfunds : 0 < amount → amount ≤ t.balance src)
    (hsign : 0 ≤ amount) (hbalance : t'.balance = Token.moved t.balance src dst amount)
    (hsupply : t'.totalSupply = t.totalSupply) : Backed t' := by
  rcases hsign.eq_or_lt with hzero | hpositive
  · unfold Backed
    rw [hbalance, hsupply, ← hzero, moved_zero]
    exact hbacked
  have hfunds := hfunds hpositive
  have hdebited := Ledger.AddsUp.write hbacked src (show 0 ≤ t.balance src - amount by omega)
  have hroom := hdebited.nonneg dst
  have hcredited := hdebited.write dst
    (show 0 ≤ Function.update t.balance src (t.balance src - amount) dst + amount by omega)
  rw [moved_eq_update] at hcredited
  unfold Backed
  rw [hbalance, hsupply]
  convert hcredited using 1
  ring

theorem backed_of_mint (hbacked : Backed t) (hamount : 0 ≤ amount)
    (hmint : mint env t dst amount = .ok t') : Backed t' := by
  obtain ⟨-, -, -, rfl⟩ := mint_ok hmint
  exact hbacked.issue dst hamount rfl rfl

theorem backed_of_burn (hbacked : Backed t) (hburn : burn env t src amount = .ok t') :
    Backed t' := by
  obtain ⟨-, hfunds, rfl⟩ := burn_ok hburn
  exact hbacked.redeem src hfunds rfl rfl

theorem backed_of_transfer (hbacked : Backed t) (htransfer : transfer env t src dst amount = .ok t') :
    Backed t' := by
  obtain ⟨-, hsign, hfunds, rfl⟩ := transfer_ok htransfer
  exact hbacked.move hfunds hsign rfl rfl

/-- Calls the admin did not sign only move shares, or burn them. -/
theorem backed_of_exec {op : Op Address} (hbacked : Backed t)
    (hunsigned : ¬∃ admin, t.admin = some admin ∧ env.auth admin = true)
    (hexec : exec t (env, op) = .ok t') : Backed t' := by
  cases effect_of_exec hexec with
  | minted dst amount hop hsigned => exact absurd hsigned hunsigned
  | burned src amount hop hfunds hsupply hbalance => exact hbacked.redeem src hfunds hbalance hsupply
  | moved src dst amount hop hsign hfunds hsupply hbalance =>
      exact hbacked.move hfunds hsign hbalance hsupply
  | still hop hstill =>
      unfold Backed
      rw [hstill.1, hstill.2]
      exact hbacked

theorem paused_of_exec {op : Op Address}
    (hunsigned : ¬∃ admin, t.admin = some admin ∧ env.auth admin = true)
    (hexec : exec t (env, op) = .ok t') : t'.paused = t.paused := by
  cases op with
  | mint dst amount =>
      obtain ⟨-, -, -, rfl⟩ := mint_ok hexec
      rfl
  | burn src amount =>
      obtain ⟨-, -, rfl⟩ := burn_ok hexec
      rfl
  | burnFrom spender src amount =>
      obtain ⟨-, -, -, allowance, rfl⟩ := burnFrom_ok hexec
      rfl
  | transfer src dst amount =>
      obtain ⟨-, -, -, rfl⟩ := transfer_ok hexec
      rfl
  | transferFrom spender src dst amount =>
      obtain ⟨-, -, -, -, allowance, rfl⟩ := transferFrom_ok hexec
      rfl
  | approve owner spender amount expirationLedger =>
      obtain ⟨-, -, allowance, rfl⟩ := approve_ok hexec
      rfl
  | permit owner spender amount deadline signature =>
      obtain ⟨-, -, allowance, nonce, rfl⟩ := permit_ok hexec
      rfl
  | pause => exact absurd (setPaused_ok hexec).1 hunsigned
  | unpause => exact absurd (setPaused_ok hexec).1 hunsigned
  | adminTransfer newAdmin => exact absurd (adminTransfer_ok hexec).1 hunsigned

end LpToken

/-- What every reachable pair keeps of its LP token. -/
structure LpSound (contract : Address) (w : World Address) : Prop where
  backed : w.lp.Backed
  admin : w.lp.admin = some contract
  paused : w.lp.paused = w.pair.lpTokenPaused

section Call

variable {env : Env contract} {w w' : World Address}

omit [DecidableEq Address] in
theorem LpSound.of_eq (hsound : LpSound contract w) (hlp : w'.lp = w.lp)
    (hpaused : w'.pair.lpTokenPaused = w.pair.lpTokenPaused) : LpSound contract w' :=
  ⟨by rw [hlp]; exact hsound.backed, by rw [hlp]; exact hsound.admin,
    by rw [hlp, hpaused]; exact hsound.paused⟩

omit [DecidableEq Address] in
theorem LpSound.not_signed {lpEnv : LpEnv Address} (hsound : LpSound contract w)
    (hauth : lpEnv.auth contract = false) :
    ¬∃ admin, w.lp.admin = some admin ∧ lpEnv.auth admin = true := by
  rintro ⟨admin, hadmin, hsigned⟩
  obtain rfl : admin = contract := Option.some.inj (hadmin.symm.trans hsound.admin)
  rw [hauth] at hsigned
  cases hsigned

theorem lpSound_of_external {action : External Address} (hsound : LpSound contract w)
    (heffect : ExternalEffect contract action w w') : LpSound contract w' := by
  cases heffect with
  | movedA => exact hsound.of_eq rfl rfl
  | movedB => exact hsound.of_eq rfl rfl
  | calledLp hauth hcall =>
      have hunsigned := hsound.not_signed hauth
      refine ⟨LpToken.backed_of_exec hsound.backed hunsigned hcall, ?_,
        (LpToken.paused_of_exec hunsigned hcall).trans hsound.paused⟩
      exact admin_of_external hsound.admin (.calledLp hauth hcall)

theorem lpSound_of_outside (hsound : LpSound contract w) (actions : List (External Address)) :
    LpSound contract ((externalMachine contract).run w actions) :=
  Machine.run_invariant_all (m := externalMachine contract) (I := LpSound contract)
    (fun _ _ _ hsound hexec => lpSound_of_external hsound (external_ok hexec)) hsound actions

theorem backed_of_mint {dst : Address} {state : PairStorage Address} {seeded lp : LpToken Address}
    {liquidity : ℤ} (hbacked : w.lp.Backed)
    (hmint : MintSettles env w dst state seeded lp w' liquidity) : lp.Backed := by
  have hworth := hmint.worth
  have hpositive : 0 ≤ liquidity := le_trans (by decide) hworth
  refine LpToken.backed_of_mint ?_ hpositive hmint.minted
  rcases mintedLiquidity_ok hmint.priced with ⟨-, hseed⟩ | ⟨-, rfl, -⟩
  · exact LpToken.backed_of_mint hbacked (by decide) hseed
  · exact hbacked

theorem paused_of_pairMint {dst : Address} {state : PairStorage Address} {seeded lp : LpToken Address}
    {liquidity : ℤ} (hmint : MintSettles env w dst state seeded lp w' liquidity) :
    lp.paused = w.lp.paused := by
  obtain ⟨-, -, -, rfl⟩ := LpToken.mint_ok hmint.minted
  rcases mintedLiquidity_ok hmint.priced with ⟨-, hseed⟩ | ⟨-, rfl, -⟩
  · obtain ⟨-, -, -, rfl⟩ := LpToken.mint_ok hseed
    rfl
  · rfl

/-- **Step.** Every accepted call keeps the LP token sound. -/
theorem lpSound_of_exec {op : Op Address} (hsound : LpSound contract w)
    (hexec : exec w (env, op) = .ok w') : LpSound contract w' := by
  have hadmin := admin_of_exec hsound.admin hexec
  cases callEffect_of_exec hexec with
  | initializePair hnone hne hresult => exact hsound.of_eq (by rw [hresult]) (by rw [hresult])
  | mint hmint =>
      have hbacked := backed_of_mint hsound.backed hmint
      have hpaused := (paused_of_pairMint hmint).trans hsound.paused
      obtain rfl := hmint.result
      exact ⟨hbacked, hadmin, hpaused⟩
  | @mintWithOneToken _ _ _ _ _ _ _ pulled swapped _ _ _ _ hmint =>
      obtain ⟨-, -, hpulledPair, hpulledLp⟩ := moveToken_ok hmint.pull
      have hswapped : LpSound contract swapped := by
        obtain ⟨_, _, _, _, _, _, hswap⟩ := swapIntoPair_ok hmint.swap
        refine hsound.of_eq (by rw [hswap.frame.1, hpulledLp]) ?_
        rw [(sameFlags_of_swapIntoPair hmint.swap).paused, hpulledPair]
      have hbacked := LpToken.backed_of_mint hswapped.backed
        (le_trans (by decide) hmint.worth) hmint.minted
      have hpaused := hswapped.paused
      obtain ⟨-, -, -, hlp⟩ := LpToken.mint_ok hmint.minted
      obtain rfl := hmint.result
      exact ⟨hbacked, hadmin, by subst hlp; exact hpaused⟩
  | depositLp hdeposit =>
      have hbacked := LpToken.backed_of_transfer hsound.backed hdeposit.moved
      obtain ⟨-, -, -, hlp⟩ := LpToken.transfer_ok hdeposit.moved
      obtain rfl := hdeposit.result
      exact ⟨hbacked, hadmin, by subst hlp; exact hsound.paused⟩
  | burn hburn =>
      have hbacked := LpToken.backed_of_burn hsound.backed hburn.burned
      obtain ⟨-, -, hlp⟩ := LpToken.burn_ok hburn.burned
      obtain rfl := hburn.result
      exact ⟨hbacked, hadmin, by subst hlp; exact hsound.paused⟩
  | burnSingleSide hburn =>
      have hbacked := LpToken.backed_of_burn hsound.backed hburn.burned
      obtain ⟨-, -, hlp⟩ := LpToken.burn_ok hburn.burned
      refine ⟨by rw [hburn.lp']; exact hbacked, hadmin, ?_⟩
      rw [hburn.lp', hburn.pair', hlp]
      exact hsound.paused
  | @swap amountAOut amountBOut dst _ _ _ _ _ _ _ hswap =>
      refine hsound.of_eq hswap.frame.1 ?_
      simp only [exec, bind_eq_ok, pure_eq_ok] at hexec
      obtain ⟨⟨_, _⟩, hcall, rfl⟩ := hexec
      exact (sameFlags_of_swap hcall).paused
  | @flashLoan _ _ _ _ callback _ lentA lentB _ hloan =>
      have hrun := lpSound_of_outside
        (w := { w with tokenA := lentA, tokenB := lentB, pair := { w.pair with locked := true } })
        (hsound.of_eq rfl rfl) callback.actions
      rw [← hloan.called_eq] at hrun
      have hframe := outsideFrame_of_run contract
        { w with tokenA := lentA, tokenB := lentB, pair := { w.pair with locked := true } }
        callback.actions
      rw [← hloan.called_eq] at hframe
      have hpaused := hrun.paused
      rw [hframe.pair] at hpaused
      obtain rfl := hloan.result
      exact ⟨hrun.backed, hrun.admin, hpaused⟩
  | emptyFlashLoan hresult => rwa [hresult]
  | sync hstate hresult => exact hsound.of_eq (by rw [hresult]) (by rw [hresult])
  | setStaleThreshold hfs hresult =>
      exact hsound.of_eq (by rw [hresult]; rfl) (by rw [hresult]; rfl)
  | setLpTokenPaused hlp hresult =>
      obtain ⟨-, rfl⟩ := LpToken.setPaused_ok hlp
      subst hresult
      exact ⟨hsound.backed, hadmin, rfl⟩
  | setFrozen hresult => exact hsound.of_eq (by rw [hresult]) (by rw [hresult])
  | external heffect => exact lpSound_of_external hsound heffect

end Call

omit [DecidableEq Address] in
theorem lpSound_deployed (tokenA tokenB : Token Address) :
    LpSound contract (World.deployed contract tokenA tokenB) :=
  ⟨Ledger.AddsUp.zero, rfl, rfl⟩

theorem lpSound_of_reachable {w : World Address} (hreach : Reachable contract w) :
    LpSound contract w :=
  hreach.induction lpSound_deployed fun _ _ _ hsound hexec => lpSound_of_exec hsound hexec

/-! ### What is staged is there -/

/-- The pair holds everything staged with it, and has allowed nobody to spend it. -/
structure StageHeld (contract : Address) (w : World Address) : Prop where
  staged : w.pair.pendingLpTotal ≤ w.lp.balance contract
  held : LpToken.Held contract w.lp

section Call

variable {env : Env contract} {w w' : World Address}

omit [DecidableEq Address] in
theorem SharesFrame.stageHeld (hframe : SharesFrame contract w w') (hheld : StageHeld contract w) :
    StageHeld contract w' := by
  refine ⟨?_, hframe.held hheld.held⟩
  rw [hframe.pendingLpTotal]
  exact hheld.staged.trans hframe.balance

theorem stageHeld_of_outside (hheld : StageHeld contract w) (actions : List (External Address))
    (hkeyless : ∀ lpCall ∈ actions.filterMap (External.toLpCall contract),
      ¬LpToken.Signs lpCall.1 contract) :
    StageHeld contract ((externalMachine contract).run w actions) := by
  have houtside : ∀ lpCall ∈ actions.filterMap (External.toLpCall contract),
      LpToken.Outside contract lpCall.1 :=
    fun lpCall hcall => ⟨auth_of_mem_lpCalls hcall, hkeyless lpCall hcall⟩
  have hrun := Machine.run_invariant (m := LpToken.machine)
    (I := fun t => LpToken.Held contract t ∧ w.lp.balance contract ≤ t.balance contract) ?_
    ⟨hheld.held, le_rfl⟩ (Machine.along_of_forall_mem (m := LpToken.machine) houtside w.lp)
  · rw [← lp_run_eq] at hrun
    refine ⟨?_, hrun.1⟩
    rw [(outsideFrame_of_run contract w actions).pair]
    exact hheld.staged.trans hrun.2
  · rintro t ⟨env, op⟩ t' ⟨hheld, hbalance⟩ houtside hexec
    exact ⟨LpToken.held_of_exec houtside hheld hexec,
      hbalance.trans (LpToken.balance_le_of_exec houtside hheld hexec)⟩

theorem stageHeld_of_mint {dst : Address} {state : PairStorage Address} {seeded lp : LpToken Address}
    {liquidity : ℤ} (hheld : StageHeld contract w)
    (hmint : MintSettles env w dst state seeded lp w' liquidity) : StageHeld contract w' := by
  refine ⟨?_, held_of_pairMint hheld.held hmint⟩
  have hlp : w'.lp.balance contract = seeded.balance contract := by
    rw [hmint.result]
    exact lpBalance_of_mint (Env.ne_contract_of_auth hmint.authorised) hmint.minted
  have hstaged := hheld.staged
  have htotal : w'.pair.pendingLpTotal = w.pair.pendingLpTotal := by rw [hmint.result]
  rw [hlp, htotal]
  rcases mintedLiquidity_ok hmint.priced with ⟨-, hseed⟩ | ⟨-, rfl, -⟩
  · obtain ⟨-, -, -, rfl⟩ := LpToken.mint_ok hseed
    show _ ≤ Function.update w.lp.balance contract (w.lp.balance contract + minimumLiquidity) contract
    rw [Function.update_self]
    exact hstaged.trans (le_add_of_nonneg_right (by decide))
  · exact hstaged

theorem stageHeld_of_burn {dst : Address} {state : PairStorage Address}
    {burnLp amountA amountB : ℤ} {lp : LpToken Address} {tokenA tokenB : Token Address}
    (hheld : StageHeld contract w)
    (hburn : BurnSettles env w dst state burnLp lp tokenA tokenB w' amountA amountB) :
    StageHeld contract w' := by
  obtain ⟨-, -, hlp⟩ := LpToken.burn_ok hburn.burned
  have hstaged := hheld.staged
  have hbalance : lp.balance contract = w.lp.balance contract - burnLp := by
    rw [hlp]
    exact Function.update_self _ _ _
  have hseed : (0 : ℤ) ≤ minimumLiquidity := by decide
  obtain rfl := hburn.result
  refine ⟨?_, by subst hlp; exact hheld.held.of_eq rfl rfl⟩
  show (if 0 < w.pair.pendingLp dst then w.pair.pendingLpTotal - w.pair.pendingLp dst
    else w.pair.pendingLpTotal) ≤ lp.balance contract
  rcases hburn.redeems with ⟨hpending, hamount⟩ | ⟨hpending, hamount⟩
  · rw [if_pos hpending]
    omega
  · rw [if_neg (not_lt.mpr hpending)]
    omega

theorem stageHeld_of_exec {op : Op Address} (hheld : StageHeld contract w)
    (hkeyless : Keyless (env, op)) (hexec : exec w (env, op) = .ok w') : StageHeld contract w' := by
  cases callEffect_of_exec hexec with
  | initializePair hnone hne hresult =>
      exact (SharesFrame.of_eq (by rw [hresult]) (by rw [hresult])).stageHeld hheld
  | mint hmint => exact stageHeld_of_mint hheld hmint
  | mintWithOneToken hmint => exact (sharesFrame_of_mintWithOneToken hmint).stageHeld hheld
  | depositLp hdeposit =>
      obtain ⟨hbalance, htotal, -, hheld'⟩ := lpBalance_of_depositLp hdeposit
      have hstaged := hheld.staged
      exact ⟨by omega, hheld' hheld.held⟩
  | burn hburn => exact stageHeld_of_burn hheld hburn
  | burnSingleSide hburn => exact (sharesFrame_of_burnSingleSide hburn).stageHeld hheld
  | swap hswap => exact (SharesFrame.of_eq hswap.frame.1 hswap.frame.2.2.1).stageHeld hheld
  | @flashLoan _ _ _ _ callback _ lentA lentB _ hloan =>
      have hrun := stageHeld_of_outside
        (w := { w with tokenA := lentA, tokenB := lentB, pair := { w.pair with locked := true } })
        ⟨hheld.staged, hheld.held⟩ callback.actions hkeyless
      have hframe := outsideFrame_of_run contract
        { w with tokenA := lentA, tokenB := lentB, pair := { w.pair with locked := true } }
        callback.actions
      have hstaged := hrun.staged
      rw [hframe.pair, ← hloan.called_eq] at hstaged
      rw [← hloan.called_eq] at hrun
      obtain rfl := hloan.result
      exact ⟨hstaged, hrun.held⟩
  | emptyFlashLoan hresult => rwa [hresult]
  | sync hstate hresult =>
      exact (SharesFrame.of_eq (by rw [hresult]) (by rw [hresult])).stageHeld hheld
  | setStaleThreshold hfs hresult =>
      exact (SharesFrame.of_eq (by rw [hresult]; rfl) (by rw [hresult]; rfl)).stageHeld hheld
  | setLpTokenPaused hlp hresult =>
      obtain ⟨-, rfl⟩ := LpToken.setPaused_ok hlp
      subst hresult
      exact ⟨hheld.staged, hheld.held.of_eq rfl rfl⟩
  | setFrozen hresult =>
      exact (SharesFrame.of_eq (by rw [hresult]) (by rw [hresult])).stageHeld hheld
  | @external action heffect =>
      have hrun := stageHeld_of_outside hheld [action] hkeyless
      rwa [Machine.run_cons, Machine.run_nil,
        Machine.step_of_exec_ok (m := externalMachine contract) hexec] at hrun

end Call

/-- Reached by calls none of which carries a signature under the pair's address. -/
def KeylessReachable (contract : Address) (w : World Address) : Prop :=
  ∃ (tokenA tokenB : Token Address) (calls : List (PairCall contract)),
    (∀ call ∈ calls, Keyless call) ∧
      w = (pairMachine contract).run (World.deployed contract tokenA tokenB) calls

theorem KeylessReachable.reachable {w : World Address} (hreach : KeylessReachable contract w) :
    Reachable contract w := by
  obtain ⟨tokenA, tokenB, calls, -, hw⟩ := hreach
  exact ⟨tokenA, tokenB, calls, hw⟩

theorem stageHeld_of_reachable {w : World Address} (hreach : KeylessReachable contract w) :
    StageHeld contract w := by
  obtain ⟨tokenA, tokenB, calls, hkeyless, rfl⟩ := hreach
  refine Machine.run_invariant (m := pairMachine contract) (I := StageHeld contract)
    (P := fun _ call => Keyless call) ?_ ⟨le_rfl, rfl, fun _ => rfl⟩
    (Machine.along_of_forall_mem (m := pairMachine contract) hkeyless _)
  rintro w₁ ⟨env, op⟩ w₂ hheld hkeyless hexec
  exact stageHeld_of_exec hheld hkeyless hexec

end CoralSwap
