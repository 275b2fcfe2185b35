import CoralSwap.Proof.Consent
import CoralSwap.Proof.LpHolders

/-!
# Nobody's shares of a pool move without consent

Whatever the pair does and outsiders do meanwhile, its LP token sees a run of its own calls. Those the pair makes
in its own name mint what it has priced, burn what it was told to, and take what is staged with it. So the shares of
a holder fall only in a call of the LP token which the holder signed, or in one drawing on what it consented to.
-/

namespace CoralSwap

open Host Host.Call

variable {Address : Type} [DecidableEq Address] {contract : Address}

/-- A call of the LP token made during a call of the pair, by third parties or by the pair itself. -/
inductive LpCallOf (call : PairCall contract) : LpEnv Address × LpToken.Op Address → Prop where
  | outside {lpCall : LpEnv Address × LpToken.Op Address} (hmem : lpCall ∈ outsideLpCalls call) :
      LpCallOf call lpCall
  | minted (dst : Address) {amount : ℤ} (hsign : 0 ≤ amount) : LpCallOf call (call.1.lpEnv, .mint dst amount)
  | burned (src : Address) (amount : ℤ) : LpCallOf call (call.1.lpEnv, .burn src amount)
  | staged (src : Address) (amount : ℤ) : LpCallOf call (call.1.lpEnv, .transfer src contract amount)
  | paused : LpCallOf call (call.1.lpEnv, .pause)
  | unpaused : LpCallOf call (call.1.lpEnv, .unpause)

/-- The LP token gets from `t` to `t'` by calls made during the calls of the pair. -/
def LpRun (calls : List (PairCall contract)) (t t' : LpToken Address) : Prop :=
  ∃ lpCalls, (∀ lpCall ∈ lpCalls, ∃ call ∈ calls, LpCallOf call lpCall) ∧ LpToken.machine.run t lpCalls = t'

section Run

variable {calls : List (PairCall contract)} {call : PairCall contract} {t t' t'' : LpToken Address}

theorem LpRun.refl : LpRun calls t t := ⟨[], by simp, rfl⟩

theorem LpRun.of_eq (heq : t' = t) : LpRun calls t t' := heq ▸ LpRun.refl

theorem LpRun.trans (hfirst : LpRun calls t t') (hsecond : LpRun calls t' t'') : LpRun calls t t'' := by
  obtain ⟨first, hfirstMade, rfl⟩ := hfirst
  obtain ⟨second, hsecondMade, rfl⟩ := hsecond
  refine ⟨first ++ second, fun lpCall hmem => ?_, Machine.run_append _ _ _⟩
  rcases List.mem_append.mp hmem with hmem | hmem
  · exact hfirstMade lpCall hmem
  · exact hsecondMade lpCall hmem

theorem LpRun.mono {more : List (PairCall contract)} (hsub : calls ⊆ more) (hrun : LpRun calls t t') :
    LpRun more t t' := by
  obtain ⟨lpCalls, hmade, heq⟩ := hrun
  refine ⟨lpCalls, fun lpCall hmem => ?_, heq⟩
  obtain ⟨call, hcall, hof⟩ := hmade lpCall hmem
  exact ⟨call, hsub hcall, hof⟩

theorem LpRun.made {lpCall : LpEnv Address × LpToken.Op Address} (hof : LpCallOf call lpCall)
    (hexec : LpToken.exec t lpCall = .ok t') : LpRun [call] t t' :=
  ⟨[lpCall], by simpa using hof, Machine.step_of_exec_ok (m := LpToken.machine) hexec⟩

theorem LpRun.outside (call : PairCall contract) (w : World Address) :
    LpRun [call] w.lp ((externalMachine contract).run w (outsideActions call)).lp :=
  ⟨outsideLpCalls call, fun lpCall hmem => ⟨call, by simp, .outside hmem⟩, (lp_run_eq w _).symm⟩

end Run

/-! ### The LP token's run inside a run of the pair -/

theorem lpRun_of_mintedLiquidity {env : Env contract} {op : Op Address} {lp seeded : LpToken Address}
    {state : PairStorage Address} {amountA amountB liquidity : ℤ}
    (hpriced : mintedLiquidity env lp state amountA amountB = .ok (liquidity, seeded)) :
    LpRun [(env, op)] lp seeded := by
  rcases mintedLiquidity_ok hpriced with ⟨-, hseed⟩ | ⟨-, rfl, -⟩
  · exact LpRun.made (.minted contract (by decide : 0 ≤ minimumLiquidity)) hseed
  · exact LpRun.refl

/-- **Step.** -/
theorem lpRun_of_exec {call : PairCall contract} {w w' : World Address} (hexec : exec w call = .ok w') :
    LpRun [call] w.lp w'.lp := by
  obtain ⟨env, op⟩ := call
  cases callEffect_of_exec hexec with
  | initializePair hnone hne hresult => exact LpRun.of_eq (by rw [hresult])
  | @mint dst state seeded lp liquidity hmint =>
      have hsign : 0 ≤ liquidity := le_trans (by decide) hmint.worth
      rw [hmint.result]
      exact (lpRun_of_mintedLiquidity hmint.priced).trans (.made (.minted dst hsign) hmint.minted)
  | @mintWithOneToken dst _ _ _ _ _ _ pulled swapped _ _ _ published hmint =>
      obtain ⟨-, -, -, hpulledLp⟩ := moveToken_ok hmint.pull
      obtain ⟨_, _, _, _, _, _, hswap⟩ := swapIntoPair_ok hmint.swap
      have hswappedLp : swapped.lp = w.lp := hswap.frame.1.trans hpulledLp
      have hminted := hmint.minted
      rw [hswappedLp] at hminted
      rw [hmint.result]
      have hsign : 0 ≤ published.lpMinted := le_trans (by decide) hmint.worth
      exact LpRun.made (.minted dst hsign) hminted
  | depositLp hdeposit =>
      rw [hdeposit.result]
      exact LpRun.made (.staged _ _) hdeposit.moved
  | burn hburn =>
      rw [hburn.result]
      exact LpRun.made (.burned _ _) hburn.burned
  | burnSingleSide hburn =>
      rw [hburn.lp']
      exact LpRun.made (.burned _ _) hburn.burned
  | swap hswap => exact LpRun.of_eq hswap.frame.1
  | @flashLoan receiver amountA amountB dataLen callback _ lentA lentB _ hloan =>
      have houtside := LpRun.outside (env, .flashLoan receiver amountA amountB dataLen callback)
        { w with tokenA := lentA, tokenB := lentB, pair := { w.pair with locked := true } }
      rw [hloan.result]
      change LpRun _ w.lp (_ : World Address).lp
      rw [hloan.called_eq]
      exact houtside
  | emptyFlashLoan hresult => exact LpRun.of_eq (by rw [hresult])
  | sync hstate hresult => exact LpRun.of_eq (by rw [hresult])
  | setStaleThreshold hfs hresult => exact LpRun.of_eq (by rw [hresult]; rfl)
  | @setLpTokenPaused paused _ hlp hresult =>
      rw [hresult]
      cases paused with
      | false => exact LpRun.made .unpaused hlp
      | true => exact LpRun.made .paused hlp
  | setFrozen hresult => exact LpRun.of_eq (by rw [hresult])
  | @external action heffect =>
      have hstep : (externalMachine contract).step w action = w' := Machine.step_of_exec_ok hexec
      rw [← hstep]
      exact LpRun.outside (env, .external action) w

/-- **Run.** -/
theorem lpRun_of_run (w : World Address) (calls : List (PairCall contract)) :
    LpRun calls w.lp ((pairMachine contract).run w calls).lp := by
  induction calls generalizing w with
  | nil => exact LpRun.refl
  | cons call rest ih =>
      have hrest := (ih ((pairMachine contract).step w call)).mono (List.subset_cons_self call rest)
      refine LpRun.trans ?_ hrest
      rcases Machine.step_cases (m := pairMachine contract) w call with hexec | hstay
      · exact (lpRun_of_exec hexec).mono (by simp)
      · exact LpRun.of_eq (by rw [hstay])

/-! ### The pair keeps the administration -/

theorem admin_of_lpCallOf {call : PairCall contract} {lpCall : LpEnv Address × LpToken.Op Address}
    {t t' : LpToken Address} (hadmin : t.admin = some contract) (hof : LpCallOf call lpCall)
    (hexec : LpToken.exec t lpCall = .ok t') : t'.admin = some contract := by
  cases hof with
  | outside hmem =>
      refine (LpToken.frame_of_exec hexec).admin contract hadmin ?_
      rw [auth_of_mem_lpCalls hmem]
      exact Bool.false_ne_true
  | minted dst hsign =>
      obtain ⟨-, -, -, rfl⟩ := LpToken.mint_ok hexec
      exact hadmin
  | burned src amount =>
      obtain ⟨-, -, rfl⟩ := LpToken.burn_ok hexec
      exact hadmin
  | staged src amount =>
      obtain ⟨-, -, -, rfl⟩ := LpToken.transfer_ok hexec
      exact hadmin
  | paused =>
      obtain ⟨-, rfl⟩ := LpToken.setPaused_ok hexec
      exact hadmin
  | unpaused =>
      obtain ⟨-, rfl⟩ := LpToken.setPaused_ok hexec
      exact hadmin

theorem admin_of_lpRun {calls : List (PairCall contract)} {t : LpToken Address}
    (hadmin : t.admin = some contract) {lpCalls : List (LpEnv Address × LpToken.Op Address)}
    (hmade : ∀ lpCall ∈ lpCalls, ∃ call ∈ calls, LpCallOf call lpCall) :
    (LpToken.machine.run t lpCalls).admin = some contract :=
  Machine.run_invariant (m := LpToken.machine) (I := fun t => t.admin = some contract)
    (P := fun _ lpCall => ∃ call ∈ calls, LpCallOf call lpCall)
    (fun _ _ _ hadmin ⟨_, _, hof⟩ hexec => admin_of_lpCallOf hadmin hof hexec) hadmin
    (Machine.along_of_forall_mem (m := LpToken.machine) hmade t)

theorem not_minted_of_lpCallOf {call : PairCall contract} {env : LpEnv Address} {t : LpToken Address}
    {owner admin : Address} {amount : ℤ} (hcontract : t.admin = some contract) (hnegative : amount < 0)
    (hadmin : t.admin = some admin) (hauth : env.auth admin = true) :
    ¬LpCallOf call (env, .mint owner amount) := by
  intro hof
  cases hof with
  | outside hmem =>
      obtain rfl : admin = contract := Option.some.inj (hadmin.symm.trans hcontract)
      have hunsigned := auth_of_mem_lpCalls hmem
      rw [hauth] at hunsigned
      cases hunsigned
  | minted dst hsign => omega

/-! ### Falling balances -/

/-- A call of the LP token takes shares of `owner` with its consent: `owner` signed it, or it draws on what
`owner` consented to in one of the calls `before` it. -/
def TakenByConsent (owner : Address) (t : LpToken Address) (before : List (LpEnv Address × LpToken.Op Address))
    (lpCall : LpEnv Address × LpToken.Op Address) : Prop :=
  lpCall.1.auth owner = true ∨
    ∃ spender amount expiration,
      LpToken.Drawn lpCall.1 (LpToken.machine.run t before) owner spender amount expiration lpCall.2 ∧
        LpToken.ConsentedIn owner spender expiration t before

/-- During `call`, which follows the calls of `past`, a call of the LP token takes shares of `owner` with its
consent: the calls `before` it are those the LP token got during `past`, and those `during` this call. -/
def FallsByConsent (owner : Address) (w : World Address) (past : List (PairCall contract))
    (call : PairCall contract) : Prop :=
  ∃ before during lpCall,
    (∀ made ∈ before, ∃ earlier ∈ past, LpCallOf earlier made) ∧
      LpToken.machine.run w.lp before = ((pairMachine contract).run w past).lp ∧
        (∀ made ∈ during ++ [lpCall], LpCallOf call made) ∧
          TakenByConsent owner w.lp (before ++ during) lpCall

end CoralSwap
