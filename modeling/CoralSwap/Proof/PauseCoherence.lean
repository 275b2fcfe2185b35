import CoralSwap.Proof.PairRegistry

/-!
# A paused LP token stands still

The pair keeps a copy of its LP token's pause flag. The pair is the token's admin, so only the pair pauses the token,
and when it does it writes the copy as well. While both are set the token rejects every call that moves shares, and the
pair every call that stages them.
-/

namespace CoralSwap

open Host Host.Call

variable {Address : Type}

/-! ### The token -/

namespace LpToken

variable [DecidableEq Address] {env : LpEnv Address} {t t' : LpToken Address}

omit [DecidableEq Address] in
/-- The first thing that the calls that move shares check. -/
theorem unpaused_of_guard {α : Type} {next : Unit → Call LpTokenError α} {a : α}
    (hcall : (failIf (t.paused = true) .contractPaused >>= next) = .ok a) : t.paused = false := by
  simp only [bind_eq_ok, failIf_eq_ok, Bool.not_eq_true] at hcall
  obtain ⟨_, hunpaused, -⟩ := hcall
  exact hunpaused

theorem still_of_paused {op : Op Address} (hpaused : t.paused = true) (hexec : exec t (env, op) = .ok t') :
    Still t t' := by
  cases op with
  | mint dst amount => cases (unpaused_of_guard hexec).symm.trans hpaused
  | burn src amount => cases (unpaused_of_guard hexec).symm.trans hpaused
  | burnFrom spender src amount => cases (unpaused_of_guard hexec).symm.trans hpaused
  | transfer src dst amount => cases (unpaused_of_guard hexec).symm.trans hpaused
  | transferFrom spender src dst amount => cases (unpaused_of_guard hexec).symm.trans hpaused
  | approve owner spender amount expirationLedger =>
      obtain ⟨-, -, allowance, rfl⟩ := approve_ok hexec
      exact ⟨rfl, rfl⟩
  | permit owner spender amount deadline signature =>
      obtain ⟨-, -, allowance, nonce, rfl⟩ := permit_ok hexec
      exact ⟨rfl, rfl⟩
  | pause =>
      obtain ⟨-, rfl⟩ := setPaused_ok hexec
      exact ⟨rfl, rfl⟩
  | unpause =>
      obtain ⟨-, rfl⟩ := setPaused_ok hexec
      exact ⟨rfl, rfl⟩
  | adminTransfer newAdmin =>
      obtain ⟨-, rfl⟩ := adminTransfer_ok hexec
      exact ⟨rfl, rfl⟩

end LpToken

/-! ### The pair -/

section Pair

variable [DecidableEq Address] {contract : Address} {env : Env contract} {w w' : World Address}

structure SharesKept (w w' : World Address) : Prop where
  token : LpToken.Still w.lp w'.lp
  pending : w'.pair.pendingLp = w.pair.pendingLp

omit [DecidableEq Address] in
theorem SharesKept.of_eq (hlp : w'.lp = w.lp) (hpending : w'.pair.pendingLp = w.pair.pendingLp) :
    SharesKept w w' :=
  ⟨by rw [hlp]; exact ⟨rfl, rfl⟩, hpending⟩

omit [DecidableEq Address] in
theorem SharesKept.trans {w'' : World Address} (hfirst : SharesKept w w') (hsecond : SharesKept w' w'') :
    SharesKept w w'' :=
  ⟨⟨hsecond.token.1.trans hfirst.token.1, hsecond.token.2.trans hfirst.token.2⟩,
    hsecond.pending.trans hfirst.pending⟩

theorem sharesKept_of_external {action : External Address} (hpaused : w.lp.paused = true)
    (heffect : ExternalEffect contract action w w') : SharesKept w w' := by
  cases heffect with
  | movedA => exact .of_eq rfl rfl
  | movedB => exact .of_eq rfl rfl
  | calledLp _ hcall => exact ⟨LpToken.still_of_paused hpaused hcall, rfl⟩

/-- The receiver of a flash loan cannot move the shares of a paused token either. -/
theorem sharesKept_of_outside (hsound : LpSound contract w) (hpaused : w.lp.paused = true)
    (actions : List (External Address)) :
    SharesKept w ((externalMachine contract).run w actions) := by
  refine (Machine.run_invariant_all (m := externalMachine contract)
    (I := fun w' => (LpSound contract w' ∧ w'.lp.paused = true) ∧ SharesKept w w') ?_
    ⟨⟨hsound, hpaused⟩, .of_eq rfl rfl⟩ actions).2
  rintro w₁ action w₂ ⟨⟨hsound₁, hpaused₁⟩, hkept⟩ hexec
  have heffect := external_ok hexec
  refine ⟨⟨lpSound_of_external hsound₁ heffect, ?_⟩, hkept.trans (sharesKept_of_external hpaused₁ heffect)⟩
  cases heffect with
  | movedA => exact hpaused₁
  | movedB => exact hpaused₁
  | calledLp hauth hcall =>
      exact (LpToken.paused_of_exec (hsound₁.not_signed hauth) hcall).trans hpaused₁

theorem sharesKept_of_exec {op : Op Address} (hsound : LpSound contract w)
    (hpaused : w.pair.lpTokenPaused = true) (hexec : exec w (env, op) = .ok w') : SharesKept w w' := by
  have hlpPaused : w.lp.paused = true := hsound.paused.trans hpaused
  cases callEffect_of_exec hexec with
  | initializePair _ _ hresult => exact .of_eq (by rw [hresult]) (by rw [hresult])
  | mint hmint => cases hmint.unpaused.symm.trans hpaused
  | mintWithOneToken hmint => cases hmint.unpaused.symm.trans hpaused
  | depositLp hdeposit => cases (LpToken.unpaused_of_guard hdeposit.moved).symm.trans hlpPaused
  | burn hburn => cases (LpToken.unpaused_of_guard hburn.burned).symm.trans hlpPaused
  | burnSingleSide hburn => cases (LpToken.unpaused_of_guard hburn.burned).symm.trans hlpPaused
  | swap hswap => exact .of_eq hswap.frame.1 hswap.frame.2.1
  | @flashLoan _ _ _ _ callback _ lentA lentB _ hloan =>
      have hkept := sharesKept_of_outside
        (w := { w with tokenA := lentA, tokenB := lentB, pair := { w.pair with locked := true } })
        (hsound.of_eq rfl rfl) hlpPaused callback.actions
      rw [← hloan.called_eq] at hkept
      rw [hloan.result]
      exact ⟨hkept.token, rfl⟩
  | emptyFlashLoan hresult => exact .of_eq (by rw [hresult]) (by rw [hresult])
  | sync _ hresult => exact .of_eq (by rw [hresult]) (by rw [hresult])
  | setStaleThreshold _ hresult => exact .of_eq (by rw [hresult]; rfl) (by rw [hresult]; rfl)
  | setLpTokenPaused hlp hresult =>
      obtain ⟨-, hstored⟩ := LpToken.setPaused_ok hlp
      rw [hresult, hstored]
      exact ⟨⟨rfl, rfl⟩, rfl⟩
  | setFrozen hresult => exact .of_eq (by rw [hresult]) (by rw [hresult])
  | external heffect => exact sharesKept_of_external hlpPaused heffect

end Pair

/-! ### The protocol -/

namespace Protocol

variable [LinearOrder Address]
variable {d : Deployment Address} {env : ProtocolEnv Address} {p p' : Protocol Address}

theorem sharesKept_of_protocolExec (hreach : PoolsReachable p) (hregistered : Registered d p)
    {pair : Address} {w : World Address} (hpool : p.pool pair = some w)
    (hpaused : w.pair.lpTokenPaused = true) {op : Op Address} (hexec : exec d p (env, op) = .ok p') :
    ∃ w', p'.pool pair = some w' ∧ SharesKept w w' := by
  cases poolStep_of_exec hreach hexec pair with
  | same hsame => exact ⟨w, hsame.trans hpool, .of_eq rfl rfl⟩
  | opened _ hcreate =>
      have hlisted : pair ∈ p.factory.pairList := by
        rw [← hregistered.pool, hpool]
        rfl
      exact absurd hlisted (hcreate.unlisted hregistered)
  | called hbefore hcall hafter =>
      obtain rfl := Option.some.inj (hbefore.symm.trans hpool)
      exact ⟨_, hafter, sharesKept_of_exec (lpSound_of_reachable (hreach pair _ hbefore)) hpaused hcall⟩

def LpPaused (p : Protocol Address) (pair : Address) : Prop :=
  ∃ w, p.pool pair = some w ∧ w.pair.lpTokenPaused = true

structure PauseCoherent (d : Deployment Address) (p : Protocol Address) : Prop where
  together : ∀ pair ∈ p.factory.pairList, ∃ w, p.pool pair = some w ∧
    w.pair.lpTokenPaused = w.lp.paused
  /-- Along calls that all start while the flag is set, the shares of the pool do not change. -/
  still : ∀ pair w more, p.pool pair = some w →
    (machine d).Along (fun q _ => LpPaused q pair) p more →
      ∃ w', ((machine d).run p more).pool pair = some w' ∧ w'.lp.totalSupply = w.lp.totalSupply ∧
        w'.lp.balance = w.lp.balance ∧ w'.pair.pendingLp = w.pair.pendingLp

/-- **Pausing.** -/
theorem pauseCoherent (d : Deployment Address) (calls : List (ProtocolCall Address)) :
    PauseCoherent d (after d calls) := by
  have hregistered := registered_after d calls
  have hreach := poolsReachable d calls
  refine ⟨?_, ?_⟩
  · intro pair hlisted
    obtain ⟨w, hpool⟩ := hregistered.exists_pool hlisted
    exact ⟨w, hpool, (lpSound_of_reachable (hreach pair w hpool)).paused.symm⟩
  · intro pair w more hpool halong
    let Kept : Protocol Address → Prop := fun q => PoolsReachable q ∧ Registered d q ∧
      ∃ w', q.pool pair = some w' ∧ SharesKept w w'
    have hstep : ∀ q call q', Kept q → LpPaused q pair → exec d q call = .ok q' → Kept q' := by
      rintro q ⟨env, op⟩ q' ⟨hreach, hregistered, v, hpool, hkept⟩ ⟨_, hv, hpaused⟩ hexec
      obtain rfl := Option.some.inj (hpool.symm.trans hv)
      obtain ⟨v', hpool', hstep⟩ := sharesKept_of_protocolExec hreach hregistered hpool hpaused hexec
      exact ⟨poolsReachable_of_exec hreach hexec, registered_of_exec hreach hregistered hexec, v', hpool',
        hkept.trans hstep⟩
    obtain ⟨-, -, w', hafter, hkept⟩ := Machine.run_invariant (m := machine d) hstep
      ⟨hreach, hregistered, w, hpool, .of_eq rfl rfl⟩ halong
    exact ⟨w', hafter, hkept.token.1, hkept.token.2, hkept.pending⟩

end Protocol

end CoralSwap
