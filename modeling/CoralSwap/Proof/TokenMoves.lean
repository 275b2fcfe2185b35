import CoralSwap.Proof.OutsideCalls

/-!
# What a call does to the pool's tokens

An accepted call of a pair only makes transfers of its two tokens. The pair sends some of them, the one caller who
has to sign for it sends its deposit, and outsiders send what is theirs.
-/

namespace CoralSwap

open Host Host.Call

variable {Address : Type} [DecidableEq Address] {contract : Address}

/-- Who sends tokens by an action of a third party. -/
def External.Sends : External Address → Address → Prop
  | .transferA src _ _, who => who = src
  | .transferB src _ _, who => who = src
  | .lpCall _ _, _ => False

/-- Who may send tokens during a call of the pair. -/
def Pays (call : PairCall contract) (who : Address) : Prop :=
  who = contract ∨ call.1.auth who = true ∨ ∃ action ∈ outsideActions call, action.Sends who

/-- The two ledgers of a world are moved. -/
structure WorldMoves (sends : Address → Prop) (w w' : World Address) : Prop where
  tokenA : Token.Moves sends w.tokenA w'.tokenA
  tokenB : Token.Moves sends w.tokenB w'.tokenB

section

variable {sends sends' : Address → Prop} {w w' w'' : World Address}

theorem WorldMoves.of_eq (htokenA : w'.tokenA = w.tokenA) (htokenB : w'.tokenB = w.tokenB) :
    WorldMoves sends w w' :=
  ⟨htokenA ▸ .refl, htokenB ▸ .refl⟩

theorem WorldMoves.trans (hfirst : WorldMoves sends w w') (hsecond : WorldMoves sends w' w'') :
    WorldMoves sends w w'' :=
  ⟨hfirst.tokenA.trans hsecond.tokenA, hfirst.tokenB.trans hsecond.tokenB⟩

theorem WorldMoves.mono (himplies : ∀ who, sends who → sends' who) (hmoves : WorldMoves sends w w') :
    WorldMoves sends' w w' :=
  ⟨hmoves.tokenA.mono himplies, hmoves.tokenB.mono himplies⟩

/-- One of the two ledgers is moved. -/
theorem WorldMoves.of_side {isA : Bool} (hmoved : Token.Moves sends (w.token isA) (w'.token isA))
    (hkept : w'.token (!isA) = w.token (!isA)) : WorldMoves sends w w' := by
  cases isA with
  | false =>
      have htokenA : w'.tokenA = w.tokenA := hkept
      exact ⟨htokenA ▸ .refl, hmoved⟩
  | true =>
      have htokenB : w'.tokenB = w.tokenB := hkept
      exact ⟨hmoved, htokenB ▸ .refl⟩

end

/-! ### The steps of the calls -/

section

variable {env : Env contract} {sends : Address → Prop} {t paid after : Token Address} {dst : Address}

theorem moves_of_payOut {amount : ℤ} (hsends : sends contract) (hpay : payOut t contract dst amount = .ok paid) :
    Token.Moves sends t paid := by
  rcases payOut_ok hpay with ⟨-, htransfer⟩ | ⟨-, rfl⟩
  · exact .transfer hsends htransfer
  · exact .refl

theorem moves_of_collectProtocolFee {fee : ℤ} (hsends : sends contract)
    (hcollect : env.collectProtocolFee t fee = .ok paid) : Token.Moves sends t paid := by
  unfold Env.collectProtocolFee at hcollect
  split at hcollect
  · exact moves_of_payOut hsends hcollect
  · rw [← pure_eq_ok.mp hcollect]

theorem SideSettles.moves {feeBps : ℕ} {reserve amountOut amountIn reserve' : ℤ} (hsends : sends contract)
    (hside : SideSettles env feeBps dst reserve amountOut t paid after amountIn reserve') :
    Token.Moves sends t after :=
  (moves_of_payOut hsends hside.payout).trans (moves_of_collectProtocolFee hsends hside.collected)

theorem SwapSettles.moves {w w' : World Address} {amountAOut amountBOut : ℤ} {before after : PairStorage Address}
    {stored decayed : FeeState} {paidA paidB : Token Address} {event : SwapEvent} (hsends : sends contract)
    (hswap : SwapSettles env w amountAOut amountBOut dst before after stored decayed paidA paidB w' event) :
    WorldMoves sends w w' :=
  ⟨hswap.sideA.moves hsends, hswap.sideB.moves hsends⟩

theorem moves_of_lend {amount : ℤ} (hsends : sends contract) (hlend : lend t contract dst amount = .ok paid) :
    Token.Moves sends t paid := by
  unfold lend at hlend
  split at hlend
  · exact .transfer hsends (orTrap_eq_ok.mp hlend)
  · rw [← pure_eq_ok.mp hlend]

theorem moves_of_external {w w' : World Address} {action : External Address}
    (heffect : ExternalEffect contract action w w') : WorldMoves action.Sends w w' := by
  cases heffect with
  | movedA _ htransfer => exact ⟨.transfer rfl htransfer, .refl⟩
  | movedB _ htransfer => exact ⟨.refl, .transfer rfl htransfer⟩
  | calledLp => exact .of_eq rfl rfl

theorem moves_of_outside (w : World Address) (actions : List (External Address)) :
    WorldMoves (fun who => ∃ action ∈ actions, action.Sends who) w ((externalMachine contract).run w actions) := by
  induction actions generalizing w with
  | nil => exact .of_eq rfl rfl
  | cons action rest ih =>
      refine WorldMoves.trans ?_ ((ih ((externalMachine contract).step w action)).mono fun who hwho => ?_)
      · rcases Machine.step_cases (m := externalMachine contract) w action with hexec | hstay
        · refine (moves_of_external (external_ok hexec)).mono fun who hsends => ?_
          exact ⟨action, List.mem_cons_self, hsends⟩
        · exact .of_eq (by rw [hstay]) (by rw [hstay])
      · obtain ⟨sent, hsent, hsends⟩ := hwho
        exact ⟨sent, List.mem_cons_of_mem action hsent, hsends⟩

end

/-- **Step.** -/
theorem moves_of_exec {call : PairCall contract} {w w' : World Address} (hexec : exec w call = .ok w') :
    WorldMoves (Pays call) w w' := by
  obtain ⟨env, op⟩ := call
  have hpair : Pays (env, op) contract := Or.inl rfl
  cases callEffect_of_exec hexec with
  | initializePair hnone hne hresult => exact .of_eq (by rw [hresult]) (by rw [hresult])
  | mint hmint => exact .of_eq (by rw [hmint.result]) (by rw [hmint.result])
  | @mintWithOneToken dst tokenIn amount minLpOut _ _ _ pulled swapped _ _ _ _ hmint =>
      obtain ⟨hmoved, hkept, -, -⟩ := moveToken_ok hmint.pull
      obtain ⟨_, _, _, _, _, _, hswap⟩ := swapIntoPair_ok hmint.swap
      have hsigned : Pays (env, .mintWithOneToken dst tokenIn amount minLpOut) dst :=
        Or.inr (Or.inl hmint.authorised)
      have hpulled := WorldMoves.of_side (.transfer hsigned hmoved) hkept
      have hswapped := hswap.moves hpair
      rw [hmint.result]
      exact ⟨hpulled.tokenA.trans hswapped.tokenA, hpulled.tokenB.trans hswapped.tokenB⟩
  | depositLp hdeposit => exact .of_eq (by rw [hdeposit.result]) (by rw [hdeposit.result])
  | burn hburn =>
      rw [hburn.result]
      exact ⟨.transfer hpair hburn.paidA, .transfer hpair hburn.paidB⟩
  | burnSingleSide hburn => exact .of_side (.transfer hpair hburn.paid) hburn.kept
  | swap hswap => exact hswap.moves hpair
  | @flashLoan receiver amountA amountB dataLen callback _ lentA lentB called hloan =>
      have hcalled : WorldMoves (Pays (env, .flashLoan receiver amountA amountB dataLen callback))
          { w with tokenA := lentA, tokenB := lentB, pair := { w.pair with locked := true } } called := by
        rw [hloan.called_eq]
        exact (moves_of_outside _ callback.actions).mono fun who hsends => Or.inr (Or.inr hsends)
      rw [hloan.result]
      exact ⟨(moves_of_lend hpair hloan.lendA).trans hcalled.tokenA,
        (moves_of_lend hpair hloan.lendB).trans hcalled.tokenB⟩
  | emptyFlashLoan hresult => exact .of_eq (by rw [hresult]) (by rw [hresult])
  | sync hstate hresult => exact .of_eq (by rw [hresult]) (by rw [hresult])
  | setStaleThreshold hfs hresult => exact .of_eq (by rw [hresult]; rfl) (by rw [hresult]; rfl)
  | setLpTokenPaused hlp hresult => exact .of_eq (by rw [hresult]) (by rw [hresult])
  | setFrozen hresult => exact .of_eq (by rw [hresult]) (by rw [hresult])
  | @external action heffect =>
      refine (moves_of_external heffect).mono fun who hsends => ?_
      exact Or.inr (Or.inr ⟨action, List.mem_singleton_self action, hsends⟩)

end CoralSwap
