import CoralSwap.Proof.PoolLoans
import CoralSwap.Proof.PoolRoutes
import CoralSwap.Proof.Solvency

/-!
# Runs of the whole exchange

Pools share the ledgers of their tokens, routes lead through several of them, and the receiver of a flash loan may
trade with all the others before it repays. Every pool nevertheless goes through a run of its own, so what holds of
every run of a pair holds of every pool of the exchange. And nobody's tokens move but those of contracts and signers.
-/

namespace CoralSwap.System

open Host Host.Call

variable {Address : Type} [LinearOrder Address] {router : Address} {env : SystemEnv Address}
variable {s s' : SystemWorld Address} {running : List Address}

/-- Who may send tokens: contracts, in their own code, and who has signed. -/
def MaySend (router : Address) (env : SystemEnv Address) (s : SystemWorld Address) (who : Address) : Prop :=
  isContract router s who = true ∨ env.auth who = true

mutual

/-- The action may have the pair at `pair` run `op`. The router may call any pair. -/
def Calls (pair : Address) : Action Address → CoralSwap.Op Address → Prop
  | .router _, op => Routed op
  | .pair called made, op => called = pair ∧ op = made
  | .flashLoan lender receiver amountA amountB dataLen actions succeeds, op =>
      (lender = pair ∧ ∃ seen, op = .flashLoan receiver amountA amountB dataLen ⟨seen, succeeds⟩) ∨
        CallsAny pair actions op
  | .lpToken _ _, _ => False
  | .transfer _ _ _ _, _ => False

def CallsAny (pair : Address) : List (Action Address) → CoralSwap.Op Address → Prop
  | [], _ => False
  | action :: rest, op => Calls pair action op ∨ CallsAny pair rest op

end

/-- A call of a pair that sees the host of the transaction, and no signers but its own. -/
structure SameHost (env : SystemEnv Address) {pair : Address} (host : Env pair) : Prop where
  sequence : host.sequence = env.sequence
  timestamp : host.timestamp = env.timestamp
  crypto : host.crypto = env.crypto
  factory : host.factory = env.factory pair
  signed : ∀ who, host.auth who = true → env.auth who = true

/-- What a transaction may have the pairs run. -/
def MadeIn (env : SystemEnv Address) (calls : (pair : Address) → CoralSwap.Op Address → Prop)
    (pair : Address) (call : PairCall pair) : Prop :=
  calls pair call.2 ∧ SameHost env call.1

/-! ### What the host lets contracts do -/

theorem isContract_of_isPool {who : Address} (hpool : isPool s who = true) : isContract router s who = true := by
  simp [isContract, hpool]

theorem isContract_congr (hpools : ∀ who, (s'.rest.pair who).pairState.isSome = (s.rest.pair who).pairState.isSome)
    (who : Address) : isContract router s' who = isContract router s who := by
  simp only [isContract, isPool, hpools]

theorem maySend_congr (hpools : ∀ who, (s'.rest.pair who).pairState.isSome = (s.rest.pair who).pairState.isSome)
    (who : Address) (hmay : MaySend router env s' who) : MaySend router env s who := by
  rwa [MaySend, isContract_congr hpools] at hmay

omit [LinearOrder Address] in
theorem not_pool_congr (hpools : ∀ who, (s'.rest.pair who).pairState.isSome = (s.rest.pair who).pairState.isSome)
    {who : Address} (hnone : (s.rest.pair who).pairState = none) : (s'.rest.pair who).pairState = none := by
  rw [← Option.isNone_iff_eq_none, ← Option.isSome_eq_false_iff, hpools, hnone]
  rfl

theorem maySend_of_signs {who : Address} (hsigns : signs router env s who = true) :
    MaySend router env s who ∧ (s.rest.pair who).pairState = none := by
  simp only [signs, isContract, isPool, Bool.and_eq_true, Bool.not_eq_true', Bool.or_eq_false_iff] at hsigns
  obtain ⟨hauth, -, hpool⟩ := hsigns
  exact ⟨Or.inr hauth, Option.isNone_iff_eq_none.mp (Option.isSome_eq_false_iff.mp hpool)⟩

theorem signs_of_pairEnv {pair who : Address} (hauth : (pairEnv router env s pair).auth who = true) :
    signs router env s who = true :=
  ((Bool.and_eq_true _ _).mp hauth).2

theorem sameHost_pairEnv (pair : Address) : SameHost env (pairEnv router env s pair) := by
  refine ⟨rfl, rfl, rfl, rfl, fun who hauth => ?_⟩
  exact ((Bool.and_eq_true _ _).mp (signs_of_pairEnv hauth)).1

theorem hosted_of_router (hrouter : (s.rest.pair router).pairState = none)
    {calls : (pair : Address) → CoralSwap.Op Address → Prop} (hrouted : ∀ pair op, Routed op → calls pair op) :
    Hosted (MaySend router env s) (MadeIn env calls) (pairEnv router env s) (routerEnv router env s) s.rest where
  chain := rfl
  pools := fun _ hpool => Or.inl (isContract_of_isPool hpool)
  router := ⟨Or.inl (by simp [isContract]), hrouter⟩
  users := fun _ hauth => maySend_of_signs hauth
  signers := fun _ _ hauth => maySend_of_signs (signs_of_pairEnv hauth)
  routed := fun pair op hop => ⟨hrouted pair op hop, sameHost_pairEnv pair⟩

theorem Evolution.mono {may may' : Address → Prop} {made made' : (pair : Address) → PairCall pair → Prop}
    {net net' : Network Address} (hmay : ∀ who, may who → may' who)
    (hmade : ∀ pair call, made pair call → made' pair call)
    (hevolves : Evolution may made running net net') : Evolution may' made' running net net' := by
  refine ⟨hevolves.pools, fun token => (hevolves.moves token).mono hmay, hevolves.waiting, ?_⟩
  intro pair hidle state hstate hne
  obtain ⟨calls, hcalls, hrun⟩ := hevolves.idle pair hidle state hstate hne
  exact ⟨calls, fun call hcall => (hcalls call hcall).imp_right (hmade pair call), hrun⟩

/-! ### One action -/

omit [LinearOrder Address] in
theorem outsideActions_of_isEntry {pair : Address} {host : Env pair} {op : CoralSwap.Op Address}
    (hentry : isEntry op = true) : outsideActions (host, op) = [] := by
  cases op with
  | external => cases hentry
  | flashLoan => cases hentry
  | _ => rfl

/-- To every pair a call of an LP token is what third parties do. -/
theorem evolution_of_lpCall {pair : Address} {op : LpToken.Op Address} {called : LpToken Address}
    {calls : (pair : Address) → CoralSwap.Op Address → Prop} (hpool : isPool s pair = true)
    (hcall : (s.rest.lp pair).exec (lpEnv router env s, op) = .ok called) :
    Evolution (MaySend router env s) (MadeIn env calls) running s.rest
      { s.rest with lp := Function.update s.rest.lp pair called } := by
  refine .of_outside (pairEnv router env s) (fun _ => rfl) (fun _ => .refl) fun other _ tokenA tokenB => ?_
  by_cases hother : other = pair
  · subst hother
    refine .action (?_ : (External.lpCall (lpEnv router env s) op).exec other _ = _)
    have hunsigned : (lpEnv router env s).auth other = false := by
      simp [lpEnv, signs, isContract_of_isPool hpool]
    simp only [External.exec, require, if_pos hunsigned, view, hcall, Function.update_self]
    rfl
  · change SeenOutside other (view s.rest other tokenA tokenB)
      { view s.rest other tokenA tokenB with lp := Function.update s.rest.lp pair called other }
    rw [Function.update_of_ne hother]
    exact .refl

/-- **Step.** By induction on the action, a flash loan with the actions of its receiver. -/
theorem evolution_of_exec (action : Action Address) (hrouter : (s.rest.pair router).pairState = none)
    (hexec : exec router env running s action = .ok s') :
    Evolution (MaySend router env s) (MadeIn env fun pair => Calls pair action) running s.rest s'.rest := by
  refine exec.induct router env
    (fun running s action => (s.rest.pair router).pairState = none → ∀ s', exec router env running s action = .ok s' →
      Evolution (MaySend router env s) (MadeIn env fun pair => Calls pair action) running s.rest s'.rest)
    (fun running s actions => (s.rest.pair router).pairState = none →
      Evolution (MaySend router env s) (MadeIn env fun pair => CallsAny pair actions) running s.rest
        (execAll router env running s actions).rest)
    ?elsewhere ?router ?pair ?flashLoan ?lpToken ?transfer ?nil ?cons running s action hrouter s' hexec
  case elsewhere =>
    intro running s rest _ s' hexec
    cases hexec
  case router =>
    intro running s op hop hrouter s' hexec
    rw [exec.eq_2 _ _ _ _ _ hop] at hexec
    exact (hosted_of_router hrouter fun pair op hrouted => by simpa only [Calls] using hrouted).exec hop hexec
  case pair =>
    intro running s pair op hrouter s' hexec
    simp only [exec, bind_eq_ok, require_eq_ok, orTrap_eq_ok, pure_eq_ok, exists_const, Prod.exists] at hexec
    obtain ⟨hidle, hentry, rest, _, hcall, rfl⟩ := hexec
    obtain ⟨state, w, hstate, hanswer, rfl⟩ := Network.callPair_eq_some.mp hcall
    simp only [bind_eq_ok, pure_eq_ok, Prod.mk.injEq] at hanswer
    obtain ⟨_, hanswer, rfl, -⟩ := hanswer
    refine Evolution.of_call (pairEnv router env s) ⟨?_, sameHost_pairEnv pair⟩ (Or.inl ?_)
      (fun who hauth => maySend_of_signs (signs_of_pairEnv hauth)) (outsideActions_of_isEntry hentry) (Or.inl hidle)
      hstate hanswer
    · change Calls pair (.pair pair op) op
      simp [Calls]
    · exact isContract_of_isPool (by rw [isPool, hstate]; rfl)
  case flashLoan =>
    intro running s pair receiver amountA amountB dataLen actions succeeds ih hrouter s' hexec
    simp only [exec, bind_eq_ok, require_eq_ok, orTrap_eq_ok, toOption_eq_some, exists_const] at hexec
    obtain ⟨hidle, state, hstate, hloan⟩ := hexec
    refine Evolution.of_flashLoan (pairEnv router env s) (fun seen => ⟨?_, sameHost_pairEnv pair⟩) (Or.inl ?_) hidle
      hstate (fun middle hpools => ?_) hloan
    · simp only [Calls]
      exact Or.inl ⟨trivial, seen, rfl⟩
    · exact isContract_of_isPool (by rw [isPool, hstate]; rfl)
    · refine (ih middle (not_pool_congr hpools hrouter)).mono (fun who => maySend_congr hpools who)
        fun other call hmade => ⟨?_, hmade.2⟩
      simp only [Calls]
      exact Or.inr hmade.1
  case lpToken =>
    intro running s pair op hrouter s' hexec
    simp only [exec, bind_eq_ok, require_eq_ok, orTrap_eq_ok, toOption_eq_some, pure_eq_ok, exists_const] at hexec
    obtain ⟨hpool, lp, hcall, rfl⟩ := hexec
    exact evolution_of_lpCall hpool hcall
  case transfer =>
    intro running s token src dst amount hrouter s' hexec
    simp only [exec, bind_eq_ok, require_eq_ok, orTrap_eq_ok, pure_eq_ok, exists_const] at hexec
    obtain ⟨hsigns, rest, htransfer, rfl⟩ := hexec
    obtain ⟨hmay, hnone⟩ := maySend_of_signs hsigns
    exact .of_transfer (pairEnv router env s) hmay hnone htransfer
  case nil =>
    intro running s _
    exact .refl
  case cons =>
    intro running s action rest ihAction ihRest hrouter
    have hfirst : Evolution (MaySend router env s) (MadeIn env fun pair => CallsAny pair (action :: rest)) running
        s.rest (commit (exec router env running s action) s).rest := by
      cases hexec : exec router env running s action with
      | error fault => exact .refl
      | ok after =>
          refine (ihAction hrouter after hexec).mono (fun _ hmay => hmay) fun pair call hmade => ⟨?_, hmade.2⟩
          simp only [CallsAny]
          exact Or.inl hmade.1
    refine hfirst.trans ?_
    refine (ihRest (not_pool_congr hfirst.pools hrouter)).mono (fun who => maySend_congr hfirst.pools who)
      fun pair call hmade => ⟨?_, hmade.2⟩
    simp only [CallsAny]
    exact Or.inr hmade.1

/-! ### A loan that trades elsewhere -/

/-- Address 1 signs. -/
def hubHost : SystemEnv ℕ where
  sequence := 5
  timestamp := 1
  auth := fun who => who = 1
  crypto := Crypto.rejecting ℕ
  factory := fun pair => (Env.quiet pair 1 1 none).factory

/-- The pairs 10 and 11, which share token 21, and the router at 0. -/
def hubSystem : SystemWorld ℕ where
  storage := Router.hubStorage
  rest :=
    { Router.hubNetwork with
      pair := fun pair =>
        if pair = 10 ∨ pair = 11 then Router.hubNetwork.pair pair
        else (World.deployed pair Router.hubLedger Router.hubLedger).pair }

/-- A loan of token 21 from pair 10, which its receiver trades through the router at pair 11. Meanwhile pair 10
refuses to be called. -/
def tradedLoan : SystemEnv ℕ × Action ℕ :=
  (hubHost, .flashLoan 10 1 0 5000 0
    [.router (.swapExactTokensForTokens 5000 1 [21, 22] 1 1 none), .pair 10 .sync, .transfer 21 1 10 5015] true)

def hubState : PairStorage ℕ :=
  { factory := 5, tokenA := 20, tokenB := 21, lpToken := 40, reserveA := 20000, reserveB := 20000
    blockTimestampLast := 1, kLast := 400000000 }

/-! ### Runs -/

/-- What the transactions of a run may have the pairs run. -/
def MadeAlong (calls : List (SystemEnv Address × Action Address)) (pair : Address) (call : PairCall pair) : Prop :=
  ∃ made ∈ calls, MadeIn made.1 (fun pair => Calls pair made.2) pair call

/-- **Run.** -/
theorem evolution_of_run (hrouter : (s.rest.pair router).pairState = none)
    (calls : List (SystemEnv Address × Action Address)) :
    Evolution (fun _ => True) (MadeAlong calls) [] s.rest ((systemMachine router).run s calls).rest := by
  induction calls generalizing s with
  | nil => exact .refl
  | cons call rest ih =>
      have hfirst : Evolution (fun _ => True) (MadeAlong (call :: rest)) [] s.rest
          ((systemMachine router).step s call).rest := by
        rcases Machine.step_cases (m := systemMachine router) s call with hexec | hstay
        · refine (evolution_of_exec call.2 hrouter hexec).mono (fun _ _ => trivial) fun pair made hmade => ?_
          exact ⟨call, List.mem_cons_self, hmade⟩
        · rw [hstay]
          exact .refl
      have hnone : (((systemMachine router).step s call).rest.pair router).pairState = none := by
        rw [← Option.isNone_iff_eq_none, ← Option.isSome_eq_false_iff, hfirst.pools, hrouter]
        rfl
      refine hfirst.trans ((ih hnone).mono (fun _ hmay => hmay) fun pair made hmade => ?_)
      obtain ⟨other, hother, hmadeIn⟩ := hmade
      exact ⟨other, List.mem_cons_of_mem call hother, hmadeIn⟩

variable {pair : Address} {state : PairStorage Address}

/-- **Every pool goes through a run of its own.** Whatever is called in the exchange, a pool ends in a state to
which calls of its own lead, interleaved with actions of third parties. The calls are those the transactions have
made of it, under their host and their signers. -/
theorem pool_sees_own_run (hrouter : (s.rest.pair router).pairState = none)
    (hstate : (s.rest.pair pair).pairState = some state) (hne : state.tokenA ≠ state.tokenB)
    (calls : List (SystemEnv Address × Action Address)) :
    Seen (MadeAlong calls pair) (s.rest.world pair state)
      (view ((systemMachine router).run s calls).rest pair state.tokenA state.tokenB) :=
  (evolution_of_run hrouter calls).idle pair (List.not_mem_nil) state hstate hne

theorem pool_sees_own_run_tradedLoan :
    (((systemMachine 0).run hubSystem [tradedLoan]).rest.pair 10).pairState.map (·.reserveB) = some 20015 ∧
      Seen (MadeAlong [tradedLoan] 10) (hubSystem.rest.world 10 hubState)
        (view ((systemMachine 0).run hubSystem [tradedLoan]).rest 10 20 21) :=
  ⟨by decide +kernel, pool_sees_own_run (by rfl) (by rfl) (by decide) [tradedLoan]⟩

/-- **All pools stay solvent together.** The ledgers they share always cover what a pool has stored, if nobody
mints with one token of it. -/
theorem pools_stay_solvent (hrouter : (s.rest.pair router).pairState = none)
    (hstate : (s.rest.pair pair).pairState = some state) (hne : state.tokenA ≠ state.tokenB)
    (hsolvent : Solvent pair (s.rest.world pair state)) (calls : List (SystemEnv Address × Action Address))
    (hno : ∀ call ∈ calls, ∀ op, Calls pair call.2 op → ¬op.IsMintWithOneToken) :
    Solvent pair (view ((systemMachine router).run s calls).rest pair state.tokenA state.tokenB) := by
  obtain ⟨own, hown, hrun⟩ := (evolution_of_run hrouter calls).idle pair (List.not_mem_nil) state hstate hne
  rw [← hrun]
  refine Machine.run_invariant (m := pairMachine pair) (I := Solvent pair)
    (P := fun _ call => ¬call.2.IsMintWithOneToken) (fun w call w' hsolvent hop hexec => ?_) hsolvent
    (Machine.along_of_forall_mem (m := pairMachine pair) (fun call hcall => ?_) _)
  · exact solvent_of_exec hsolvent hop hexec
  · rcases hown call hcall with ⟨action, haction⟩ | ⟨made, hmade, hcalls, -⟩
    · rw [haction]
      exact id
    · exact hno made hmade call.2 hcalls

theorem pools_stay_solvent_tradedLoan :
    (((systemMachine 0).run hubSystem [tradedLoan]).rest.ledger 21).balance 10 = 20015 ∧
      Solvent 10 (view ((systemMachine 0).run hubSystem [tradedLoan]).rest 10 20 21) := by
  refine ⟨by decide +kernel, pools_stay_solvent (s := hubSystem) (by rfl) (by rfl : _ = some hubState) (by decide)
    ⟨by decide, by decide⟩ [tradedLoan] ?_⟩
  intro call hcall op hcalls
  obtain rfl := List.mem_singleton.mp hcall
  simp only [tradedLoan, Calls, CallsAny] at hcalls
  rcases hcalls with ⟨-, seen, rfl⟩ | hrouted | ⟨-, rfl⟩ | hnone | hnone
  · exact id
  · cases op <;> first | exact hrouted.elim | exact id
  · exact id
  · exact hnone.elim
  · exact hnone.elim

/-- **Nobody's tokens move without consent.** Who ends a transaction with less of some token is a contract of the
exchange or has signed the transaction. -/
theorem tokens_fall_by_consent (hrouter : (s.rest.pair router).pairState = none) (env : SystemEnv Address)
    (action : Action Address) (token who : Address)
    (hfalls : ((((systemMachine router).step s (env, action)).rest.ledger token).balance who) <
      (s.rest.ledger token).balance who) : isContract router s who = true ∨ env.auth who = true := by
  by_contra hneither
  rcases Machine.step_cases (m := systemMachine router) s (env, action) with hexec | hstay
  · have hmoves := (evolution_of_exec action hrouter hexec).moves token
    exact absurd (Token.balance_le_of_moves hmoves hneither) (not_le.mpr hfalls)
  · rw [hstay] at hfalls
    exact lt_irrefl _ hfalls

theorem tokens_fall_by_consent_tradedLoan :
    (((systemMachine 0).step hubSystem tradedLoan).rest.ledger 21).balance 1 = 14992 ∧
      (isContract 0 hubSystem 1 = true ∨ hubHost.auth 1 = true) :=
  ⟨by decide +kernel, tokens_fall_by_consent (by rfl) hubHost tradedLoan.2 21 1 (by decide +kernel)⟩

end CoralSwap.System
