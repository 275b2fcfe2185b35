import CoralSwap.Proof.ProtocolEffects

/-!
# The pools of the protocol

A pool goes through the states of a pair on its own: it opens as a deployed pair that has been initialised, and every
call of the protocol that touches it is a call of the pair. So each invariant of the pair is one of the pools. What a
pool is, its factory, its two tokens and its LP token, never changes, and only a call of its factory freezes it.
-/

namespace CoralSwap

open Host Host.Call

section Pair

variable {Address : Type} [DecidableEq Address] {contract : Address}
variable {env : Env contract} {w w' : World Address}

/-! ### What the calls of a pair leave alone -/

structure SameIdentity (state state' : PairStorage Address) : Prop where
  factory : state'.factory = state.factory
  tokenA : state'.tokenA = state.tokenA
  tokenB : state'.tokenB = state.tokenB
  lpToken : state'.lpToken = state.lpToken

theorem SwapSettles.sameIdentity {amountAOut amountBOut : ℤ} {dst : Address}
    {before after : PairStorage Address} {stored decayed : FeeState} {paidA paidB : Token Address}
    {event : SwapEvent}
    (hswap : SwapSettles env w amountAOut amountBOut dst before after stored decayed paidA paidB w'
      event) : SameIdentity before after := by
  rw [hswap.storage]
  exact ⟨rfl, rfl, rfl, rfl⟩

/-- The identity of a pair is the one it was initialised with. -/
theorem identity_of_exec {op : Op Address} {state : PairStorage Address}
    (hstate : w.pair.pairState = some state) (hexec : exec w (env, op) = .ok w') :
    ∃ state', w'.pair.pairState = some state' ∧ SameIdentity state state' := by
  cases callEffect_of_exec hexec with
  | initializePair hnone => cases hstate.symm.trans hnone
  | mint hmint =>
      obtain rfl := Option.some.inj (hmint.pairState.symm.trans hstate)
      rw [hmint.result]
      exact ⟨_, rfl, rfl, rfl, rfl, rfl⟩
  | mintWithOneToken hmint =>
      obtain ⟨-, -, hpulled, -⟩ := moveToken_ok hmint.pull
      obtain ⟨before, after, _, _, _, _, hswap⟩ := swapIntoPair_ok hmint.swap
      obtain rfl : before = state := by
        refine Option.some.inj (hswap.pairState.symm.trans ?_)
        rw [hpulled]
        exact hstate
      obtain rfl := Option.some.inj (hswap.pairState'.symm.trans hmint.postSwapState)
      have hsame := hswap.sameIdentity
      rw [hmint.result]
      exact ⟨_, rfl, hsame.factory, hsame.tokenA, hsame.tokenB, hsame.lpToken⟩
  | depositLp hdeposit =>
      rw [hdeposit.result]
      exact ⟨state, hstate, rfl, rfl, rfl, rfl⟩
  | burn hburn =>
      obtain rfl := Option.some.inj (hburn.pairState.symm.trans hstate)
      rw [hburn.result]
      exact ⟨_, rfl, rfl, rfl, rfl, rfl⟩
  | burnSingleSide hburn =>
      obtain rfl := Option.some.inj (hburn.pairState.symm.trans hstate)
      rw [hburn.pair']
      exact ⟨_, rfl, rfl, rfl, rfl, rfl⟩
  | swap hswap =>
      obtain rfl := Option.some.inj (hswap.pairState.symm.trans hstate)
      exact ⟨_, hswap.pairState', hswap.sameIdentity⟩
  | flashLoan hloan =>
      obtain rfl := Option.some.inj (hloan.pairState.symm.trans hstate)
      rw [hloan.result]
      exact ⟨_, rfl, rfl, rfl, rfl, rfl⟩
  | emptyFlashLoan hresult =>
      rw [hresult]
      exact ⟨state, hstate, rfl, rfl, rfl, rfl⟩
  | sync hbefore hresult =>
      obtain rfl := Option.some.inj (hbefore.symm.trans hstate)
      rw [hresult]
      exact ⟨_, rfl, rfl, rfl, rfl, rfl⟩
  | setStaleThreshold hfs hresult =>
      rw [hresult]
      exact ⟨state, hstate, rfl, rfl, rfl, rfl⟩
  | setLpTokenPaused hlp hresult =>
      rw [hresult]
      exact ⟨state, hstate, rfl, rfl, rfl, rfl⟩
  | setFrozen hresult =>
      rw [hresult]
      exact ⟨state, hstate, rfl, rfl, rfl, rfl⟩
  | external heffect =>
      rw [(outsideFrame_of_external heffect).pair]
      exact ⟨state, hstate, rfl, rfl, rfl, rfl⟩

theorem frozen_of_exec {op : Op Address} (hop : ∀ frozen, op ≠ .setFrozen frozen)
    (hexec : exec w (env, op) = .ok w') : w'.pair.frozen = w.pair.frozen := by
  cases callEffect_of_exec hexec with
  | initializePair _ _ hresult => rw [hresult]
  | mint hmint => rw [hmint.result]
  | mintWithOneToken hmint =>
      obtain ⟨-, -, hpulled, -⟩ := moveToken_ok hmint.pull
      have hswapped := (sameFlags_of_swapIntoPair hmint.swap).frozen
      rw [hpulled] at hswapped
      rw [hmint.result]
      exact hswapped
  | depositLp hdeposit => rw [hdeposit.result]
  | burn hburn => rw [hburn.result]
  | burnSingleSide hburn => rw [hburn.pair']
  | swap =>
      simp only [exec, bind_eq_ok, pure_eq_ok] at hexec
      obtain ⟨⟨_, _⟩, hcall, rfl⟩ := hexec
      exact (sameFlags_of_swap hcall).frozen
  | flashLoan hloan => rw [hloan.result]
  | emptyFlashLoan hresult => rw [hresult]
  | sync _ hresult => rw [hresult]
  | setStaleThreshold _ hresult =>
      rw [hresult]
      rfl
  | setLpTokenPaused _ hresult => rw [hresult]
  | @setFrozen frozen => exact absurd rfl (hop frozen)
  | external heffect => rw [(outsideFrame_of_external heffect).pair]

theorem Reachable.exec {call : PairCall contract} (hreach : Reachable contract w)
    (hexec : CoralSwap.exec w call = .ok w') : Reachable contract w' := by
  obtain ⟨tokenA, tokenB, calls, rfl⟩ := hreach
  refine ⟨tokenA, tokenB, calls ++ [call], ?_⟩
  rw [Machine.run_append, Machine.run_cons, Machine.run_nil]
  exact (Machine.step_of_exec_ok (m := pairMachine contract) hexec).symm

end Pair

/-! ### What the calls of the protocol do to one pool -/

namespace Protocol

variable {Address : Type} [LinearOrder Address]
variable {d : Deployment Address} {env : ProtocolEnv Address} {p p' : Protocol Address}

def PoolsReachable (p : Protocol Address) : Prop := ∀ pair w, p.pool pair = some w → Reachable pair w

/-- An accepted call leaves the pool at `pair` alone, opens it, or is a call of it. -/
inductive PoolStep (d : Deployment Address) (env : ProtocolEnv Address) (p p' : Protocol Address)
    (pair : Address) : Prop where
  | same (hpool : p'.pool pair = p.pool pair)
  | opened {tokenA tokenB token0 token1 lpToken : Address} {storage : FactoryStorage Address}
      {w : World Address} (hpool : p'.pool pair = some w)
      (hcreate : Creates d env p tokenA tokenB token0 token1 pair lpToken storage w p')
  | called {byFactory : Bool} {op : CoralSwap.Op Address} {w w' : World Address}
      (hbefore : p.pool pair = some w)
      (hexec : CoralSwap.exec w (pairEnv d env p byFactory pair, op) = .ok w')
      (hafter : p'.pool pair = some w')

theorem CallsPool.pool_self {byFactory : Bool} {pair : Address} {op : CoralSwap.Op Address}
    {w w' : World Address} (hcall : CallsPool d env p byFactory pair op w w' p') :
    p'.pool pair = some w' := by
  rw [hcall.result, pool_setPool_self]

theorem CallsPool.pool_of_ne {byFactory : Bool} {pair other : Address} {op : CoralSwap.Op Address}
    {w w' : World Address} (hcall : CallsPool d env p byFactory pair op w w' p') (hne : other ≠ pair) :
    p'.pool other = p.pool other := by
  rw [hcall.result, pool_setPool_of_ne hne]

omit [LinearOrder Address] in
theorem not_reinitialized {w : World Address} {lp : LpToken Address} {admin : Address} {decimals : ℕ}
    {name symbol : String} (hadmin : w.lp.admin.isSome = true)
    (hinit : w.lp.initializeLpToken admin decimals name symbol = .ok lp) : False := by
  simp only [LpToken.initializeLpToken, bind_eq_ok, failIf_eq_ok, hadmin] at hinit
  obtain ⟨_, hnone, -⟩ := hinit
  exact hnone trivial

theorem poolStep_of_calls {byFactory : Bool} {called pair : Address} {op : CoralSwap.Op Address}
    {w w' : World Address} {relayed : Protocol Address}
    (hcall : CallsPool d env p byFactory called op w w' relayed) (hpool : p'.pool = relayed.pool) :
    PoolStep d env p p' pair := by
  by_cases hpair : pair = called
  · subst hpair
    refine .called hcall.pool hcall.called ?_
    rw [hpool]
    exact hcall.pool_self
  · refine .same ?_
    rw [hpool]
    exact hcall.pool_of_ne hpair

theorem Creates.pool_self {tokenA tokenB token0 token1 pair lpToken : Address}
    {storage : FactoryStorage Address} {w : World Address}
    (hcreate : Creates d env p tokenA tokenB token0 token1 pair lpToken storage w p') :
    p'.pool pair = some w := by
  rw [hcreate.result]
  exact Function.update_self ..

theorem Creates.pool_of_ne {tokenA tokenB token0 token1 pair lpToken other : Address}
    {storage : FactoryStorage Address} {w : World Address}
    (hcreate : Creates d env p tokenA tokenB token0 token1 pair lpToken storage w p')
    (hne : other ≠ pair) : p'.pool other = p.pool other := by
  rw [hcreate.result]
  exact Function.update_of_ne hne ..

theorem Creates.reachable {tokenA tokenB token0 token1 pair lpToken : Address}
    {storage : FactoryStorage Address} {w : World Address}
    (hcreate : Creates d env p tokenA tokenB token0 token1 pair lpToken storage w p') :
    Reachable pair w := by
  have hdeployed : Reachable pair (World.deployed pair (env.token token0) (env.token token1)) :=
    ⟨_, _, [], rfl⟩
  have hexec : CoralSwap.exec (World.deployed pair (env.token token0) (env.token token1))
      (pairEnv d env p true pair, .initializePair d.factory token0 token1 lpToken) = .ok w :=
    hcreate.opened
  exact hdeployed.exec hexec

theorem poolStep_of_exec (hreach : PoolsReachable p) {op : Op Address}
    (hexec : exec d p (env, op) = .ok p') (pair : Address) : PoolStep d env p p' pair := by
  cases effect_of_exec hexec with
  | recorded _ _ hresult =>
      subst hresult
      exact .same rfl
  | still _ hresult =>
      subst hresult
      exact .same rfl
  | @created _ _ _ _ opened _ _ _ hcreate =>
      by_cases hpair : pair = opened
      · subst hpair
        exact .opened hcreate.pool_self hcreate
      · exact .same (hcreate.pool_of_ne hpair)
  | froze _ _ _ hcall hresult =>
      subst hresult
      exact poolStep_of_calls hcall rfl
  | froze_unknown _ _ _ hresult =>
      subst hresult
      exact .same rfl
  | deposited hresult =>
      subst hresult
      exact .same rfl
  | proposed _ _ _ hresult =>
      subst hresult
      exact .same rfl
  | executed _ _ hresult =>
      subst hresult
      exact .same rfl
  | cancelled _ hresult =>
      subst hresult
      exact .same rfl
  | called _ hcall => exact poolStep_of_calls hcall rfl
  | @reinitialized called _ _ _ _ w _ hpool hinit _ =>
      have hadmin := admin_of_reachable (hreach called w hpool)
      exact (not_reinitialized (by rw [hadmin]; rfl) hinit).elim

theorem poolsReachable_of_exec (hreach : PoolsReachable p) {op : Op Address}
    (hexec : exec d p (env, op) = .ok p') : PoolsReachable p' := by
  intro pair w hpool
  cases poolStep_of_exec hreach hexec pair with
  | same hsame => exact hreach pair w (hsame.symm.trans hpool)
  | opened hopened hcreate =>
      obtain rfl := Option.some.inj (hopened.symm.trans hpool)
      exact hcreate.reachable
  | called hbefore hcall hafter =>
      obtain rfl := Option.some.inj (hafter.symm.trans hpool)
      exact (hreach pair _ hbefore).exec hcall

/-- **Pools are pairs.** Each pool of the protocol is in a state that the pair reaches on its own. -/
theorem poolsReachable (d : Deployment Address) (calls : List (ProtocolCall Address)) :
    PoolsReachable (after d calls) := by
  refine Machine.run_invariant_all (m := machine d) (I := PoolsReachable) ?_ ?_ calls
  · rintro p ⟨env, op⟩ p' hreach hexec
    exact poolsReachable_of_exec hreach hexec
  · rintro pair w hnone
    cases hnone

end Protocol

end CoralSwap
