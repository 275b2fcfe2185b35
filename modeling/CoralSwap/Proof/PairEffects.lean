import CoralSwap.Pair.Machine
import CoralSwap.Proof.SingleSidedEffects

/-!
# What an accepted call of a run does

The remaining entry points, and third-party actions. An action outside the pair never touches the
pair's storage and never takes tokens from the pair.
-/

namespace CoralSwap

open Host Host.Call

variable {Address : Type} [DecidableEq Address] {contract : Address}

/-! ### Third parties -/

/-- What a third party can do to the world: move tokens that are not the pair's, or call the LP
token without the pair's signature. -/
inductive ExternalEffect (contract : Address) :
    External Address → World Address → World Address → Prop where
  | movedA {w : World Address} {src dst : Address} {amount : ℤ} {tokenA : Token Address}
      (hsrc : src ≠ contract) (htransfer : w.tokenA.transfer src dst amount = some tokenA) :
      ExternalEffect contract (.transferA src dst amount) w { w with tokenA }
  | movedB {w : World Address} {src dst : Address} {amount : ℤ} {tokenB : Token Address}
      (hsrc : src ≠ contract) (htransfer : w.tokenB.transfer src dst amount = some tokenB) :
      ExternalEffect contract (.transferB src dst amount) w { w with tokenB }
  | calledLp {w : World Address} {env : LpEnv Address} {op : LpToken.Op Address}
      {lp : LpToken Address} (hauth : env.auth contract = false)
      (hcall : w.lp.exec (env, op) = .ok lp) :
      ExternalEffect contract (.lpCall env op) w { w with lp }

theorem external_ok {w w' : World Address} {action : External Address}
    (hexec : action.exec contract w = .ok w') : ExternalEffect contract action w w' := by
  cases action with
  | transferA src dst amount =>
      simp only [External.exec, bind_eq_ok, require_eq_ok, orTrap_eq_ok, pure_eq_ok,
        exists_const] at hexec
      obtain ⟨hsrc, tokenA, htransfer, rfl⟩ := hexec
      exact .movedA hsrc htransfer
  | transferB src dst amount =>
      simp only [External.exec, bind_eq_ok, require_eq_ok, orTrap_eq_ok, pure_eq_ok,
        exists_const] at hexec
      obtain ⟨hsrc, tokenB, htransfer, rfl⟩ := hexec
      exact .movedB hsrc htransfer
  | lpCall env op =>
      simp only [External.exec, bind_eq_ok, require_eq_ok, nested_eq_ok, pure_eq_ok,
        exists_const] at hexec
      obtain ⟨hauth, lp, hcall, rfl⟩ := hexec
      exact .calledLp hauth hcall

/-- A third party leaves the pair's storage alone and takes none of its tokens. -/
structure OutsideFrame (contract : Address) (w w' : World Address) : Prop where
  pair : w'.pair = w.pair
  balanceA : w.tokenA.balance contract ≤ w'.tokenA.balance contract
  balanceB : w.tokenB.balance contract ≤ w'.tokenB.balance contract

theorem outsideFrame_of_external {w w' : World Address} {action : External Address}
    (heffect : ExternalEffect contract action w w') : OutsideFrame contract w w' := by
  cases heffect with
  | movedA hsrc htransfer => exact ⟨rfl, Token.balance_le_of_transfer htransfer hsrc.symm, le_rfl⟩
  | movedB hsrc htransfer => exact ⟨rfl, le_rfl, Token.balance_le_of_transfer htransfer hsrc.symm⟩
  | calledLp => exact ⟨rfl, le_rfl, le_rfl⟩

theorem outsideFrame_of_run (contract : Address) (w : World Address)
    (actions : List (External Address)) :
    OutsideFrame contract w ((externalMachine contract).run w actions) := by
  refine Machine.run_invariant_all (m := externalMachine contract)
    (I := fun w' => OutsideFrame contract w w') ?_ ⟨rfl, le_rfl, le_rfl⟩ actions
  intro w₁ action w₂ hframe hexec
  have hstep := outsideFrame_of_external (external_ok hexec)
  exact ⟨hstep.pair.trans hframe.pair, hframe.balanceA.trans hstep.balanceA,
    hframe.balanceB.trans hstep.balanceB⟩

/-! ### Flash loans -/

structure FlashLoanSettles (contract : Address) (w : World Address) (receiver : Address)
    (amountA amountB : ℤ) (callback : Callback Address) (state : PairStorage Address)
    (lentA lentB : Token Address) (called w' : World Address) : Prop where
  unlocked : w.pair.locked = false
  pairState : w.pair.pairState = some state
  amountA_nonneg : 0 ≤ amountA
  amountB_nonneg : 0 ≤ amountB
  amountA_le : amountA ≤ state.reserveA
  amountB_le : amountB ≤ state.reserveB
  lendA : lend w.tokenA contract receiver amountA = .ok lentA
  lendB : lend w.tokenB contract receiver amountB = .ok lentB
  called_eq : called = (externalMachine contract).run
    { w with tokenA := lentA, tokenB := lentB, pair := { w.pair with locked := true } }
    callback.actions
  product : state.reserveA * state.reserveB ≤
    called.tokenA.balance contract * called.tokenB.balance contract
  result : w' = { called with
    pair := { w.pair with
      pairState := some { state with
        reserveA := called.tokenA.balance contract, reserveB := called.tokenB.balance contract
        kLast := called.tokenA.balance contract * called.tokenB.balance contract } } }

theorem flashLoan_ok {env : Env contract} {w w' : World Address} {receiver : Address}
    {amountA amountB : ℤ} {dataLen : ℕ} {callback : Callback Address}
    (hloan : flashLoan env w receiver amountA amountB dataLen callback = .ok w') :
    w' = w ∨ ∃ state lentA lentB called,
      FlashLoanSettles contract w receiver amountA amountB callback state lentA lentB called w' := by
  simp only [flashLoan, executeFlashLoan, bind_eq_ok, failIf_eq_ok, World.ensureNotFrozen_eq_ok,
    World.getPairState_eq_ok, exists_const, not_or, not_lt] at hloan
  obtain ⟨-, -, ⟨hamountA, hamountB⟩, state, hstate, hloan⟩ := hloan
  split at hloan
  · exact Or.inl (pure_eq_ok.mp hloan).symm
  right
  simp only [bind_eq_ok, failIf_eq_ok, okOr_eq_ok, pure_eq_ok, Word.checkedMul_eq_some,
    World.acquireLock_eq_ok, exists_const, and_assoc, exists_and_left, exists_eq_left', not_or,
    not_lt] at hloan
  obtain ⟨hleA, hleB, -, -, hunlocked, _, -, _, -, lentA, hlentA, lentB, hlentB, -, -, -, -, -, -, -,
    hproduct, rfl⟩ := hloan
  refine ⟨state, lentA, lentB, _,
    { unlocked := hunlocked
      pairState := hstate
      amountA_nonneg := hamountA
      amountB_nonneg := hamountB
      amountA_le := hleA
      amountB_le := hleB
      lendA := hlentA
      lendB := hlentB
      called_eq := rfl
      product := hproduct
      result := ?_ }⟩
  have hframe := outsideFrame_of_run contract
    { w with tokenA := lentA, tokenB := lentB, pair := { w.pair with locked := true } }
    callback.actions
  simp only [World.releaseLock, World.setPairState, hframe.pair, hunlocked]

/-! ### The rest -/

omit [DecidableEq Address] in
theorem sync_ok {env : Env contract} {w w' : World Address} (hsync : sync env w = .ok w') :
    ∃ state, w.pair.pairState = some state ∧ w' = { w with
      pair := { w.pair with
        locked := false
        pairState := some { state with
          reserveA := w.tokenA.balance contract, reserveB := w.tokenB.balance contract
          kLast := w.tokenA.balance contract * w.tokenB.balance contract
          blockTimestampLast := env.timestamp } } } := by
  simp only [sync, bind_eq_ok, okOr_eq_ok, pure_eq_ok, Word.checkedMul_eq_some,
    World.acquireLock_eq_ok, World.getPairState_eq_ok, and_assoc, exists_and_left,
    exists_eq_left'] at hsync
  obtain ⟨-, state, hstate, -, -, rfl⟩ := hsync
  exact ⟨state, hstate, rfl⟩

theorem initializePair_ok {env : Env contract} {w w' : World Address}
    {factory tokenA tokenB lpToken : Address}
    (hinit : initializePair env w factory tokenA tokenB lpToken = .ok w') :
    w.pair.pairState = none ∧ tokenA ≠ tokenB ∧ w' = { w with
      pair := { w.pair with
        locked := false
        feeState := some FeeState.initial
        pairState := some
          { factory, tokenA, tokenB, lpToken
            reserveA := 0, reserveB := 0, blockTimestampLast := env.timestamp, kLast := 0 } } } := by
  simp only [initializePair, bind_eq_ok, failIf_eq_ok, pure_eq_ok, exists_const, not_or,
    Bool.not_eq_true, Option.isSome_eq_false_iff, Option.isNone_iff_eq_none] at hinit
  obtain ⟨hnone, hne, -, -, rfl⟩ := hinit
  exact ⟨hnone, hne, rfl⟩

omit [DecidableEq Address] in
theorem setStaleThreshold_ok {env : Env contract} {w w' : World Address} {newThreshold : ℕ}
    (hset : setStaleThreshold env w newThreshold = .ok w') :
    ∃ fs, w.pair.feeState = some fs ∧
      w' = w.setFeeState { fs with staleThreshold := newThreshold } := by
  simp only [setStaleThreshold, bind_eq_ok, failIf_eq_ok, require_eq_ok, pure_eq_ok,
    World.getPairState_eq_ok, World.getFeeState_eq_ok, exists_const] at hset
  obtain ⟨-, -, fs, hfs, -, -, rfl⟩ := hset
  exact ⟨fs, hfs, rfl⟩

theorem setLpTokenPaused_ok {env : Env contract} {w w' : World Address} {paused : Bool}
    (hset : setLpTokenPaused env w paused = .ok w') :
    ∃ lp, w.lp.setPaused env.lpEnv paused = .ok lp ∧
      w' = { w with lp, pair := { w.pair with lpTokenPaused := paused } } := by
  simp only [setLpTokenPaused, bind_eq_ok, require_eq_ok, World.getPairState_eq_ok,
    exists_const] at hset
  obtain ⟨-, -, -, hset⟩ := hset
  split at hset
  · rename_i lp hlp
    exact ⟨lp, hlp, (pure_eq_ok.mp hset).symm⟩
  · exact (fail_ne_ok.mp hset).elim
  · exact (fail_ne_ok.mp hset).elim

omit [DecidableEq Address] in
theorem setFrozen_ok {env : Env contract} {w w' : World Address} {frozen : Bool}
    (hset : setFrozen env w frozen = .ok w') :
    w' = { w with pair := { w.pair with frozen } } := by
  simp only [setFrozen, bind_eq_ok, require_eq_ok, pure_eq_ok, World.getPairState_eq_ok,
    exists_const] at hset
  obtain ⟨-, -, -, rfl⟩ := hset
  rfl

/-! ### All calls at once -/

/-- What an accepted call does, one case for each entry point. Invariants of runs split on it. -/
inductive CallEffect (env : Env contract) (w w' : World Address) : Op Address → Prop where
  | initializePair {factory tokenA tokenB lpToken : Address}
      (hnone : w.pair.pairState = none) (hne : tokenA ≠ tokenB)
      (hresult : w' = { w with
        pair := { w.pair with
          locked := false
          feeState := some FeeState.initial
          pairState := some
            { factory, tokenA, tokenB, lpToken
              reserveA := 0, reserveB := 0, blockTimestampLast := env.timestamp, kLast := 0 } } }) :
      CallEffect env w w' (.initializePair factory tokenA tokenB lpToken)
  | mint {dst : Address} {state : PairStorage Address} {seeded lp : LpToken Address} {liquidity : ℤ}
      (hmint : MintSettles env w dst state seeded lp w' liquidity) : CallEffect env w w' (.mint dst)
  | mintWithOneToken {dst tokenIn : Address} {amount minLpOut : ℤ} {state : PairStorage Address}
      {stored : FeeState} {isA : Bool} {pulled swapped : World Address} {event : SwapEvent}
      {postSwap : PairStorage Address} {lp : LpToken Address} {published : MintSingleSideEvent}
      (hmint : MintWithOneTokenSettles env w dst tokenIn amount minLpOut state stored isA pulled
        swapped event postSwap lp w' published) :
      CallEffect env w w' (.mintWithOneToken dst tokenIn amount minLpOut)
  | depositLp {src : Address} {amount : ℤ} {lp : LpToken Address}
      (hdeposit : DepositLpSettles env w src amount lp w') :
      CallEffect env w w' (.depositLp src amount)
  | burn {dst : Address} {state : PairStorage Address} {burnLp amountA amountB : ℤ}
      {lp : LpToken Address} {tokenA tokenB : Token Address}
      (hburn : BurnSettles env w dst state burnLp lp tokenA tokenB w' amountA amountB) :
      CallEffect env w w' (.burn dst)
  | burnSingleSide {dst preferredToken : Address} {lpAmount minAmountOut totalOut : ℤ}
      {state : PairStorage Address} {stored : FeeState} {isA : Bool} {lp : LpToken Address}
      {sharePreferred shareUnwanted swapOut : ℤ}
      (hburn : BurnSingleSideSettles env w dst lpAmount preferredToken state stored isA lp
        sharePreferred shareUnwanted swapOut w' totalOut) :
      CallEffect env w w' (.burnSingleSide dst lpAmount preferredToken minAmountOut)
  | swap {amountAOut amountBOut : ℤ} {dst : Address} {before after : PairStorage Address}
      {stored decayed : FeeState} {paidA paidB : Token Address} {event : SwapEvent}
      (hswap : SwapSettles env w amountAOut amountBOut dst before after stored decayed paidA paidB w'
        event) : CallEffect env w w' (.swap amountAOut amountBOut dst)
  | flashLoan {receiver : Address} {amountA amountB : ℤ} {dataLen : ℕ} {callback : Callback Address}
      {state : PairStorage Address} {lentA lentB : Token Address} {called : World Address}
      (hloan : FlashLoanSettles contract w receiver amountA amountB callback state lentA lentB called
        w') : CallEffect env w w' (.flashLoan receiver amountA amountB dataLen callback)
  | emptyFlashLoan {receiver : Address} {amountA amountB : ℤ} {dataLen : ℕ}
      {callback : Callback Address} (hresult : w' = w) :
      CallEffect env w w' (.flashLoan receiver amountA amountB dataLen callback)
  | sync {state : PairStorage Address} (hstate : w.pair.pairState = some state)
      (hresult : w' = { w with
        pair := { w.pair with
          locked := false
          pairState := some { state with
            reserveA := w.tokenA.balance contract, reserveB := w.tokenB.balance contract
            kLast := w.tokenA.balance contract * w.tokenB.balance contract
            blockTimestampLast := env.timestamp } } }) : CallEffect env w w' .sync
  | setStaleThreshold {newThreshold : ℕ} {fs : FeeState} (hfs : w.pair.feeState = some fs)
      (hresult : w' = w.setFeeState { fs with staleThreshold := newThreshold }) :
      CallEffect env w w' (.setStaleThreshold newThreshold)
  | setLpTokenPaused {paused : Bool} {lp : LpToken Address}
      (hlp : w.lp.setPaused env.lpEnv paused = .ok lp)
      (hresult : w' = { w with lp, pair := { w.pair with lpTokenPaused := paused } }) :
      CallEffect env w w' (.setLpTokenPaused paused)
  | setFrozen {frozen : Bool} (hresult : w' = { w with pair := { w.pair with frozen } }) :
      CallEffect env w w' (.setFrozen frozen)
  | external {action : External Address} (heffect : ExternalEffect contract action w w') :
      CallEffect env w w' (.external action)

/-- **Inversion of a call.** -/
theorem callEffect_of_exec {env : Env contract} {w w' : World Address} {op : Op Address}
    (hexec : exec w (env, op) = .ok w') : CallEffect env w w' op := by
  cases op with
  | initializePair factory tokenA tokenB lpToken =>
      obtain ⟨hnone, hne, hresult⟩ := initializePair_ok hexec
      exact .initializePair hnone hne hresult
  | mint dst =>
      simp only [exec, bind_eq_ok, pure_eq_ok] at hexec
      obtain ⟨⟨_, _⟩, hmint, rfl⟩ := hexec
      obtain ⟨_, _, _, hmint⟩ := mint_ok hmint
      exact .mint hmint
  | mintWithOneToken dst tokenIn amount minLpOut =>
      simp only [exec, bind_eq_ok, pure_eq_ok] at hexec
      obtain ⟨⟨_, _⟩, hmint, rfl⟩ := hexec
      obtain ⟨_, _, _, _, _, _, _, _, hmint⟩ := mintWithOneToken_ok hmint
      exact .mintWithOneToken hmint
  | depositLp src amount =>
      obtain ⟨_, hdeposit⟩ := depositLp_ok hexec
      exact .depositLp hdeposit
  | burn dst =>
      simp only [exec, bind_eq_ok, pure_eq_ok] at hexec
      obtain ⟨⟨_, _, _⟩, hburn, rfl⟩ := hexec
      obtain ⟨_, _, _, _, _, hburn⟩ := burn_ok hburn
      exact .burn hburn
  | burnSingleSide dst lpAmount preferredToken minAmountOut =>
      simp only [exec, bind_eq_ok, pure_eq_ok] at hexec
      obtain ⟨⟨_, _⟩, hburn, rfl⟩ := hexec
      obtain ⟨_, _, _, _, _, _, _, hburn⟩ := burnSingleSide_ok hburn
      exact .burnSingleSide hburn
  | swap amountAOut amountBOut dst =>
      simp only [exec, bind_eq_ok, pure_eq_ok] at hexec
      obtain ⟨⟨_, _⟩, hswap, rfl⟩ := hexec
      obtain ⟨-, -, _, _, _, _, _, _, hswap⟩ := swap_ok hswap
      exact .swap hswap
  | flashLoan receiver amountA amountB dataLen callback =>
      rcases flashLoan_ok hexec with hresult | ⟨_, _, _, _, hloan⟩
      · exact .emptyFlashLoan hresult
      · exact .flashLoan hloan
  | sync =>
      obtain ⟨_, hstate, hresult⟩ := sync_ok hexec
      exact .sync hstate hresult
  | setStaleThreshold newThreshold =>
      obtain ⟨_, hfs, hresult⟩ := setStaleThreshold_ok hexec
      exact .setStaleThreshold hfs hresult
  | setLpTokenPaused paused =>
      obtain ⟨_, hlp, hresult⟩ := setLpTokenPaused_ok hexec
      exact .setLpTokenPaused hlp hresult
  | setFrozen frozen => exact .setFrozen (setFrozen_ok hexec)
  | external action => exact .external (external_ok hexec)

end CoralSwap
