import CoralSwap.Pair.Reentrant

/-!
# The pair's code without calls back

Where no callee calls back, the code of an entry point does what the entry point of the pair machine does.
-/

namespace CoralSwap.Reentrant

open Host Host.Call Host.Program

variable {Address : Type} [DecidableEq Address] {contract : Address} {env : Env contract}
variable {w : World Address} {src dst receiver : Address} {amount amountA amountB : ℤ}

omit [DecidableEq Address] in
@[simp]
theorem run_withGuard {α : Type} (body : Code Address α) : (withGuard body).run w =
    (do
      let held ← w.acquireLock
      let (a, w') ← body.run held
      pure (a, w'.releaseLock)) := by
  simp only [withGuard, run_bind, run_read, run_lift, run_write, run_onExit, bind_assoc, pure_bind]

omit [DecidableEq Address] in
@[simp]
theorem run_callToken : (callToken : Code Address Unit).run w = pure ((), w) := rfl

@[simp]
theorem run_transferA : (transferA src dst amount).run w =
    (do
      let tokenA ← orTrap (w.tokenA.transfer src dst amount)
      pure ((), { w with tokenA })) := by
  simp only [transferA, run_bind, run_read, run_lift, run_write, run_callToken, bind_assoc, pure_bind]

@[simp]
theorem run_transferB : (transferB src dst amount).run w =
    (do
      let tokenB ← orTrap (w.tokenB.transfer src dst amount)
      pure ((), { w with tokenB })) := by
  simp only [transferB, run_bind, run_read, run_lift, run_write, run_callToken, bind_assoc, pure_bind]

@[simp]
theorem run_transferSide {isA : Bool} : (transferSide isA src dst amount).run w =
    (do
      let w' ← moveToken w isA src dst amount
      pure ((), w')) := by
  cases isA with
  | false =>
      simp only [transferSide, moveToken, Bool.false_eq_true, if_false, run_transferB, bind_assoc,
        pure_bind]
  | true => simp only [transferSide, moveToken, if_true, run_transferA, bind_assoc, pure_bind]

@[simp]
theorem run_payA : (payA src dst amount).run w =
    (do
      let tokenA ← payOut w.tokenA src dst amount
      pure ((), { w with tokenA })) := by
  unfold payA payOut
  split
  · exact run_transferA
  · rfl

@[simp]
theorem run_payB : (payB src dst amount).run w =
    (do
      let tokenB ← payOut w.tokenB src dst amount
      pure ((), { w with tokenB })) := by
  unfold payB payOut
  split
  · exact run_transferB
  · rfl

/-- The shares are burned before the payout is made. -/
theorem moveToken_lp {lp : LpToken Address} {isA : Bool} :
    moveToken { w with lp } isA src dst amount =
    (do
      let w' ← moveToken w isA src dst amount
      pure { w' with lp }) := by
  cases isA with
  | false => simp only [moveToken, Bool.false_eq_true, if_false, bind_assoc, pure_bind]
  | true => simp only [moveToken, if_true, bind_assoc, pure_bind]

/-! ### The entry points -/

theorem run_mint : (mint env dst).run w =
    (do
      let (w', _) ← CoralSwap.mint env w dst
      pure ((), w')) := by
  simp only [mint, CoralSwap.mint, run_withGuard, run_bind, run_read, run_lift, run_write, bind_assoc,
    pure_bind]
  rfl

theorem run_depositLp : (depositLp env src amount).run w =
    (do
      let w' ← CoralSwap.depositLp env w src amount
      pure ((), w')) := by
  simp only [depositLp, CoralSwap.depositLp, run_withGuard, run_bind, run_read, run_lift, run_write,
    run_callToken, bind_assoc, pure_bind]
  rfl

theorem run_burn : (burn env dst).run w =
    (do
      let (w', _, _) ← CoralSwap.burn env w dst
      pure ((), w')) := by
  simp only [burn, CoralSwap.burn, run_withGuard, run_bind, run_read, run_lift, run_write,
    run_transferA, run_transferB, bind_assoc, pure_bind]
  rfl

theorem run_burnSingleSide {lpAmount minAmountOut : ℤ} {preferredToken : Address} :
    (burnSingleSide env dst lpAmount preferredToken minAmountOut).run w =
    (do
      let (w', _) ← CoralSwap.burnSingleSide env w dst lpAmount preferredToken minAmountOut
      pure ((), w')) := by
  simp only [burnSingleSide, CoralSwap.burnSingleSide, run_withGuard, run_bind, run_read, run_lift,
    run_write, run_transferSide, moveToken_lp, World.setPairState, bind_assoc, pure_bind]

@[simp]
theorem run_collectProtocolFees {feeA feeB : ℤ} : (collectProtocolFees env feeA feeB).run w =
    (do
      let tokenA ← env.collectProtocolFee w.tokenA feeA
      let tokenB ← env.collectProtocolFee w.tokenB feeB
      pure ((), { w with tokenA, tokenB })) := by
  unfold collectProtocolFees Env.collectProtocolFee
  cases env.protocolFeeTo with
  | none => rfl
  | some feeTo => simp only [run_bind, run_payA, run_payB, bind_assoc, pure_bind]

@[simp]
theorem run_swapInner : (swapInner env amountA amountB dst).run w =
    (do
      let (w', _) ← CoralSwap.swapInner env w amountA amountB dst
      pure ((), w')) := by
  simp only [swapInner, CoralSwap.swapInner, run_bind, run_read, run_lift, run_write, run_payA, run_payB,
    run_collectProtocolFees, bind_assoc, pure_bind]

theorem run_swap : (swap env amountA amountB dst).run w =
    (do
      let (w', _) ← CoralSwap.swap env w amountA amountB dst
      pure ((), w')) := by
  simp only [swap, CoralSwap.swap, run_withGuard, run_bind, run_read, run_lift, run_swapInner,
    bind_assoc, pure_bind]

@[simp]
theorem run_swapIntoPair {tokenInIsA : Bool} {swapOut : ℤ} :
    (swapIntoPair env tokenInIsA swapOut).run w =
    (do
      let (w', _) ← CoralSwap.swapIntoPair env w tokenInIsA swapOut
      pure ((), w')) := by
  cases tokenInIsA <;> exact run_swapInner

theorem run_mintWithOneToken {tokenIn : Address} {minLpOut : ℤ} :
    (mintWithOneToken env dst tokenIn amount minLpOut).run w =
    (do
      let (w', _) ← CoralSwap.mintWithOneToken env w dst tokenIn amount minLpOut
      pure ((), w')) := by
  simp only [mintWithOneToken, CoralSwap.mintWithOneToken, run_withGuard, run_bind, run_read, run_lift,
    run_write, run_transferSide, run_swapIntoPair, World.setPairState, bind_assoc, pure_bind]

omit [DecidableEq Address] in
theorem run_sync : (sync env).run w =
    (do
      let w' ← CoralSwap.sync env w
      pure ((), w')) := by
  simp only [sync, CoralSwap.sync, run_withGuard, run_bind, run_read, run_lift, run_write, bind_assoc,
    pure_bind]

@[simp]
theorem run_onFlashLoan {callback : Callback Address} : (onFlashLoan contract callback).run w =
    (do
      failIf (callback.succeeds = false) .flashCallbackFailed
      pure ((), (externalMachine contract).run w callback.actions)) := by
  simp only [onFlashLoan, run_bind, run_read, run_lift, run_write, run_handOver, pure_bind,
    Bool.true_eq_false, or_false]

theorem lend_eq_payOut {t : Token Address} :
    lend t contract receiver amount = payOut t contract receiver amount := rfl

theorem run_flashLoan {dataLen : ℕ} {callback : Callback Address} :
    (flashLoan contract receiver amountA amountB dataLen callback).run w =
    (do
      let w' ← CoralSwap.flashLoan env w receiver amountA amountB dataLen callback
      pure ((), w')) := by
  simp only [flashLoan, executeFlashLoan, CoralSwap.flashLoan, CoralSwap.executeFlashLoan, run_bind,
    run_read, run_lift, bind_assoc, pure_bind]
  refine bind_congr fun _ => bind_congr fun _ => bind_congr fun _ => bind_congr fun state => ?_
  by_cases hempty : amountA = 0 ∧ amountB = 0
  · rw [if_pos hempty, if_pos hempty]
    rfl
  · rw [if_neg hempty, if_neg hempty]
    simp only [run_withGuard, run_bind, run_read, run_lift, run_write, run_payA, run_payB,
      run_onFlashLoan, lend_eq_payOut, bind_assoc, pure_bind]

/-- **Agreement.** Without calls back, the code of an entry point is the entry point of the pair
machine. -/
theorem run_code (entry : Entry Address) : (entry.code env).run w =
    (do
      let w' ← exec w (env, entry.toOp)
      pure ((), w')) := by
  cases entry with
  | mint dst =>
      rw [Entry.code, run_mint, Entry.toOp, exec, bind_assoc]
      rfl
  | mintWithOneToken dst tokenIn amount minLpOut =>
      rw [Entry.code, run_mintWithOneToken, Entry.toOp, exec, bind_assoc]
      rfl
  | depositLp src amount => exact run_depositLp
  | burn dst =>
      rw [Entry.code, run_burn, Entry.toOp, exec, bind_assoc]
      rfl
  | burnSingleSide dst lpAmount preferredToken minAmountOut =>
      rw [Entry.code, run_burnSingleSide, Entry.toOp, exec, bind_assoc]
      rfl
  | swap amountAOut amountBOut dst =>
      rw [Entry.code, run_swap, Entry.toOp, exec, bind_assoc]
      rfl
  | flashLoan receiver amountA amountB dataLen callback => exact run_flashLoan
  | sync => exact run_sync

end CoralSwap.Reentrant
