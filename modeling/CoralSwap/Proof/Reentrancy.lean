import CoralSwap.Proof.PairEffects
import CoralSwap.Proof.ReentrantRuns

/-!
# No call back gets in

Every entry point a user can call touches its storage under the guard only, and every hand-over happens
while the lock is held. A call back then meets the lock before it has written or called anything, at
whatever depth, and the guard of the outermost call releases the lock on its way out.
-/

namespace CoralSwap.Reentrant

open Host Host.Call Host.Program

variable {Address : Type} [DecidableEq Address] {contract : Address} {env : Env contract}
variable {w : World Address} {src dst receiver : Address} {amount amountA amountB : ℤ}

def Held (w : World Address) : Prop := w.pair.locked = true

/-! ### Under the guard -/

omit [DecidableEq Address] in
theorem keeps_callToken : (callToken : Code Address Unit).Keeps Held :=
  keeps_handOver.bind fun _ => keeps_lift _

theorem keeps_transferA : (transferA src dst amount).Keeps Held :=
  .read_bind fun _ hheld => .lift_bind fun _ => .write_bind hheld keeps_callToken

theorem keeps_transferB : (transferB src dst amount).Keeps Held :=
  .read_bind fun _ hheld => .lift_bind fun _ => .write_bind hheld keeps_callToken

theorem keeps_transferSide {isA : Bool} : (transferSide isA src dst amount).Keeps Held :=
  .ite keeps_transferA keeps_transferB

theorem keeps_payA : (payA src dst amount).Keeps Held := .ite keeps_transferA (keeps_pure ())

theorem keeps_payB : (payB src dst amount).Keeps Held := .ite keeps_transferB (keeps_pure ())

theorem keeps_collectProtocolFees {feeA feeB : ℤ} :
    (collectProtocolFees env feeA feeB).Keeps Held := by
  unfold collectProtocolFees
  cases env.protocolFeeTo with
  | none => exact keeps_pure ()
  | some feeTo => exact keeps_payA.bind fun _ => keeps_payB

theorem keeps_swapInner : (swapInner env amountA amountB dst).Keeps Held := by
  refine .lift_bind fun _ => .read_bind fun _ _ => ?_
  iterate 7 refine .lift_bind fun _ => ?_
  refine keeps_payA.bind fun _ => keeps_payB.bind fun _ => .read_bind fun _ _ => ?_
  iterate 9 refine .lift_bind fun _ => ?_
  refine keeps_collectProtocolFees.bind fun _ => ?_
  iterate 4 refine .lift_bind fun _ => ?_
  exact .read_bind fun _ hheld => keeps_write hheld

theorem keeps_swapIntoPair {tokenInIsA : Bool} {swapOut : ℤ} :
    (swapIntoPair env tokenInIsA swapOut).Keeps Held :=
  .ite keeps_swapInner keeps_swapInner

theorem held_of_clearPending {cleared : World Address} (hheld : Held w)
    (hclear : clearPending w dst = .ok cleared) : Held cleared := by
  obtain rfl := clearPending_ok hclear
  exact hheld

theorem held_of_outside (hheld : Held w) (actions : List (External Address)) :
    Held ((externalMachine contract).run w actions) := by
  unfold Held
  rw [(outsideFrame_of_run contract w actions).pair]
  exact hheld

theorem keeps_onFlashLoan {callback : Callback Address} :
    (onFlashLoan contract callback).Keeps Held := by
  refine .read_bind fun _ hheld => .write_bind (held_of_outside hheld callback.actions) ?_
  exact keeps_handOver.bind fun _ => keeps_lift _

/-! ### The entry points -/

/-- The program writes and calls out under the guard only; without it, it returns just where `idle`
holds. -/
inductive Guarded (idle : Prop) : Code Address Unit → Prop where
  | idle (hidle : idle) : Guarded idle (pure ())
  | withGuard {body : Code Address Unit} (hbody : body.Keeps Held) : Guarded idle (withGuard body)
  | lift_bind {α : Type} {call : Call PairError α} {f : α → Code Address Unit}
      (hf : ∀ a, Guarded idle (f a)) : Guarded idle (lift call >>= f)
  | read_bind {f : World Address → Code Address Unit} (hf : ∀ w, Guarded idle (f w)) :
      Guarded idle (read >>= f)

omit [DecidableEq Address] in
theorem Guarded.mono {idle idle' : Prop} {p : Code Address Unit} (hguarded : Guarded idle p)
    (himp : idle → idle') : Guarded idle' p := by
  induction hguarded with
  | idle hidle => exact .idle (himp hidle)
  | withGuard hbody => exact .withGuard hbody
  | lift_bind _ ih => exact .lift_bind ih
  | read_bind _ ih => exact .read_bind ih

section Entries

variable {idle : Prop}

theorem guarded_mint : Guarded idle (mint env dst) := by
  refine .lift_bind fun _ => .withGuard (.read_bind fun _ hheld => ?_)
  iterate 6 refine .lift_bind fun _ => ?_
  refine .lift_bind fun minted => ?_
  obtain ⟨liquidity, seeded⟩ := minted
  refine .write_bind hheld (.lift_bind fun _ => .lift_bind fun _ => .read_bind fun _ hheld => ?_)
  refine .lift_bind fun _ => .write_bind hheld (.lift_bind fun _ => .read_bind fun _ hheld => ?_)
  exact keeps_write hheld

theorem guarded_depositLp : Guarded idle (depositLp env src amount) := by
  refine .lift_bind fun _ => .withGuard (.read_bind fun _ hheld => ?_)
  iterate 4 refine .lift_bind fun _ => ?_
  refine .write_bind hheld (keeps_callToken.bind fun _ => .read_bind fun _ hheld => ?_)
  exact .lift_bind fun _ => .lift_bind fun _ => keeps_write hheld

theorem guarded_burn : Guarded idle (burn env dst) := by
  refine .lift_bind fun _ => .withGuard (.read_bind fun _ hheld => ?_)
  iterate 7 refine .lift_bind fun _ => ?_
  refine .lift_bind fun amounts => ?_
  obtain ⟨amountA, amountB⟩ := amounts
  iterate 6 refine .lift_bind fun _ => ?_
  refine .lift_bind_of_ok fun cleared hclear => ?_
  have hcleared := held_of_clearPending hheld hclear
  refine .write_bind hcleared ?_
  refine keeps_transferA.bind fun _ => keeps_transferB.bind fun _ => .lift_bind fun _ => ?_
  exact .read_bind fun _ hheld => keeps_write hheld

theorem guarded_burnSingleSide {lpAmount minAmountOut : ℤ} {preferredToken : Address} :
    Guarded idle (burnSingleSide env dst lpAmount preferredToken minAmountOut) := by
  refine .lift_bind fun _ => .withGuard (.read_bind fun _ hheld => ?_)
  iterate 8 refine .lift_bind fun _ => ?_
  refine .write_bind hheld ?_
  iterate 19 refine .lift_bind fun _ => ?_
  refine keeps_transferSide.bind fun _ => .lift_bind fun _ => ?_
  exact .read_bind fun _ hheld => keeps_write hheld

theorem guarded_swap : Guarded idle (swap env amountA amountB dst) :=
  .withGuard (.read_bind fun _ _ => .lift_bind fun _ => keeps_swapInner)

theorem guarded_mintWithOneToken {tokenIn : Address} {minLpOut : ℤ} :
    Guarded idle (mintWithOneToken env dst tokenIn amount minLpOut) := by
  refine .lift_bind fun _ => .withGuard (.read_bind fun _ _ => ?_)
  iterate 10 refine .lift_bind fun _ => ?_
  refine keeps_transferSide.bind fun _ => ?_
  iterate 4 refine .lift_bind fun _ => ?_
  refine keeps_swapIntoPair.bind fun _ => .read_bind fun _ hheld => ?_
  iterate 7 refine .lift_bind fun _ => ?_
  refine .write_bind hheld ?_
  iterate 3 refine .lift_bind fun _ => ?_
  exact .read_bind fun _ hheld => keeps_write hheld

/-- The lock is taken after the checks, and not at all for an empty loan. -/
theorem guarded_flashLoan {dataLen : ℕ} {callback : Callback Address} :
    Guarded (amountA = 0 ∧ amountB = 0)
      (flashLoan contract receiver amountA amountB dataLen callback) := by
  refine .read_bind fun _ => .lift_bind fun _ => .lift_bind fun _ => .lift_bind fun _ => ?_
  refine .read_bind fun _ => .lift_bind fun _ => ?_
  by_cases hempty : amountA = 0 ∧ amountB = 0
  · rw [if_pos hempty]
    exact .idle hempty
  · rw [if_neg hempty]
    refine .lift_bind fun _ => .lift_bind fun _ => .withGuard (.read_bind fun _ _ => ?_)
    refine .lift_bind fun _ => .lift_bind fun _ => keeps_payA.bind fun _ => keeps_payB.bind fun _ => ?_
    refine keeps_onFlashLoan.bind fun _ => .read_bind fun _ hheld => ?_
    iterate 4 refine .lift_bind fun _ => ?_
    exact keeps_write hheld

omit [DecidableEq Address] in
theorem guarded_sync : Guarded idle (sync env) := by
  refine .withGuard (.read_bind fun _ hheld => ?_)
  exact .lift_bind fun _ => .lift_bind fun _ => keeps_write hheld

end Entries

/-- A flash loan of nothing. -/
def Idles (call : Env contract × Entry Address) : Prop :=
  ∃ receiver dataLen callback, call.2 = .flashLoan receiver 0 0 dataLen callback

theorem guarded_code (env : Env contract) (entry : Entry Address) :
    Guarded (Idles (env, entry)) (entry.code env) := by
  cases entry with
  | mint dst => exact guarded_mint
  | mintWithOneToken dst tokenIn amount minLpOut => exact guarded_mintWithOneToken
  | depositLp src amount => exact guarded_depositLp
  | burn dst => exact guarded_burn
  | burnSingleSide dst lpAmount preferredToken minAmountOut => exact guarded_burnSingleSide
  | swap amountAOut amountBOut dst => exact guarded_swap
  | flashLoan receiver amountA amountB dataLen callback =>
      refine guarded_flashLoan.mono ?_
      rintro ⟨rfl, rfl⟩
      exact ⟨receiver, dataLen, callback, rfl⟩
  | sync => exact guarded_sync

/-! ### Calls back -/

section Calls

variable {idle : Prop} {p : Code Address Unit}

omit [DecidableEq Address] in
theorem endsAtOnce_of_guarded (hguarded : Guarded idle p) (hheld : Held w) :
    ∃ result, p.EndsAtOnce w result ∧ (result = .ok () → idle) := by
  induction hguarded with
  | idle hidle => exact ⟨.ok (), fun _ _ => rfl, fun _ => hidle⟩
  | withGuard hbody =>
      have hlocked : w.acquireLock = .error (.error .locked) := by
        unfold Held at hheld
        simp only [World.acquireLock, failIf, hheld, if_true]
        rfl
      refine ⟨.error (.error .locked), .read_bind ?_, fun hok => by cases hok⟩
      rw [hlocked]
      exact endsAtOnce_stop _
  | @lift_bind α call f hf ih =>
      cases call with
      | ok a => exact ih a
      | error fault => exact ⟨.error fault, endsAtOnce_stop _, fun hok => by cases hok⟩
  | read_bind hf ih => exact ih w

theorem bars_pairContract : Bars (pairContract contract) Held Idles where
  enter := by
    rintro ⟨env, entry⟩ w hheld
    exact endsAtOnce_of_guarded (guarded_code _ entry) hheld
  outside := by
    intro w action w' hheld hexec
    unfold Held
    rw [(outsideFrame_of_external (external_ok hexec)).pair]
    exact hheld

omit [DecidableEq Address] in
/-- Entering under a free lock: the body runs with the lock held, and the guard drops behind it. -/
theorem play_withGuard {η : Type} (body : Code Address Unit) (hfree : w.pair.locked = false)
    (callees : List (Callee (World Address) η)) :
    let frame := body.play callees { w with pair := { w.pair with locked := true } }
    ((withGuard body).play callees w).result = frame.result ∧
      ((withGuard body).play callees w).log = frame.log ∧
      (frame.result ≠ .error .trap →
        ((withGuard body).play callees w).exit = frame.exit.releaseLock) := by
  have hacquire : w.acquireLock = .ok { w with pair := { w.pair with locked := true } } :=
    World.acquireLock_eq_ok.mpr ⟨hfree, rfl⟩
  have hentered : (withGuard body).play callees w =
      (body.onExit World.releaseLock).play callees
        { w with pair := { w.pair with locked := true } } := by
    show Program.play (lift w.acquireLock >>= _) _ _ = _
    rw [hacquire]
    rfl
  rw [hentered]
  exact play_onExit World.releaseLock callees _

abbrev Callees {Address : Type} (contract : Address) :=
  List (List (Action (Env contract × Entry Address) (External Address)) × Bool)

theorem frame_of_guarded (hguarded : Guarded idle p) (hfree : w.pair.locked = false)
    (callees : Callees contract) :
    (∀ event ∈ (p.play ((pairContract contract).calleesOf callees) w).log, Barred Held Idles event) ∧
      ((p.play ((pairContract contract).calleesOf callees) w).result ≠ .error .trap →
        (p.play ((pairContract contract).calleesOf callees) w).exit.pair.locked = false) := by
  induction hguarded with
  | idle hidle => exact ⟨fun _ hevent => absurd hevent List.not_mem_nil, fun _ => hfree⟩
  | @withGuard body hbody =>
      have hheld : Held { w with pair := { w.pair with locked := true } } := rfl
      have hbarred := bars_pairContract.play hbody hheld callees
      obtain ⟨hresult, hlog, hexit⟩ :=
        play_withGuard body hfree ((pairContract contract).calleesOf callees)
      rw [hresult, hlog]
      refine ⟨hbarred.2, fun hreturned => ?_⟩
      rw [hexit hreturned]
      rfl
  | @lift_bind α call f hf ih =>
      cases call with
      | ok a => exact ih a
      | error fault => exact ⟨fun _ hevent => absurd hevent List.not_mem_nil, fun _ => hfree⟩
  | read_bind hf ih => exact ih w

theorem play_of_callsBack (hguarded : Guarded idle p) (hfree : w.pair.locked = false)
    {callees : Callees contract} (hcallees : ∀ callee ∈ callees, CallsBack callee) :
    (p.play ((pairContract contract).calleesOf callees) w).result.map
      (fun a => (a, (p.play ((pairContract contract).calleesOf callees) w).exit)) = p.run w := by
  induction hguarded with
  | idle hidle => rfl
  | @withGuard body hbody =>
      have hheld : Held { w with pair := { w.pair with locked := true } } := rfl
      have hbody := bars_pairContract.play_of_callsBack hbody hheld hcallees
      have hacquire : w.acquireLock = .ok { w with pair := { w.pair with locked := true } } :=
        World.acquireLock_eq_ok.mpr ⟨hfree, rfl⟩
      obtain ⟨hresult, -, hexit⟩ :=
        play_withGuard body hfree ((pairContract contract).calleesOf callees)
      rw [run_withGuard, hacquire, hresult]
      show _ = (body.run _ >>= _)
      rw [← hbody]
      cases hreturned : (body.play ((pairContract contract).calleesOf callees)
        { w with pair := { w.pair with locked := true } }).result with
      | ok a =>
          rw [hreturned] at hexit
          have hreleased := hexit fun htrap => by cases htrap
          simp only [Except.map, hreleased]
          rfl
      | error fault => rfl
  | @lift_bind α call f hf ih =>
      cases call with
      | ok a => exact ih a
      | error fault => rfl
  | read_bind hf ih => exact ih w

end Calls

/-- **Exclusion of re-entry.** -/
theorem no_call_back_succeeds (hfree : w.pair.locked = false) (env : Env contract)
    (entry : Entry Address) (callees : Callees contract) :
    let frame := (entry.code env).play ((pairContract contract).calleesOf callees) w
    (∀ event ∈ frame.log,
        (event.result = .ok () →
          ∃ receiver dataLen callback, event.call.2 = .flashLoan receiver 0 0 dataLen callback) ∧
        event.exit = event.before ∧ event.before.pair.locked = true) ∧
      (frame.result ≠ .error .trap → frame.exit.pair.locked = false) ∧
      (frame.settle w).pair.locked = false := by
  intro frame
  obtain ⟨hbarred, hexit⟩ := frame_of_guarded (guarded_code env entry) hfree callees
  refine ⟨fun event hevent => ?_, hexit, ?_⟩
  · have hevent := hbarred event hevent
    exact ⟨hevent.result, hevent.exit, hevent.before⟩
  · unfold Frame.settle
    cases hresult : frame.result with
    | ok u =>
        refine hexit ?_
        intro htrap
        cases hresult.symm.trans htrap
    | error fault => exact hfree

/-- A pool that has been sent the input of a swap. -/
def paidPool : World ℕ :=
  (pairMachine 0).run (openedPool (Env.quiet 0 1 1 none) 1000000 1000000)
    [(Env.quiet 0 1 1 none, .external (.transferA 1 0 10000))]

/-- The token a swap pays out calls the pair back three times, once with a call back of its own. -/
def callingBack : Callees 0 :=
  [([.enter (Env.quiet 0 1 1 none, .sync) [],
    .enter (Env.quiet 0 1 1 none, .flashLoan 7 0 0 0 ⟨[], true⟩) [],
    .enter (Env.quiet 0 1 1 none, .swap 0 9000 7)
      [([.enter (Env.quiet 0 1 1 none, .sync) []], true)]], true)]

theorem no_call_back_succeeds_in_swap :
    let frame := ((Entry.swap 0 9000 1).code (Env.quiet 0 1 1 none)).play
      ((pairContract 0).calleesOf callingBack) paidPool
    (frame.result.isOk = true ∧
        frame.log.map (fun event => event.result.isOk) = [false, true, false]) ∧
      (∀ event ∈ frame.log,
        (event.result = .ok () →
          ∃ receiver dataLen callback, event.call.2 = .flashLoan receiver 0 0 dataLen callback) ∧
        event.exit = event.before ∧ event.before.pair.locked = true) ∧
      (frame.result ≠ .error .trap → frame.exit.pair.locked = false) ∧
      (frame.settle paidPool).pair.locked = false :=
  ⟨by decide +kernel, no_call_back_succeeds (w := paidPool) (by decide +kernel) _ _ callingBack⟩

/-- **Faithfulness.** A call whose callees only call back does what it does in the pair machine, where
there are no calls back. -/
theorem settle_of_callsBack (hfree : w.pair.locked = false) (env : Env contract)
    (entry : Entry Address) {callees : Callees contract}
    (hcallees : ∀ callee ∈ callees, CallsBack callee) :
    ((entry.code env).play ((pairContract contract).calleesOf callees) w).settle w =
      (pairMachine contract).step w (env, entry.toOp) := by
  have hplay := play_of_callsBack (guarded_code env entry) hfree hcallees
  rw [run_code] at hplay
  unfold Frame.settle
  cases hresult : ((entry.code env).play ((pairContract contract).calleesOf callees) w).result with
  | ok u =>
      rw [hresult] at hplay
      obtain ⟨w', hexec, hdone⟩ := bind_eq_ok.mp hplay.symm
      cases hdone
      exact (Machine.step_of_exec_ok (m := pairMachine contract) hexec).symm
  | error fault =>
      rw [hresult] at hplay
      cases hexec : (pairMachine contract).exec w (env, entry.toOp) with
      | ok w' =>
          rw [show exec w (env, entry.toOp) = .ok w' from hexec] at hplay
          cases hplay
      | error fault' =>
          rw [Machine.step, hexec]
          rfl

end CoralSwap.Reentrant
