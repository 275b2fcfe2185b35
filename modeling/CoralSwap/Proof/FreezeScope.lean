import CoralSwap.Proof.Freezing

/-!
# A freeze stops trades and nothing else

The calls that a freeze does not stop read neither the flag nor what the factory configures. So a frozen pool goes
through the states of a pool that was never frozen and in which only these calls were made.
-/

namespace CoralSwap

open Host Host.Call

variable {Address : Type} [DecidableEq Address] {contract : Address}
variable {env : Env contract} {w w' : World Address}

/-- The calls a freeze leaves open, and what third parties do. -/
def Op.isExit : Op Address → Bool
  | .depositLp _ _ => true
  | .burn _ => true
  | .sync => true
  | .setLpTokenPaused _ => true
  | .external _ => true
  | _ => false

namespace World

/-- What those who leave can see of a pair: its reserves, its shares and who has staged them, and the tokens. -/
def exitView (w : World Address) : World Address :=
  { w with pair := { w.pair with feeState := none, frozen := false, protocolFeeA := 0, protocolFeeB := 0 } }

omit [DecidableEq Address] in
@[simp]
theorem exitView_getPairState (w : World Address) : w.exitView.getPairState = w.getPairState := rfl

omit [DecidableEq Address] in
@[simp]
theorem exitView_ensureLpTokenNotPaused (w : World Address) :
    w.exitView.ensureLpTokenNotPaused = w.ensureLpTokenNotPaused := rfl

omit [DecidableEq Address] in
@[simp]
theorem exitView_acquireLock (w : World Address) : w.exitView.acquireLock = exitView <$> w.acquireLock := by
  rw [acquireLock, acquireLock, map_bind]
  rfl

end World

/-- The same call, with a factory that answers otherwise. -/
def Env.answering (env : Env contract) (answers : FactoryAnswers Address) : Env contract :=
  { env with factory := answers }

open World

variable (answers : FactoryAnswers Address)

theorem depositLp_exitView (src : Address) (amount : ℤ) :
    depositLp (env.answering answers) w.exitView src amount = exitView <$> depositLp env w src amount := by
  simp only [depositLp, exitView_acquireLock, map_bind, bind_map_left, map_pure]
  rfl

theorem clearPending_exitView (w : World Address) (dst : Address) :
    clearPending w.exitView dst = exitView <$> clearPending w dst := by
  have hview : w.exitView.pair.pendingLp dst = w.pair.pendingLp dst := rfl
  simp only [clearPending, hview]
  split
  · rw [map_bind]
    rfl
  · rfl

theorem burn_exitView (dst : Address) :
    burn (env.answering answers) w.exitView dst =
      (fun result => (result.1.exitView, result.2)) <$> burn env w dst := by
  simp only [burn, exitView_acquireLock, exitView_getPairState, exitView_ensureLpTokenNotPaused, clearPending_exitView,
    map_bind, bind_map_left, map_pure]
  rfl

theorem setLpTokenPaused_exitView (paused : Bool) :
    setLpTokenPaused (env.answering answers) w.exitView paused = exitView <$> setLpTokenPaused env w paused := by
  simp only [setLpTokenPaused, exitView_getPairState, map_bind]
  congr 1
  funext state
  congr 1
  funext _
  have hlp : w.exitView.lp = w.lp := rfl
  have henv : (env.answering answers).lpEnv = env.lpEnv := rfl
  rw [hlp, henv]
  rcases hset : w.lp.setPaused env.lpEnv paused with ⟨code | _⟩ | lp <;> rfl

theorem external_exitView (action : External Address) :
    action.exec contract w.exitView = exitView <$> action.exec contract w := by
  cases action with
  | transferA src dst amount =>
      simp only [External.exec, map_bind, map_pure]
      rfl
  | transferB src dst amount =>
      simp only [External.exec, map_bind, map_pure]
      rfl
  | lpCall env op =>
      simp only [External.exec, map_bind, map_pure]
      rfl

omit [DecidableEq Address] in
theorem sync_exitView : sync (env.answering answers) w.exitView = exitView <$> sync env w := by
  simp only [sync, exitView_acquireLock, map_bind, bind_map_left, map_pure]
  rfl

/-- **Step.** An exit is the same call of what those who leave see. -/
theorem exec_exitView {op : Op Address} (hop : op.isExit = true) :
    exec w.exitView (env.answering answers, op) = exitView <$> exec w (env, op) := by
  cases op with
  | depositLp src amount => exact depositLp_exitView answers src amount
  | burn dst =>
      simp only [exec, burn_exitView, map_bind, bind_map_left, map_pure]
  | sync => exact sync_exitView answers
  | setLpTokenPaused paused => exact setLpTokenPaused_exitView answers paused
  | external action => exact external_exitView action
  | _ => cases hop

/-! ### A frozen pool -/

/-- A pair that has been opened and is frozen. -/
structure Frozen (w : World Address) : Prop where
  opened : w.pair.pairState.isSome = true
  frozen : w.pair.frozen = true

theorem frozen_of_exec_frozen {op : Op Address} (hfrozen : Frozen w) (hop : op ≠ .setFrozen false)
    (hexec : exec w (env, op) = .ok w') : Frozen w' := by
  obtain ⟨state, hstate⟩ := Option.isSome_iff_exists.mp hfrozen.opened
  obtain ⟨state', hstate', -⟩ := identity_of_exec hstate hexec
  refine ⟨by rw [hstate']; rfl, ?_⟩
  by_cases hset : ∃ frozen, op = .setFrozen frozen
  · obtain ⟨frozen, rfl⟩ := hset
    cases frozen with
    | false => exact absurd rfl hop
    | true =>
        simp only [exec, setFrozen, bind_eq_ok, pure_eq_ok] at hexec
        obtain ⟨_, -, _, -, rfl⟩ := hexec
        rfl
  · rw [frozen_of_exec (fun frozen heq => hset ⟨frozen, heq⟩) hexec]
    exact hfrozen.frozen

/-- **Step.** Nobody who leaves sees the other calls of a frozen pool. -/
theorem exitView_of_exec {op : Op Address} (hfrozen : Frozen w) (hop : op.isExit = false)
    (hexec : exec w (env, op) = .ok w') : w'.exitView = w.exitView := by
  have hguarded : ¬op.NeedsUnfrozen := by
    intro hneeds
    have hunfrozen := unfrozen_of_exec hneeds hexec
    rw [hfrozen.frozen] at hunfrozen
    cases hunfrozen
  cases op with
  | initializePair factory tokenA tokenB lpToken =>
      simp only [exec, initializePair, bind_eq_ok, failIf_eq_ok] at hexec
      obtain ⟨_, hnew, -⟩ := hexec
      exact absurd hfrozen.opened hnew
  | setStaleThreshold newThreshold =>
      simp only [exec, setStaleThreshold, bind_eq_ok, pure_eq_ok] at hexec
      obtain ⟨_, -, _, -, _, -, _, -, rfl⟩ := hexec
      rfl
  | setFrozen frozen =>
      simp only [exec, setFrozen, bind_eq_ok, pure_eq_ok] at hexec
      obtain ⟨_, -, _, -, rfl⟩ := hexec
      rfl
  | mint | mintWithOneToken | burnSingleSide | swap | flashLoan => exact absurd trivial hguarded
  | depositLp | burn | sync | setLpTokenPaused | external => cases hop

/-- The exits of a run, each with a factory that answers as it likes. -/
def exits (answers : PairCall contract → FactoryAnswers Address) (calls : List (PairCall contract)) :
    List (PairCall contract) :=
  (calls.filter (·.2.isExit)).map fun call => (call.1.answering (answers call), call.2)

/-- What an exit comes to where the factory answers nothing. -/
def asExit (call : PairCall contract) : Option (PairCall contract) :=
  if call.2.isExit then some (call.1.answering ⟨none, none, none, fun _ => none, fun _ => none⟩, call.2) else none

omit [DecidableEq Address] in
theorem filterMap_asExit_exits (answers : PairCall contract → FactoryAnswers Address)
    (calls : List (PairCall contract)) : (exits answers calls).filterMap asExit = calls.filterMap asExit := by
  induction calls with
  | nil => rfl
  | cons call rest ih =>
      rw [exits] at ih ⊢
      by_cases hexit : call.2.isExit = true
      · rw [List.filter_cons, if_pos hexit, List.map_cons, List.filterMap_cons, List.filterMap_cons, ih]
        simp only [asExit, hexit, if_true]
        rfl
      · rw [List.filter_cons, if_neg hexit, List.filterMap_cons, ih, asExit, if_neg hexit]

theorem step_asExit {call exit : PairCall contract} (hexit : asExit call = some exit) :
    ((pairMachine contract).step w call).exitView = (pairMachine contract).step w.exitView exit := by
  rw [asExit, Option.ite_none_right_eq_some] at hexit
  obtain ⟨hop, hexit⟩ := hexit
  obtain rfl := Option.some.inj hexit
  rw [Machine.step, Machine.step]
  change (commit (exec w call) w).exitView = commit (exec w.exitView _) w.exitView
  rw [exec_exitView _ hop]
  cases exec w call with
  | ok w' => rfl
  | error fault => rfl

/-- **A freeze stops trades and nothing else.** Take away from a run of a frozen pool all but the exits, and let
the pool be unfrozen and the factory answer otherwise: those who leave see the same, and the next of them gets the
same answer. -/
theorem freeze_stops_only_trades (hfrozen : Frozen w) (hview : w'.exitView = w.exitView)
    {calls : List (PairCall contract)} (hstays : ∀ call ∈ calls, call.2 ≠ .setFrozen false)
    (answers : PairCall contract → FactoryAnswers Address) :
    let frozen := (pairMachine contract).run w calls
    let unfrozen := (pairMachine contract).run w' (exits answers calls)
    unfrozen.exitView = frozen.exitView ∧
      ∀ (call : PairCall contract) answer, call.2.isExit = true →
        exitView <$> exec unfrozen (call.1.answering answer, call.2) = exitView <$> exec frozen call := by
  intro frozen unfrozen
  have hfrozenRun : frozen.exitView = (pairMachine contract).run w.exitView (calls.filterMap asExit) := by
    refine Machine.run_project_of_invariant (I := Frozen) (P := fun call => call.2 ≠ .setFrozen false)
      (fun _ _ _ hinv hcall hexec => frozen_of_exec_frozen hinv hcall hexec)
      (fun _ _ _ hexit => step_asExit hexit) (fun _ call _ hinv _ hhidden hexec => ?_) hfrozen hstays
    refine exitView_of_exec hinv ?_ hexec
    cases hop : call.2.isExit with
    | false => rfl
    | true => simp [asExit, hop] at hhidden
  have hunfrozenRun : unfrozen.exitView =
      (pairMachine contract).run w'.exitView ((exits answers calls).filterMap asExit) := by
    refine Machine.run_project_of_invariant (I := fun _ => True) (P := fun call => call.2.isExit = true)
      (fun _ _ _ _ _ _ => trivial) (fun _ _ _ hexit => step_asExit hexit)
      (fun _ call _ _ hop hhidden _ => ?_) trivial fun call hcall => ?_
    · simp [asExit, hop] at hhidden
    · rw [exits, List.mem_map] at hcall
      obtain ⟨made, hmade, rfl⟩ := hcall
      exact (List.mem_filter.mp hmade).2
  have hsame : unfrozen.exitView = frozen.exitView := by
    rw [hunfrozenRun, filterMap_asExit_exits, hview, hfrozenRun]
  refine ⟨hsame, fun call answer hop => ?_⟩
  calc exitView <$> exec unfrozen (call.1.answering answer, call.2)
      = exec unfrozen.exitView ((call.1.answering answer).answering answer, call.2) :=
        (exec_exitView answer hop).symm
    _ = exec frozen.exitView (call.1.answering answer, call.2) := by rw [hsame]; rfl
    _ = exitView <$> exec frozen call := exec_exitView answer hop

/-- A holder stages and burns shares of a frozen pool, after a swap that is refused. -/
def frozenExit : List (PairCall 0) :=
  let env : Env 0 := Env.quiet 0 1 1 none
  [(env, .swap 0 900 1), (env, .depositLp 1 5000), (env, .setStaleThreshold 50), (env, .burn 1)]

def frozenPool : World ℕ :=
  let w := openedPool (Env.quiet 0 1 1 none) 20000 20000
  { w with pair := { w.pair with frozen := true } }

theorem freeze_stops_only_trades_staged :
    let answers : PairCall 0 → FactoryAnswers ℕ := fun call => call.1.factory
    let unfrozen := (pairMachine 0).run (openedPool (Env.quiet 0 1 1 none) 20000 20000) (exits answers frozenExit)
    ((pairMachine 0).run frozenPool frozenExit).lp.balance 1 = 14000 ∧
      unfrozen.exitView = ((pairMachine 0).run frozenPool frozenExit).exitView := by
  have hfrozen : Frozen frozenPool := ⟨by decide +kernel, rfl⟩
  have hview : (openedPool (Env.quiet 0 1 1 none) 20000 20000).exitView = frozenPool.exitView := rfl
  have hstays : ∀ call ∈ frozenExit, call.2 ≠ .setFrozen false := by simp [frozenExit]
  have hexits := freeze_stops_only_trades hfrozen hview hstays fun call => call.1.factory
  exact ⟨by decide +kernel, hexits.1⟩

end CoralSwap
