import CoralSwap.Proof.FeeBounds
import CoralSwap.Proof.SwapRequests

/-!
# Cooling down

An idle pool divides its accumulator by two for every decay period. The periods are counted from the
mark of the last update, which is a ledger timestamp, to the sequence of the swap: where the timestamp
is ahead of the sequence some periods are not counted, or none is.
-/

namespace CoralSwap

open Host Host.Call

namespace FeeState

variable {fs fs' : FeeState}

/-- The decay periods between a mark and a ledger: none until the mark is stale. -/
def decayPeriods (fs : FeeState) (mark ledger : ℕ) : ℕ :=
  if mark + fs.staleThreshold < ledger then
    min ((ledger - mark) / fs.decayThresholdBlocks) maxDecayPeriods
  else 0

theorem decayPeriods_of_stale (sequence : ℕ) {n : ℕ} (hstale : fs.staleThreshold < n) :
    fs.decayPeriods sequence (sequence + n) = min (n / fs.decayThresholdBlocks) maxDecayPeriods := by
  rw [decayPeriods, if_pos (by omega), Nat.add_sub_cancel_left]

/-- Stopping at zero is no shortcut: the loop divides by the power. -/
theorem decayLoop_eq_div {divisor : ℤ} (hdivisor : 0 < divisor) (periods : ℕ) {vol : ℤ}
    (hvol : 0 ≤ vol) : decayLoop divisor periods vol = vol / divisor ^ periods := by
  induction periods generalizing vol with
  | zero => rw [decayLoop, pow_zero, Int.ediv_one]
  | succ periods ih =>
      have hnext : 0 ≤ vol / divisor := Int.ediv_nonneg hvol hdivisor.le
      have hpow : vol / divisor ^ (periods + 1) = vol / divisor / divisor ^ periods := by
        rw [pow_succ', Int.ediv_ediv_of_nonneg hdivisor.le]
      rw [decayLoop, Int.tdiv_eq_ediv_of_nonneg hvol, hpow]
      by_cases hspent : vol / divisor ≤ 0
      · have hzero : vol / divisor = 0 := le_antisymm hspent hnext
        rw [if_pos hspent, hzero, Int.zero_ediv]
      · rw [if_neg hspent, ih hnext]

/-- Two floors are in the wrong order exactly when a power is missing and something is left. -/
theorem div_pow_le_div_pow_iff {vol : ℤ} (hvol : 0 ≤ vol) (m k : ℕ) :
    vol / 2 ^ m ≤ vol / 2 ^ k ↔ k ≤ m ∨ vol < 2 ^ m := by
  have hm : (0 : ℤ) < 2 ^ m := by positivity
  have hleft : 0 ≤ vol / 2 ^ m := Int.ediv_nonneg hvol hm.le
  rw [Int.le_ediv_iff_mul_le (by positivity)]
  constructor
  · intro hle
    by_contra hcon
    obtain ⟨hmk, hpow⟩ := not_or.mp hcon
    have hone : 1 ≤ vol / 2 ^ m := by
      rw [Int.le_ediv_iff_mul_le hm, one_mul]
      exact not_lt.mp hpow
    have hdouble : 2 * 2 ^ m ≤ (2 : ℤ) ^ k := by
      rw [← pow_succ']
      exact pow_le_pow_right₀ (by decide) (not_le.mp hmk)
    have hlt : vol < (vol / 2 ^ m + 1) * 2 ^ m := Int.lt_ediv_add_one_mul_self vol hm
    refine absurd hle (not_le.mpr ?_)
    calc vol < (vol / 2 ^ m + 1) * 2 ^ m := hlt
      _ ≤ (vol / 2 ^ m * 2) * 2 ^ m := mul_le_mul_of_nonneg_right (by omega) hm.le
      _ = vol / 2 ^ m * (2 * 2 ^ m) := by ring
      _ ≤ vol / 2 ^ m * 2 ^ k := mul_le_mul_of_nonneg_left hdouble hleft
  · rintro (hle | hlt)
    · calc vol / 2 ^ m * 2 ^ k ≤ vol / 2 ^ m * 2 ^ m :=
            mul_le_mul_of_nonneg_left (pow_le_pow_right₀ (by decide) hle) hleft
        _ ≤ vol := Int.ediv_mul_le vol hm.ne'
    · rw [Int.ediv_eq_zero_of_lt hvol hlt, zero_mul]
      exact hvol

theorem volAccumulator_of_applyTimeDecay (hbounded : Bounded fs) (ledger : ℕ) :
    (fs.applyTimeDecay ledger).volAccumulator = fs.volAccumulator /
      2 ^ min ((ledger - fs.lastFeeUpdate) / fs.decayThresholdBlocks) maxDecayPeriods := by
  have hvol := hbounded.vol_nonneg
  obtain ⟨vol, mark, stale, rfl⟩ := hbounded.configured
  have hdivisor : ((max initial.cooldownDivisor 2 : ℕ) : ℤ) = 2 := rfl
  have hthreshold : max initial.decayThresholdBlocks 1 = initial.decayThresholdBlocks := rfl
  unfold applyTimeDecay
  dsimp only at hvol ⊢
  rw [hdivisor, hthreshold]
  split
  · rename_i hidle
    rcases hidle with hnow | hspent
    · rw [hnow, Nat.zero_div, Nat.zero_min, pow_zero, Int.ediv_one]
    · obtain rfl : vol = 0 := le_antisymm hspent hvol
      rw [Int.zero_ediv]
  · split
    · rename_i hnone
      rw [hnone, pow_zero, Int.ediv_one]
    · dsimp only
      rw [decayLoop_eq_div (by decide) _ hvol]
      exact max_eq_left (Int.ediv_nonneg hvol (by positivity))

/-- **The decay** divides the accumulator by two for every period since the mark. -/
theorem volAccumulator_of_decayStaleEma {Address : Type} {contract : Address} {env : Env contract}
    (hbounded : Bounded fs) (hdecay : decayStaleEma env fs = .ok fs') :
    fs'.volAccumulator =
      fs.volAccumulator / 2 ^ fs.decayPeriods fs.lastFeeUpdate env.sequence := by
  have hvol := hbounded.vol_nonneg
  simp only [decayStaleEma, bind_eq_ok, orTrap_eq_ok, Word.checkedAdd_eq_some, pure_eq_ok] at hdecay
  obtain ⟨_, ⟨-, rfl⟩, rfl⟩ := hdecay
  unfold decayPeriods
  by_cases hstale : fs.lastFeeUpdate + fs.staleThreshold < env.sequence
  · rw [if_pos hstale, if_pos (by exact_mod_cast hstale)]
    exact volAccumulator_of_applyTimeDecay hbounded _
  · rw [if_neg hstale, if_neg (by exact_mod_cast hstale), pow_zero, Int.ediv_one]

end FeeState

/-! ### Idle pools -/

variable {Address : Type} [DecidableEq Address] {contract : Address}

/-- A call that swaps and whose update of the volatility succeeds leaves the fee state `fs`. -/
structure LeftBySwap (env : Env contract) (w w' : World Address) (op : Op Address) (fs : FeeState) :
    Prop where
  swaps : (swapRequest contract w op).isSome = true
  accepted : exec w (env, op) = .ok w'
  stored : w'.pair.feeState = some fs
  updated : ∃ decayed priceDeltaAbs tradeSize totalReserve,
    FeeState.updateVolatility env decayed priceDeltaAbs tradeSize totalReserve = .ok fs

/-- The fee state from which a swap computes its fee. -/
def chargedFeeState (env : Env contract) (w : World Address) : Call PairError FeeState := do
  let feeState ← w.getFeeState
  feeState.decayStaleEma env

omit [DecidableEq Address] in
theorem chargedFeeBps_eq_map (env : Env contract) (w : World Address) :
    chargedFeeBps env w =
      (chargedFeeState env w).map fun decayed => env.effectiveFeeBps decayed.computeFeeBps := by
  unfold chargedFeeBps chargedFeeState
  cases w.getFeeState with
  | error fault => rfl
  | ok feeState => cases hdecay : feeState.decayStaleEma env <;> simp [bind, Except.bind, hdecay] <;> rfl

/-- A swap at `env` computes its fee from an accumulator that has cooled down for `n` ledgers from `fs`. -/
def CooledDown (env : Env contract) (w : World Address) (fs : FeeState) (n : ℕ) : Prop :=
  ∃ charged, chargedFeeState env w = .ok charged ∧ charged.volAccumulator ≤
    fs.volAccumulator / 2 ^ min (n / fs.decayThresholdBlocks) FeeState.maxDecayPeriods

/-- The call does not write the fee state. -/
def Untouched (w : World Address) (call : PairCall contract) : Prop :=
  ((pairMachine contract).step w call).pair.feeState = w.pair.feeState

theorem feeState_of_untouched {w : World Address} {calls : List (PairCall contract)}
    (huntouched : (pairMachine contract).Along Untouched w calls) :
    ((pairMachine contract).run w calls).pair.feeState = w.pair.feeState := by
  induction calls generalizing w with
  | nil => rfl
  | cons call rest ih => exact (ih huntouched.2).trans huntouched.1

theorem LeftBySwap.lastFeeUpdate {env : Env contract} {w w' : World Address} {op : Op Address}
    {fs : FeeState} (hleft : LeftBySwap env w w' op fs) : fs.lastFeeUpdate = env.timestamp := by
  obtain ⟨decayed, delta, size, reserve, hupdate⟩ := hleft.updated
  rw [(FeeState.updated_of_updateVolatility hupdate).returned]

theorem LeftBySwap.bounded {env : Env contract} {w w' : World Address} {op : Op Address}
    {fs : FeeState} (hleft : LeftBySwap env w w' op fs) (hreach : Reachable contract w) : fs.Bounded :=
  feeInvariant_bounded.exec (feeBounded_of_reachable hreach) hleft.accepted fs hleft.stored

/-- A call that swaps is accepted only if its fee can be computed. -/
theorem chargedFeeState_of_accepts {env : Env contract} {w : World Address} {op : Op Address}
    (hswaps : (swapRequest contract w op).isSome = true)
    (haccepts : (pairMachine contract).Accepts w (env, op)) :
    ∃ charged, chargedFeeState env w = .ok charged := by
  obtain ⟨w', hexec⟩ := haccepts
  cases swapsWithin_of_exec hexec with
  | none hrequest => rw [hrequest] at hswaps; cases hswaps
  | some hrequest hruns hcounters =>
      obtain ⟨_, _, stored, decayed, _, _, hswap⟩ := swapInner_ok hruns
      have hstored := hswap.feeState
      rw [pair_of_swapRequest hrequest] at hstored
      refine ⟨decayed, bind_eq_ok.mpr ⟨stored, World.getFeeState_eq_ok.mpr hstored, hswap.decay⟩⟩

/-- **Cooling down.** The accumulator cools down as the idle ledgers say exactly when the periods counted
from the timestamp of the last update are as many, or leave nothing of it. -/
theorem cooledDown_iff {env env' : Env contract} {w heated : World Address} {op later : Op Address}
    {fs : FeeState} {idle : List (PairCall contract)} {n : ℕ} (hreach : Reachable contract w)
    (hleft : LeftBySwap env w heated op fs)
    (hidle : (pairMachine contract).Along Untouched heated idle)
    (hswaps : (swapRequest contract ((pairMachine contract).run heated idle) later).isSome = true)
    (haccepts : (pairMachine contract).Accepts ((pairMachine contract).run heated idle) (env', later))
    (hsequence : env'.sequence = env.sequence + n) (hstale : fs.staleThreshold < n) :
    CooledDown env' ((pairMachine contract).run heated idle) fs n ↔
      fs.decayPeriods env.sequence env'.sequence ≤ fs.decayPeriods env.timestamp env'.sequence ∨
        fs.volAccumulator < 2 ^ fs.decayPeriods env.timestamp env'.sequence := by
  have hbounded := hleft.bounded hreach
  have hstored := (feeState_of_untouched hidle).trans hleft.stored
  obtain ⟨charged, hcharged⟩ := chargedFeeState_of_accepts hswaps haccepts
  have hdecay : fs.decayStaleEma env' = .ok charged := by
    obtain ⟨read, hread, hdecay⟩ := bind_eq_ok.mp hcharged
    obtain rfl : read = fs := Option.some.inj ((World.getFeeState_eq_ok.mp hread).symm.trans hstored)
    exact hdecay
  have hvol := FeeState.volAccumulator_of_decayStaleEma hbounded hdecay
  rw [hleft.lastFeeUpdate] at hvol
  have hperiods := FeeState.decayPeriods_of_stale env.sequence hstale
  rw [← hsequence] at hperiods
  rw [hperiods, ← FeeState.div_pow_le_div_pow_iff hbounded.vol_nonneg, ← hvol, CooledDown, hcharged]
  simp only [Except.ok.injEq, exists_eq_left']

/-! ### A pool that does not cool down -/

/-- The clocks of a network some years old: five seconds a ledger, and the timestamp far ahead. -/
def networkEnv (n : ℕ) : Env 0 := Env.quiet 0 (50000000 + n) (1700000000 + 5 * n) none

/-- A pool into which a large trade is about to be made. -/
def tradedPool : World ℕ :=
  (pairMachine 0).step (openedPool (networkEnv 0) 100000 100000)
    (networkEnv 0, .external (.transferA 1 0 50000))

theorem tradedPool_reachable : Reachable 0 tradedPool := by
  obtain ⟨tokenA, tokenB, calls, hopened⟩ := openedPool_reachable (networkEnv 0) 100000 100000
  refine ⟨tokenA, tokenB, calls ++ [(networkEnv 0, .external (.transferA 1 0 50000))], ?_⟩
  rw [tradedPool, hopened, Machine.run_append, Machine.run_cons, Machine.run_nil]

def heatedPool : World ℕ := (pairMachine 0).step tradedPool (networkEnv 0, .swap 0 33000 1)

/-- What the trade leaves: the accumulator at its cap, marked with the timestamp. -/
def heatedFeeState : FeeState :=
  { FeeState.initial with volAccumulator := 350000000000, lastFeeUpdate := 1700000000 }

theorem exec_tradedPool :
    (pairMachine 0).exec tradedPool (networkEnv 0, .swap 0 33000 1) = .ok heatedPool :=
  Machine.exec_of_isOk (by decide +kernel)

theorem leftBySwap_heatedPool :
    LeftBySwap (networkEnv 0) tradedPool heatedPool (.swap 0 33000 1) heatedFeeState where
  swaps := rfl
  accepted := exec_tradedPool
  stored := by decide +kernel
  updated := ⟨FeeState.initial, 55333333333334, 50000, 217000, by decide +kernel⟩

/-- Five thousand seconds later the trader sells again: a thousand ledgers, ten periods. -/
def idleCalls : List (PairCall 0) := [(networkEnv 1000, .external (.transferA 1 0 1000))]

theorem untouched_idleCalls : (pairMachine 0).Along Untouched heatedPool idleCalls :=
  ⟨by unfold Untouched; decide +kernel, trivial⟩

theorem accepts_laterSwap : (pairMachine 0).Accepts ((pairMachine 0).run heatedPool idleCalls)
    (networkEnv 1000, .swap 0 300 1) :=
  ⟨_, Machine.exec_of_isOk (by decide +kernel)⟩

theorem cooledDown_iff_heatedPool :
    CooledDown (networkEnv 1000) ((pairMachine 0).run heatedPool idleCalls) heatedFeeState 1000 ↔
      heatedFeeState.decayPeriods 50000000 50001000 ≤ heatedFeeState.decayPeriods 1700000000 50001000 ∨
        heatedFeeState.volAccumulator < 2 ^ heatedFeeState.decayPeriods 1700000000 50001000 :=
  cooledDown_iff tradedPool_reachable leftBySwap_heatedPool untouched_idleCalls rfl accepts_laterSwap
    rfl (by decide)

/-- The accumulator should be at most 341796875; it is still 350000000000. -/
theorem not_cooledDown_heatedPool :
    ¬∀ (env env' : Env (0 : ℕ)) (w heated : World ℕ) (op later : Op ℕ) (fs : FeeState)
      (idle : List (PairCall 0)) (n : ℕ), Reachable 0 w → LeftBySwap env w heated op fs →
      (pairMachine 0).Along Untouched heated idle →
      (swapRequest 0 ((pairMachine 0).run heated idle) later).isSome = true →
      (pairMachine 0).Accepts ((pairMachine 0).run heated idle) (env', later) →
      env.timestamp ≤ env'.timestamp → env'.sequence = env.sequence + n → fs.staleThreshold < n →
      fs.decayThresholdBlocks ≤ n → CooledDown env' ((pairMachine 0).run heated idle) fs n := by
  intro hlaw
  obtain ⟨charged, hcharged, hvol⟩ := hlaw (networkEnv 0) (networkEnv 1000) tradedPool heatedPool
    (.swap 0 33000 1) (.swap 0 300 1) heatedFeeState idleCalls 1000 tradedPool_reachable
    leftBySwap_heatedPool untouched_idleCalls rfl accepts_laterSwap (by decide) rfl (by decide) (by decide)
  have hidle : chargedFeeState (networkEnv 1000) ((pairMachine 0).run heatedPool idleCalls) =
      .ok heatedFeeState := by decide +kernel
  obtain rfl := Except.ok.inj (hidle.symm.trans hcharged)
  exact absurd hvol (by decide)

end CoralSwap
