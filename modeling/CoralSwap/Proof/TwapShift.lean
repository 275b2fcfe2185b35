import CoralSwap.Proof.TwapQueries

/-!
# Shifted accumulators

Only differences of cumulative prices count: a constant added to all of them, modulo the range of `i128`,
changes no answer of the oracle.
-/

namespace CoralSwap

open Host Host.Call RingBuffer

def TwapSample.shift (shiftA shiftB : ℤ) (x : TwapSample) : TwapSample where
  ledger := x.ledger
  priceA := i128.wrappingAdd x.priceA shiftA
  priceB := i128.wrappingAdd x.priceB shiftB

/-- The oracle with a constant added to every cumulative price. -/
def OracleState.shift (shiftA shiftB : ℤ) (state : OracleState) : OracleState where
  toRingBuffer := state.toRingBuffer.map (·.shift shiftA shiftB)
  priceACumulative := i128.wrappingAdd state.priceACumulative shiftA
  priceBCumulative := i128.wrappingAdd state.priceBCumulative shiftB

variable {state : OracleState} {start finish latest : TwapSample} {target windowLedgers : ℕ}
  {shiftA shiftB shift : ℤ} {price price' : TwapSample → ℤ}

theorem sample_shift (index : ℕ) :
    (state.shift shiftA shiftB).sample index = (state.sample index).map (·.shift shiftA shiftB) :=
  sample_map maxObservations _ state.toRingBuffer index

theorem newest_shift :
    (state.shift shiftA shiftB).newest = state.newest.map (·.shift shiftA shiftB) := by
  have hcount : (state.shift shiftA shiftB).count = state.count := rfl
  rw [OracleState.newest, OracleState.newest, hcount]
  cases state.count with
  | zero => rfl
  | succ count => exact sample_shift count

theorem scanLoop_shift (rounds index : ℕ) (start finish : TwapSample) :
    scanLoop (state.shift shiftA shiftB) target rounds index (start.shift shiftA shiftB)
        (finish.shift shiftA shiftB) =
      Prod.map (·.shift shiftA shiftB) (·.shift shiftA shiftB) <$>
        scanLoop state target rounds index start finish := by
  induction rounds generalizing index start with
  | zero => rfl
  | succ rounds ih =>
      rw [scanLoop, scanLoop, sample_shift]
      cases state.sample index with
      | none => rfl
      | some x =>
          have hstart : (if x.ledger ≤ target then x.shift shiftA shiftB else start.shift shiftA shiftB) =
              (if x.ledger ≤ target then x else start).shift shiftA shiftB :=
            (apply_ite (TwapSample.shift shiftA shiftB) _ _ _).symm
          by_cases hfound : target ≤ x.ledger ∧ finish.ledger ≤ target
          · simp only [Option.map_some, orTrap, bind, Except.bind]
            rw [if_pos hfound]
            refine (if_pos hfound).trans ?_
            exact congrArg (fun first => Except.ok (first, x.shift shiftA shiftB)) hstart
          · simp only [Option.map_some, orTrap, bind, Except.bind]
            rw [if_neg hfound, ← ih]
            refine (if_neg hfound).trans ?_
            exact congrArg (fun first => scanLoop _ target rounds (index + 1) first _) hstart

/-- An interpolation between shifted samples is shifted. -/
theorem interpolate_shift {start' finish' : TwapSample} (hstart : start'.ledger = start.ledger)
    (hfinish : finish'.ledger = finish.ledger)
    (hpriceStart : price start' = i128.wrappingAdd (price start) shift)
    (hpriceFinish : price finish' = i128.wrappingAdd (price finish) shift) :
    interpolate target start' finish' price =
      (i128.wrappingAdd · shift) <$> interpolate target start finish price := by
  rw [interpolate, interpolate, hstart, hfinish, hpriceStart, hpriceFinish, Word.wrappingSub_shift]
  by_cases hsame : finish.ledger = start.ledger
  · rw [if_pos hsame, if_pos hsame]
    rfl
  · rw [if_neg hsame, if_neg hsame]
    cases i128.checkedMul (i128.wrappingSub (price finish) (price start)) (target - start.ledger) with
    | none => rfl
    | some scaled =>
        simp only [orTrap, bind, Except.bind]
        cases i128.checkedDiv scaled (finish.ledger - start.ledger) with
        | none => rfl
        | some offset => exact congrArg Except.ok (Word.wrappingAdd_shift _ _ _)

theorem interpolate_shiftA (start finish : TwapSample) :
    interpolate target (start.shift shiftA shiftB) (finish.shift shiftA shiftB) TwapSample.priceA =
      (i128.wrappingAdd · shiftA) <$> interpolate target start finish TwapSample.priceA :=
  interpolate_shift rfl rfl rfl rfl

theorem interpolate_shiftB (start finish : TwapSample) :
    interpolate target (start.shift shiftA shiftB) (finish.shift shiftA shiftB) TwapSample.priceB =
      (i128.wrappingAdd · shiftB) <$> interpolate target start finish TwapSample.priceB :=
  interpolate_shift rfl rfl rfl rfl

theorem averageTo_shift (interpolatedA interpolatedB : ℤ) :
    averageTo (latest.shift shiftA shiftB) target windowLedgers (i128.wrappingAdd interpolatedA shiftA)
        (i128.wrappingAdd interpolatedB shiftB) =
      averageTo latest target windowLedgers interpolatedA interpolatedB := by
  rw [averageTo, averageTo]
  simp only [TwapSample.shift, Word.wrappingSub_shift]
  rfl

/-- What follows the scan of a query. -/
theorem answer_shift (between : TwapSample × TwapSample) :
    (do
      let interpolatedA ← interpolate target (between.1.shift shiftA shiftB) (between.2.shift shiftA shiftB)
        TwapSample.priceA
      let interpolatedB ← interpolate target (between.1.shift shiftA shiftB) (between.2.shift shiftA shiftB)
        TwapSample.priceB
      let latest ← orTrap (state.shift shiftA shiftB).newest
      averageTo latest target windowLedgers interpolatedA interpolatedB) =
    (do
      let interpolatedA ← interpolate target between.1 between.2 TwapSample.priceA
      let interpolatedB ← interpolate target between.1 between.2 TwapSample.priceB
      let latest ← orTrap state.newest
      averageTo latest target windowLedgers interpolatedA interpolatedB) := by
  rw [interpolate_shiftA, interpolate_shiftB, newest_shift]
  cases interpolate target between.1 between.2 TwapSample.priceA with
  | error fault => rfl
  | ok interpolatedA =>
      cases interpolate target between.1 between.2 TwapSample.priceB with
      | error fault => rfl
      | ok interpolatedB =>
          cases state.newest with
          | none => rfl
          | some latest => exact averageTo_shift interpolatedA interpolatedB

/-- **Shifts.** A constant added to every cumulative price changes no answer. -/
theorem consultTwap_shift (sequence : ℕ) (state : OracleState) (windowLedgers : ℕ) (shiftA shiftB : ℤ) :
    consultTwap sequence (state.shift shiftA shiftB) windowLedgers =
      consultTwap sequence state windowLedgers := by
  rw [consultTwap, consultTwap]
  refine bind_congr fun _ => bind_congr fun _ => bind_congr fun _ => ?_
  rw [sample_shift]
  cases state.sample 0 with
  | none => rfl
  | some oldest =>
      show (failIf _ _ >>= fun _ => scanLoop _ _ _ _ (oldest.shift shiftA shiftB) _ >>= _) =
        (failIf _ _ >>= fun _ => scanLoop _ _ _ _ oldest _ >>= _)
      refine bind_congr fun _ => ?_
      rw [scanLoop_shift]
      show (Prod.map _ _ <$> scanLoop state _ state.len 0 oldest oldest >>= _) = _
      cases scanLoop state (sequence - windowLedgers) state.len 0 oldest oldest with
      | error fault => rfl
      | ok between => exact answer_shift between

end CoralSwap
