import CoralSwap.Lib.Call
import CoralSwap.Lib.Machine
import CoralSwap.Lib.RingBuffer
import CoralSwap.Lib.Wrapping

/-!
# The price oracle

Cumulative prices, the ring of samples they are recorded in, and the average consulted from it. No entry
point of the pair updates the oracle yet; whoever does passes the reserves and the time elapsed.
-/

namespace CoralSwap

open Host Host.Call

def maxTwapWindow : ℕ := 86400

def maxObservations : ℕ := 24

inductive OracleError where
  | windowTooShort
  | windowTooLong
  deriving DecidableEq, Repr

/-- `(ledger_sequence, cumulative_a, cumulative_b)` -/
structure TwapSample where
  ledger : ℕ
  priceA : ℤ
  priceB : ℤ
  deriving DecidableEq, Repr

structure OracleState extends RingBuffer TwapSample where
  priceACumulative : ℤ
  priceBCumulative : ℤ
  deriving DecidableEq, Repr

namespace OracleState

def new : OracleState := ⟨.empty, 0, 0⟩

def len (state : OracleState) : ℕ := state.count

def isEmpty (state : OracleState) : Bool := state.count == 0

def sample (state : OracleState) (index : ℕ) : Option TwapSample :=
  state.toRingBuffer.sample maxObservations index

def oldest (state : OracleState) : Option TwapSample := state.sample 0

def newest (state : OracleState) : Option TwapSample :=
  match state.count with
  | 0 => none
  | count + 1 => state.sample count

def push (state : OracleState) (sample : TwapSample) : Call OracleError OracleState := do
  let ring ← orTrap (state.toRingBuffer.push maxObservations sample)
  pure { state with toRingBuffer := ring }

/-- The loop of `prune_expired`: every round drops a sample, so that it ends within `count` rounds. -/
def pruneLoop (now : ℕ) : ℕ → OracleState → Call OracleError OracleState
  | 0, state => pure state
  | rounds + 1, state =>
      match state.oldest with
      | none => pure state
      | some sample => do
          let lastLedger ← orTrap (u64.checkedAdd sample.ledger maxTwapWindow)
          if now ≤ lastLedger then pure state
          else pruneLoop now rounds { state with toRingBuffer := state.dropOldest maxObservations }

def pruneExpired (now : ℕ) (state : OracleState) : Call OracleError OracleState :=
  pruneLoop now state.count state

end OracleState

/-- The accumulators move before the expired samples go, and the sample carries what they moved to. -/
def updateCumulativePrices (sequence : ℕ) (state : OracleState) (reserveA reserveB : ℤ)
    (timeElapsed : ℕ) : Call OracleError OracleState :=
  if reserveA = 0 ∨ reserveB = 0 ∨ timeElapsed = 0 then pure state
  else do
    let priceA ← orTrap (i128.checkedDiv reserveB reserveA)
    let priceB ← orTrap (i128.checkedDiv reserveA reserveB)
    let priceACumulative := i128.wrappingAdd state.priceACumulative (i128.wrappingMul priceA timeElapsed)
    let priceBCumulative := i128.wrappingAdd state.priceBCumulative (i128.wrappingMul priceB timeElapsed)
    let pruned ← { state with priceACumulative, priceBCumulative }.pruneExpired sequence
    pruned.push ⟨sequence, priceACumulative, priceBCumulative⟩

/-! ### The average -/

/-- The loop of `consult_twap` from the `index`-th sample on: the last sample not after the target, and
the first not before it. -/
def scanLoop (state : OracleState) (target : ℕ) :
    ℕ → ℕ → TwapSample → TwapSample → Call OracleError (TwapSample × TwapSample)
  | 0, _, start, finish => pure (start, finish)
  | rest + 1, index, start, finish => do
      let sample ← orTrap (state.sample index)
      let start := if sample.ledger ≤ target then sample else start
      if target ≤ sample.ledger ∧ finish.ledger ≤ target then pure (start, sample)
      else scanLoop state target rest (index + 1) start finish

def interpolate (target : ℕ) (start finish : TwapSample) (price : TwapSample → ℤ) :
    Call OracleError ℤ :=
  if finish.ledger = start.ledger then pure (price start)
  else do
    let scaled ← orTrap
      (i128.checkedMul (i128.wrappingSub (price finish) (price start)) (target - start.ledger))
    let offset ← orTrap (i128.checkedDiv scaled (finish.ledger - start.ledger))
    pure (i128.wrappingAdd (price start) offset)

def consultTwap (sequence : ℕ) (state : OracleState) (windowLedgers : ℕ) : Call OracleError (ℤ × ℤ) := do
  failIf (windowLedgers = 0) .windowTooShort
  failIf (maxTwapWindow < windowLedgers) .windowTooLong
  failIf (state.isEmpty = true) .windowTooShort
  let target := sequence - windowLedgers
  let oldest ← orTrap (state.sample 0)
  failIf (target < oldest.ledger) .windowTooShort
  let (start, finish) ← scanLoop state target state.len 0 oldest oldest
  let interpolatedA ← interpolate target start finish TwapSample.priceA
  let interpolatedB ← interpolate target start finish TwapSample.priceB
  let latest ← orTrap state.newest
  let horizon ← orTrap (u64.checkedAdd target windowLedgers)
  failIf (latest.ledger < horizon) .windowTooShort
  let timeElapsed := latest.ledger - target
  if timeElapsed = 0 then pure (0, 0)
  else do
    let priceAAvg ← orTrap (i128.checkedDiv (i128.wrappingSub latest.priceA interpolatedA) timeElapsed)
    let priceBAvg ← orTrap (i128.checkedDiv (i128.wrappingSub latest.priceB interpolatedB) timeElapsed)
    pure (priceAAvg, priceBAvg)

/-! ### Runs of updates -/

/-- A call of `update_cumulative_prices`, its arguments and the ledger in the range of their types. -/
structure PriceUpdate where
  sequence : ℕ
  reserveA : ℤ
  reserveB : ℤ
  timeElapsed : ℕ
  sequence_le : (sequence : ℤ) ≤ u32.max
  reserveA_mem : i128.min ≤ reserveA ∧ reserveA ≤ i128.max
  reserveB_mem : i128.min ≤ reserveB ∧ reserveB ≤ i128.max
  timeElapsed_le : (timeElapsed : ℤ) ≤ u64.max

def oracleMachine : Machine OracleState PriceUpdate OracleError where
  exec state update :=
    updateCumulativePrices update.sequence state update.reserveA update.reserveB update.timeElapsed

end CoralSwap
