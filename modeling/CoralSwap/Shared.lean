import CoralSwap.Lib.Call
import CoralSwap.Lib.Word

/-!
# Shared policy and quotes

The constants every contract imports, and the one quote implementation the pair and the router
share. `u32` rates are naturals; amounts and reserves are integers in the range of `i128`.
-/

namespace CoralSwap

open Host Host.Call

/-- `BytesN<32>` -/
abbrev Bytes32 := Vector UInt8 32

def minimumReserve : ℤ := 1000

def minLiquidityForUser : ℤ := 1000

def bpsDenominator : ℤ := 10000

inductive QuoteError where
  | zeroAmount
  | insufficientLiquidity
  | overflow
  | dust
  | invalidFee
  deriving DecidableEq, Repr

def feeFactor (feeBps : ℕ) : Call QuoteError ℤ := do
  failIf (bpsDenominator ≤ feeBps) .invalidFee
  pure (bpsDenominator - feeBps)

/-- Exact-input quote: what `amountIn` buys against `(reserveIn, reserveOut)`. -/
def quoteOutputAmount (amountIn reserveIn reserveOut : ℤ) (feeBps : ℕ) : Call QuoteError ℤ := do
  failIf (amountIn ≤ 0) .zeroAmount
  failIf (reserveIn ≤ 0 ∨ reserveOut ≤ 0) .insufficientLiquidity
  let factor ← feeFactor feeBps
  let amountInWithFee ← okOr (i128.checkedMul amountIn factor) .overflow
  let numerator ← okOr (i128.checkedMul amountInWithFee reserveOut) .overflow
  let scaledReserve ← okOr (i128.checkedMul reserveIn bpsDenominator) .overflow
  let denominator ← okOr (i128.checkedAdd scaledReserve amountInWithFee) .overflow
  let out := numerator.tdiv denominator
  failIf (out ≤ 0) .dust
  pure out

/-- Exact-output quote: the input that buys `amountOut`, rounded up in 256 bits. -/
def quoteInputAmount (amountOut reserveIn reserveOut : ℤ) (feeBps : ℕ) : Call QuoteError ℤ := do
  failIf (amountOut ≤ 0) .zeroAmount
  failIf (reserveIn ≤ 0 ∨ reserveOut ≤ 0 ∨ reserveOut ≤ amountOut) .insufficientLiquidity
  let factor ← feeFactor feeBps
  let product ← okOr (u256.checkedMul reserveIn amountOut) .overflow
  let numerator ← okOr (u256.checkedMul product bpsDenominator) .overflow
  let denominator ← okOr (u256.checkedMul (reserveOut - amountOut) factor) .overflow
  let quotient := numerator.tdiv denominator
  let rounded := quotient + if numerator.tmod denominator ≠ 0 then 1 else 0
  failIf (i128.max < rounded) .overflow
  pure rounded

/-- A quote is the floor of the fee-reduced product, and leaves part of the reserve in the pool. -/
theorem quoteOutputAmount_ok {amountIn reserveIn reserveOut out : ℤ} {feeBps : ℕ}
    (hquote : quoteOutputAmount amountIn reserveIn reserveOut feeBps = .ok out) :
    0 < amountIn ∧ 0 < reserveIn ∧ 0 < reserveOut ∧ (feeBps : ℤ) < bpsDenominator ∧
      0 < out ∧
      out * (reserveIn * bpsDenominator + amountIn * (bpsDenominator - feeBps)) ≤
        amountIn * (bpsDenominator - feeBps) * reserveOut := by
  simp only [quoteOutputAmount, feeFactor, bind_eq_ok, pure_eq_ok, failIf_eq_ok, okOr_eq_ok,
    Word.checkedMul_eq_some, Word.checkedAdd_eq_some] at hquote
  obtain ⟨-, hin, -, hreserves, _, ⟨-, hfee, rfl⟩, _, ⟨-, rfl⟩, _, ⟨-, rfl⟩, _, ⟨-, rfl⟩, _,
    ⟨-, rfl⟩, -, hout, rfl⟩ := hquote
  have hreserveIn : 0 < reserveIn := by omega
  have hreserveOut : 0 < reserveOut := by omega
  have hfactor : 0 < bpsDenominator - (feeBps : ℤ) := by omega
  have hwithFee : 0 < amountIn * (bpsDenominator - feeBps) := mul_pos (by omega) hfactor
  have hdenominator :
      0 < reserveIn * bpsDenominator + amountIn * (bpsDenominator - feeBps) :=
    add_pos (mul_pos hreserveIn (by decide)) hwithFee
  exact ⟨by omega, hreserveIn, hreserveOut, by omega, by omega,
    tdiv_mul_le (mul_nonneg hwithFee.le hreserveOut.le) hdenominator⟩

theorem quoteOutputAmount_lt {amountIn reserveIn reserveOut out : ℤ} {feeBps : ℕ}
    (hquote : quoteOutputAmount amountIn reserveIn reserveOut feeBps = .ok out) :
    out < reserveOut := by
  obtain ⟨hin, hreserveIn, hreserveOut, hfee, hout, hle⟩ := quoteOutputAmount_ok hquote
  have hfactor : 0 < bpsDenominator - (feeBps : ℤ) := by omega
  have hwithFee : 0 < amountIn * (bpsDenominator - feeBps) := mul_pos hin hfactor
  have hscaled : 0 < reserveIn * bpsDenominator := mul_pos hreserveIn (by decide)
  by_contra hge
  have := mul_le_mul_of_nonneg_left (not_lt.mp hge) hwithFee.le
  nlinarith [mul_pos hout hscaled]

end CoralSwap
