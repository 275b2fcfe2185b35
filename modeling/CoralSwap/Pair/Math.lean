import CoralSwap.Pair.Types

/-!
# The pair's arithmetic

Square roots by Newton's method, liquidity shares, and the split of a single-sided deposit. The two
square roots are the same loop over two machine integer types.
-/

namespace CoralSwap

open Host Host.Call

def minimumLiquidity : ℤ := 1000

/-- `while y < x { x = y; y = (x + value / x) / 2 }`. Every round lowers `x`, so `value` itself is
enough fuel. -/
def newtonLoop (w : Word) (value : ℤ) : ℕ → ℤ → ℤ → Call PairError ℤ
  | 0, _, _ => trap
  | fuel + 1, x, y =>
      if y < x then do
        let quotient ← orTrap (w.checkedDiv value y)
        let sum ← orTrap (w.checkedAdd y quotient)
        newtonLoop w value fuel y (sum.tdiv 2)
      else pure x

def newtonSqrt (w : Word) (value : ℤ) : Call PairError ℤ := do
  let next ← orTrap (w.checkedAdd value 1)
  newtonLoop w value (value.toNat + 1) value (next.tdiv 2)

def sqrt (value : ℤ) : Call PairError ℤ := do
  require (0 ≤ value)
  if value = 0 then pure 0 else newtonSqrt i128 value

def sqrtU256 (value : ℤ) : Call PairError ℤ :=
  if value = 0 then pure 0 else newtonSqrt u256 value

def mapQuoteError : QuoteError → PairError
  | .zeroAmount | .dust => .dustAmount
  | .insufficientLiquidity => .insufficientLiquidity
  | .overflow | .invalidFee => .overflow

def getAmountOut (amountIn reserveIn reserveOut : ℤ) (feeBps : ℕ) : Call PairError ℤ :=
  match quoteOutputAmount amountIn reserveIn reserveOut feeBps with
  | .ok out => .ok out
  | .error (.error code) => fail (mapQuoteError code)
  | .error .trap => trap

def initialLiquidity (amountA amountB : ℤ) : Call PairError ℤ := do
  let product ← okOr (i128.checkedMul amountA amountB) .overflow
  let root ← sqrt product
  okOr (i128.checkedSub root minimumLiquidity) .insufficientLiquidityMinted

def share (amount part whole : ℤ) : Call PairError ℤ := do
  let product ← okOr (i128.checkedMul amount part) .overflow
  okOr (i128.checkedDiv product whole) .overflow

def subsequentLiquidity (amountA amountB reserveA reserveB totalSupply : ℤ) :
    Call PairError ℤ := do
  let liquidityA ← share amountA totalSupply reserveA
  let liquidityB ← share amountB totalSupply reserveB
  pure (min liquidityA liquidityB)

def burnAmounts (lpAmount reserveA reserveB totalSupply : ℤ) : Call PairError (ℤ × ℤ) := do
  let amountA ← share lpAmount reserveA totalSupply
  let amountB ← share lpAmount reserveB totalSupply
  pure (amountA, amountB)

/-- The part of a single-sided deposit to swap first: the positive root of
`f x² + r (10_000 + f) x = 10_000 r s`, in 256-bit arithmetic. -/
def computeSwapInForSingleSide (reserveIn amount : ℤ) (feeBps : ℕ) : Call PairError ℤ := do
  failIf (reserveIn ≤ 0 ∨ amount ≤ 0) .invalidInput
  failIf (10000 < feeBps) .invalidInput
  let f : ℤ := 10000 - feeBps
  let bPlusF ← okOr (u256.checkedAdd 10000 f) .overflow
  let bPlusFSq ← okOr (u256.checkedMul bPlusF bPlusF) .overflow
  let rBPlusFSq ← okOr (u256.checkedMul reserveIn bPlusFSq) .overflow
  let fourF ← okOr (u256.checkedMul 4 f) .overflow
  let fourFS ← okOr (u256.checkedMul fourF amount) .overflow
  let fourFSBps ← okOr (u256.checkedMul fourFS 10000) .overflow
  let inner ← okOr (u256.checkedAdd rBPlusFSq fourFSBps) .overflow
  let discriminant ← okOr (u256.checkedMul reserveIn inner) .overflow
  let sqrtDisc ← sqrtU256 discriminant
  let rBPlusF ← okOr (u256.checkedMul reserveIn bPlusF) .overflow
  failIf (sqrtDisc < rBPlusF) .invalidInput
  let numerator := sqrtDisc - rBPlusF
  let denominator ← okOr (u256.checkedMul 2 f) .overflow
  failIf (denominator = 0) .invalidInput
  let swapIn := numerator.tdiv denominator
  failIf (i128.max < swapIn) .overflow
  pure swapIn

@[simp]
theorem getAmountOut_eq_ok {amountIn reserveIn reserveOut out : ℤ} {feeBps : ℕ} :
    getAmountOut amountIn reserveIn reserveOut feeBps = .ok out ↔
      quoteOutputAmount amountIn reserveIn reserveOut feeBps = .ok out := by
  unfold getAmountOut
  split <;> simp_all

@[simp]
theorem share_eq_ok {amount part whole v : ℤ} :
    share amount part whole = .ok v ↔
      (i128.min ≤ amount * part ∧ amount * part ≤ i128.max) ∧ whole ≠ 0 ∧
        (i128.min ≤ (amount * part).tdiv whole ∧ (amount * part).tdiv whole ≤ i128.max) ∧
        (amount * part).tdiv whole = v := by
  simp only [share, bind_eq_ok, okOr_eq_ok, Word.checkedMul_eq_some, Word.checkedDiv_eq_some]
  constructor
  · rintro ⟨_, ⟨hproduct, rfl⟩, hdiv⟩
    exact ⟨hproduct, hdiv⟩
  · rintro ⟨hproduct, hdiv⟩
    exact ⟨_, ⟨hproduct, rfl⟩, hdiv⟩

end CoralSwap
