import CoralSwap.Pair.DynamicFee
import CoralSwap.Pair.Math

/-!
# Swaps

A swap pays the requested outputs first and infers its inputs from the balances left, then checks
the fee-scaled product and carves the protocol fee out of the new reserves. `swapInner` is the body
of `swap` without the lock; the one-token mint runs it too.
-/

namespace CoralSwap

open Host Host.Call

variable {Address : Type} [DecidableEq Address] {contract : Address}

/-- `if amount > 0 { token.transfer(contract, to, amount) }` -/
def payOut (t : Token Address) (contract dst : Address) (amount : ℤ) :
    Call PairError (Token Address) :=
  if 0 < amount then orTrap (t.transfer contract dst amount) else pure t

namespace Env

omit [DecidableEq Address] in
/-- The rate charged when the dynamic fee is `dynamicFeeBps`: a positive override of the factory
takes precedence; a failed call, no override and a zero override fall back. -/
def effectiveFeeBps (env : Env contract) (dynamicFeeBps : ℕ) : ℕ :=
  match env.factory.getPairFeeOverride with
  | some (some overrideBps) => if 0 < overrideBps then overrideBps else dynamicFeeBps
  | _ => dynamicFeeBps

def protocolFeeTo (env : Env contract) : Option Address := env.factory.getFeeTo.join

def protocolFeeBps (env : Env contract) : ℕ :=
  match env.factory.getFeeBps with
  | some bps => min bps 10000
  | none => 0

def protocolFee (env : Env contract) (amountIn fee : ℤ) : ℤ :=
  if env.protocolFeeTo.isSome = true ∧ 0 < env.protocolFeeBps ∧ 0 < amountIn then
    (i128.saturatingMul (i128.saturatingMul amountIn fee) env.protocolFeeBps).tdiv 100000000
  else 0

def collectProtocolFee (env : Env contract) (t : Token Address) (fee : ℤ) :
    Call PairError (Token Address) :=
  match env.protocolFeeTo with
  | some feeTo => payOut t contract feeTo fee
  | none => pure t

end Env

/-- `(balance - (reserve - amount_out)).max(0)` -/
def inferInput (balance reserve amountOut : ℤ) : Call PairError ℤ := do
  let kept ← orTrap (i128.checkedSub reserve amountOut)
  let surplus ← orTrap (i128.checkedSub balance kept)
  pure (max surplus 0)

/-- `balance * 10_000 - amount_in * fee` -/
def feeAdjusted (balance amountIn fee : ℤ) : Call PairError ℤ := do
  let scaled ← okOr (i128.checkedMul balance bpsDenominator) .overflow
  let charged ← orTrap (i128.checkedMul amountIn fee)
  okOr (i128.checkedSub scaled charged) .overflow

/-- The price of token A in token B, scaled, or zero where it does not fit. -/
def scaledPrice (reserveA reserveB : ℤ) : ℤ :=
  ((i128.checkedMul reserveB FeeState.scale).bind fun v => i128.checkedDiv v reserveA).getD 0

def trackVolatility (env : Env contract) (fs : FeeState) (before after : PairStorage Address)
    (amountAIn amountBIn : ℤ) : Call PairError FeeState :=
  if 0 < before.reserveA ∧ 0 < before.reserveB ∧ 0 < after.reserveA ∧ 0 < after.reserveB then do
    let priceBefore := scaledPrice before.reserveA before.reserveB
    let priceAfter := scaledPrice after.reserveA after.reserveB
    let priceDeltaAbs ← orTrap
      (if priceBefore < priceAfter then i128.checkedSub priceAfter priceBefore
        else i128.checkedSub priceBefore priceAfter)
    let tradeSize := max amountAIn amountBIn
    let totalReserve := i128.saturatingAdd after.reserveA after.reserveB
    match fs.updateVolatility env priceDeltaAbs tradeSize totalReserve with
    | .ok updated => pure updated
    | .error (.error _) => pure fs
    | .error .trap => trap
  else pure fs

structure SwapEvent where
  amountAIn : ℤ
  amountBIn : ℤ
  amountAOut : ℤ
  amountBOut : ℤ
  feeBps : ℕ
  deriving DecidableEq, Repr

def swapInner (env : Env contract) (w : World Address) (amountAOut amountBOut : ℤ)
    (dst : Address) : Call PairError (World Address × SwapEvent) := do
  failIf (amountAOut ≤ 0 ∧ amountBOut ≤ 0) .insufficientOutputAmount
  let pair ← w.getPairState
  let feeState ← w.getFeeState
  failIf (pair.reserveA ≤ amountAOut ∨ pair.reserveB ≤ amountBOut) .insufficientLiquidity
  let reserveALeft ← okOr (i128.checkedSub pair.reserveA amountAOut) .overflow
  let reserveBLeft ← okOr (i128.checkedSub pair.reserveB amountBOut) .overflow
  failIf (reserveALeft < minimumReserve ∨ reserveBLeft < minimumReserve) .dustAmount
  let decayed ← feeState.decayStaleEma env
  let feeBps := env.effectiveFeeBps decayed.computeFeeBps
  let paidA ← payOut w.tokenA contract dst amountAOut
  let paidB ← payOut w.tokenB contract dst amountBOut
  let balanceA := paidA.balance contract
  let balanceB := paidB.balance contract
  let amountAIn ← inferInput balanceA pair.reserveA amountAOut
  let amountBIn ← inferInput balanceB pair.reserveB amountBOut
  failIf (amountAIn ≤ 0 ∧ amountBIn ≤ 0) .insufficientInputAmount
  let balanceAAdj ← feeAdjusted balanceA amountAIn feeBps
  let balanceBAdj ← feeAdjusted balanceB amountBIn feeBps
  let product ← okOr (i128.checkedMul pair.reserveA pair.reserveB) .overflow
  let kBefore ← okOr (i128.checkedMul product 100000000) .overflow
  let kAfter ← okOr (i128.checkedMul balanceAAdj balanceBAdj) .overflow
  failIf (kAfter < kBefore) .invalidK
  let protocolFeeA := env.protocolFee amountAIn feeBps
  let protocolFeeB := env.protocolFee amountBIn feeBps
  let tokenA ← env.collectProtocolFee paidA protocolFeeA
  let tokenB ← env.collectProtocolFee paidB protocolFeeB
  let collected := 0 < protocolFeeA ∨ 0 < protocolFeeB
  let reserveA ← okOr (i128.checkedSub balanceA protocolFeeA) .overflow
  let reserveB ← okOr (i128.checkedSub balanceB protocolFeeB) .overflow
  let kLast ← okOr (i128.checkedMul reserveA reserveB) .overflow
  let settled : PairStorage Address :=
    { pair with reserveA, reserveB, kLast, blockTimestampLast := env.timestamp }
  let tracked ← trackVolatility env decayed pair settled amountAIn amountBIn
  let w' : World Address :=
    { w with
      tokenA, tokenB
      pair :=
        { w.pair with
          pairState := some settled
          feeState := some tracked
          protocolFeeA :=
            if collected then i128.saturatingAdd w.pair.protocolFeeA protocolFeeA
            else w.pair.protocolFeeA
          protocolFeeB :=
            if collected then i128.saturatingAdd w.pair.protocolFeeB protocolFeeB
            else w.pair.protocolFeeB } }
  pure (w', ⟨amountAIn, amountBIn, amountAOut, amountBOut, feeBps⟩)

def swap (env : Env contract) (w : World Address) (amountAOut amountBOut : ℤ) (dst : Address) :
    Call PairError (World Address × SwapEvent) := do
  let held ← w.acquireLock
  held.ensureNotFrozen
  let (w', event) ← swapInner env held amountAOut amountBOut dst
  pure (w'.releaseLock, event)

def sync (env : Env contract) (w : World Address) : Call PairError (World Address) := do
  let held ← w.acquireLock
  let state ← held.getPairState
  let balanceA := held.tokenA.balance contract
  let balanceB := held.tokenB.balance contract
  let kLast ← okOr (i128.checkedMul balanceA balanceB) .overflow
  let synced := held.setPairState
    { state with
      reserveA := balanceA, reserveB := balanceB, kLast, blockTimestampLast := env.timestamp }
  pure synced.releaseLock

/-- The view routers quote with: the override if there is one, else the dynamic fee as stored. -/
def getEffectiveFeeBps (env : Env contract) (w : World Address) : Call PairError (ℕ × Bool) := do
  let _ ← w.getPairState
  let feeState ← w.getFeeState
  match env.factory.getPairFeeOverride with
  | some (some overrideBps) =>
      if 0 < overrideBps then pure (overrideBps, true) else pure (feeState.computeFeeBps, false)
  | _ => pure (feeState.computeFeeBps, false)

omit [DecidableEq Address] in
/-- What the pair has counted of the protocol fees it forwarded, of token A and of token B. -/
def getProtocolFeeBalance (w : World Address) : ℤ × ℤ := (w.pair.protocolFeeA, w.pair.protocolFeeB)

end CoralSwap
