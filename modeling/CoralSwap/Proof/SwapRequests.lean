import CoralSwap.Proof.PairEffects

/-!
# The swaps inside a call

Two entry points run the body of a swap: `swap` itself, and the one-token mint on what it has pulled in
and sized. What such a swap starts from, what it takes in, and what the protocol takes of it can be read
off the state before the call.
-/

namespace CoralSwap

open Host Host.Call

variable {Address : Type} [DecidableEq Address]

/-- The state inside a call that has taken the lock. -/
def World.held (w : World Address) : World Address := { w with pair := { w.pair with locked := true } }

structure SwapRequest (Address : Type) where
  start : World Address
  amountAOut : ℤ
  amountBOut : ℤ
  dst : Address

namespace SwapRequest

def Runs {contract : Address} (env : Env contract) (request : SwapRequest Address)
    (swapped : World Address) (event : SwapEvent) : Prop :=
  swapInner env request.start request.amountAOut request.amountBOut request.dst = .ok (swapped, event)

omit [DecidableEq Address] in
def amountOut (request : SwapRequest Address) (isA : Bool) : ℤ :=
  if isA then request.amountAOut else request.amountBOut

/-- What the swap takes in on one side: the surplus of the balance that is left. -/
def amountIn (contract : Address) (request : SwapRequest Address) (isA : Bool) : ℤ :=
  max (heldAfter contract request.dst (request.start.token isA) (request.amountOut isA) -
    (request.start.reserve isA - request.amountOut isA)) 0

end SwapRequest

/-- The swap that a call runs, if it gets that far. -/
def swapRequest (contract : Address) (w : World Address) : Op Address → Option (SwapRequest Address)
  | .swap amountAOut amountBOut dst => some ⟨w.held, amountAOut, amountBOut, dst⟩
  | .mintWithOneToken dst tokenIn amount _ => do
      let state ← w.pair.pairState
      let feeState ← w.pair.feeState
      let isA ← (tokenSide state tokenIn).toOption
      let feeBps := mintWithOneTokenFeeBps feeState
      let swapIn ← (computeSwapInForSingleSide (state.reserve isA) amount feeBps).toOption
      let pulled ← (moveToken w.held isA dst contract amount).toOption
      let swapOut ← (getAmountOut swapIn (state.reserve isA) (state.reserve (!isA)) feeBps).toOption
      some ⟨pulled, if isA then 0 else swapOut, if isA then swapOut else 0, contract⟩
  | _ => none

variable {contract : Address} {env : Env contract} {w w' : World Address} {op : Op Address}

/-- The storage of the pair is not touched before the swap, but for the lock. -/
theorem pair_of_swapRequest {request : SwapRequest Address}
    (hrequest : swapRequest contract w op = some request) : request.start.pair = w.held.pair := by
  cases op with
  | swap amountAOut amountBOut dst =>
      obtain rfl := Option.some.inj hrequest
      rfl
  | mintWithOneToken dst tokenIn amount minLpOut =>
      simp only [swapRequest, Option.bind_eq_bind, Option.bind_eq_some_iff, toOption_eq_some] at hrequest
      obtain ⟨_, -, _, -, isA, -, _, -, pulled, hpull, _, -, hresult⟩ := hrequest
      obtain rfl := Option.some.inj hresult
      exact (moveToken_ok hpull).2.2.1
  | _ => cases hrequest

/-- `w'` holds the protocol-fee counters of `w`. -/
structure SameCounters (w w' : World Address) : Prop where
  protocolFeeA : w'.pair.protocolFeeA = w.pair.protocolFeeA
  protocolFeeB : w'.pair.protocolFeeB = w.pair.protocolFeeB

/-- An accepted call runs the swap it requests, and counts the protocol's part there and nowhere else. -/
inductive SwapsWithin (env : Env contract) (w w' : World Address) (op : Op Address) : Prop where
  | none (hrequest : swapRequest contract w op = none) (hcounters : SameCounters w w')
  | some {request : SwapRequest Address} {swapped : World Address} {event : SwapEvent}
      (hrequest : swapRequest contract w op = some request)
      (hruns : request.Runs env swapped event) (hcounters : SameCounters swapped w')

theorem swapRequest_of_mintWithOneToken {dst tokenIn : Address} {amount minLpOut : ℤ}
    {state : PairStorage Address} {stored : FeeState} {isA : Bool} {pulled swapped : World Address}
    {event : SwapEvent} {postSwap : PairStorage Address} {lp : LpToken Address}
    {published : MintSingleSideEvent}
    (hmint : MintWithOneTokenSettles env w dst tokenIn amount minLpOut state stored isA pulled swapped
      event postSwap lp w' published) :
    swapRequest contract w (.mintWithOneToken dst tokenIn amount minLpOut) =
      some ⟨pulled, if isA then 0 else published.swapOut, if isA then published.swapOut else 0,
        contract⟩ := by
  have hpull : moveToken w.held isA dst contract amount = .ok pulled := hmint.pull
  simp only [swapRequest, hmint.pairState, hmint.feeState, hmint.side, hmint.sized, hpull,
    getAmountOut_eq_ok.mpr hmint.quoted, Except.toOption, Option.bind_eq_bind, Option.bind_some]

theorem swapsWithin_of_swap {amountAOut amountBOut : ℤ} {dst : Address}
    (hexec : exec w (env, .swap amountAOut amountBOut dst) = .ok w') :
    SwapsWithin env w w' (.swap amountAOut amountBOut dst) := by
  simp only [exec, swap, bind_eq_ok, World.acquireLock_eq_ok, pure_eq_ok] at hexec
  obtain ⟨⟨_, _⟩, ⟨_, ⟨-, rfl⟩, _, -, ⟨swapped, event⟩, hswap, hresult⟩, rfl⟩ := hexec
  cases hresult
  exact .some rfl hswap ⟨rfl, rfl⟩

theorem swapsWithin_of_mintWithOneToken {dst tokenIn : Address} {amount minLpOut : ℤ}
    {state : PairStorage Address} {stored : FeeState} {isA : Bool} {pulled swapped : World Address}
    {event : SwapEvent} {postSwap : PairStorage Address} {lp : LpToken Address}
    {published : MintSingleSideEvent}
    (hmint : MintWithOneTokenSettles env w dst tokenIn amount minLpOut state stored isA pulled swapped
      event postSwap lp w' published) :
    SwapsWithin env w w' (.mintWithOneToken dst tokenIn amount minLpOut) := by
  have hswap := hmint.swap
  have hruns : SwapRequest.Runs env ⟨pulled, if isA then 0 else published.swapOut,
      if isA then published.swapOut else 0, contract⟩ swapped event := by
    cases isA <;> exact hswap
  exact .some (swapRequest_of_mintWithOneToken hmint) hruns
    ⟨by rw [hmint.result], by rw [hmint.result]⟩

theorem swapsWithin_of_exec (hexec : exec w (env, op) = .ok w') : SwapsWithin env w w' op := by
  cases callEffect_of_exec hexec with
  | swap => exact swapsWithin_of_swap hexec
  | mintWithOneToken hmint => exact swapsWithin_of_mintWithOneToken hmint
  | initializePair _ _ hresult => exact .none rfl ⟨by rw [hresult], by rw [hresult]⟩
  | mint hmint => exact .none rfl ⟨by rw [hmint.result], by rw [hmint.result]⟩
  | depositLp hdeposit => exact .none rfl ⟨by rw [hdeposit.result], by rw [hdeposit.result]⟩
  | burn hburn => exact .none rfl ⟨by rw [hburn.result], by rw [hburn.result]⟩
  | burnSingleSide hburn => exact .none rfl ⟨by rw [hburn.pair'], by rw [hburn.pair']⟩
  | flashLoan hloan => exact .none rfl ⟨by rw [hloan.result], by rw [hloan.result]⟩
  | emptyFlashLoan hresult => exact .none rfl ⟨by rw [hresult], by rw [hresult]⟩
  | sync _ hresult => exact .none rfl ⟨by rw [hresult], by rw [hresult]⟩
  | setStaleThreshold _ hresult => exact .none rfl ⟨by rw [hresult]; rfl, by rw [hresult]; rfl⟩
  | setLpTokenPaused _ hresult => exact .none rfl ⟨by rw [hresult], by rw [hresult]⟩
  | setFrozen hresult => exact .none rfl ⟨by rw [hresult], by rw [hresult]⟩
  | external heffect =>
      have hframe := outsideFrame_of_external heffect
      exact .none rfl ⟨by rw [hframe.pair], by rw [hframe.pair]⟩

/-! ### What a swap takes in, and what the protocol takes of it -/

theorem amountIn_of_side {request : SwapRequest Address} (isA : Bool) {feeBps : ℕ} {amountIn reserve' : ℤ}
    {paid after : Token Address}
    (hside : SideSettles env feeBps request.dst (request.start.reserve isA) (request.amountOut isA)
      (request.start.token isA) paid after amountIn reserve') :
    amountIn = request.amountIn contract isA := by
  rw [hside.input, balance_of_payOut hside.payout]
  rfl

/-- What the events of a swap publish of its inputs and its rate. -/
structure Published (env : Env contract) (request : SwapRequest Address) (event : SwapEvent) : Prop where
  amountAIn : event.amountAIn = request.amountIn contract true
  amountBIn : event.amountBIn = request.amountIn contract false
  feeBps : chargedFeeBps env request.start = .ok event.feeBps

theorem SwapRequest.Runs.published {request : SwapRequest Address} {swapped : World Address}
    {event : SwapEvent} (hruns : request.Runs env swapped event) : Published env request event := by
  obtain ⟨before, after, _, _, _, _, hswap⟩ := swapInner_ok hruns
  have hsideA := hswap.sideA
  have hsideB := hswap.sideB
  rw [← World.reserveA_of_pairState hswap.pairState] at hsideA
  rw [← World.reserveB_of_pairState hswap.pairState] at hsideB
  exact ⟨amountIn_of_side true hsideA, amountIn_of_side false hsideB,
    chargedFeeBps_of_swap hswap⟩

/-- What the protocol takes of one token in a call, from the state before it. -/
def feesTaken (env : Env contract) (w : World Address) (op : Op Address) (isA : Bool) : ℤ :=
  match swapRequest contract w op, (chargedFeeBps env w).toOption with
  | some request, some feeBps => env.protocolFee (request.amountIn contract isA) feeBps
  | _, _ => 0

theorem feesTaken_of_runs {request : SwapRequest Address} {swapped : World Address} {event : SwapEvent}
    (hrequest : swapRequest contract w op = some request) (hruns : request.Runs env swapped event) :
    env.protocolFee event.amountAIn event.feeBps = feesTaken env w op true ∧
      env.protocolFee event.amountBIn event.feeBps = feesTaken env w op false := by
  have hpublished := hruns.published
  have hrate : chargedFeeBps env w = .ok event.feeBps := by
    rw [← hpublished.feeBps, chargedFeeBps, chargedFeeBps, World.getFeeState, World.getFeeState,
      pair_of_swapRequest hrequest]
    rfl
  unfold feesTaken
  rw [hrequest, hrate, hpublished.amountAIn, hpublished.amountBIn]
  exact ⟨rfl, rfl⟩

theorem feesTaken_nonneg (env : Env contract) (w : World Address) (op : Op Address) (isA : Bool) :
    0 ≤ feesTaken env w op isA := by
  unfold feesTaken
  split
  · exact protocolFee_nonneg env _ (le_max_right _ _)
  · exact le_rfl

theorem protocolFees_of_swapInner {swapped : World Address} {amountAOut amountBOut : ℤ} {dst : Address}
    {event : SwapEvent} (hswap : swapInner env w amountAOut amountBOut dst = .ok (swapped, event)) :
    swapped.pair.protocolFeeA =
        (if 0 < env.protocolFee event.amountAIn event.feeBps ∨
            0 < env.protocolFee event.amountBIn event.feeBps then
          i128.saturatingAdd w.pair.protocolFeeA (env.protocolFee event.amountAIn event.feeBps)
        else w.pair.protocolFeeA) ∧
      swapped.pair.protocolFeeB =
        if 0 < env.protocolFee event.amountAIn event.feeBps ∨
            0 < env.protocolFee event.amountBIn event.feeBps then
          i128.saturatingAdd w.pair.protocolFeeB (env.protocolFee event.amountBIn event.feeBps)
        else w.pair.protocolFeeB := by
  obtain ⟨state, fs, hpair⟩ := swapInner_writesPair env w amountAOut amountBOut dst _ hswap
  rw [hpair]
  exact ⟨rfl, rfl⟩

end CoralSwap
