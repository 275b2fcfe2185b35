import CoralSwap.Events.Pair
import CoralSwap.Proof.FlashGrowth

/-!
# What the log of a pair says of its reserves

The events of a call add up to what the call did to the reserves, apart from three things. The event of a loan
names the fees but not what the receiver left above them. A swap whose requested amount is negative, or whose
pair holds less than its reserves, infers no input where the balance falls short. So the log of a pair that
holds its reserves understates them by what loans left, and is exact where they left the fees alone. Each sync
makes up for what the log has missed.
-/

namespace CoralSwap

open Host Host.Call

/-! ### The reader -/

/-- What a reader of the events keeps: the reserves, and the outputs of the last swap. -/
structure PairIndex where
  reserveA : ℤ
  reserveB : ℤ
  amountAOut : ℤ
  amountBOut : ℤ
  deriving DecidableEq, Repr

namespace PairIndex

def add (index : PairIndex) (amountA amountB : ℤ) : PairIndex :=
  { index with reserveA := index.reserveA + amountA, reserveB := index.reserveB + amountB }

@[simp]
theorem add_reserveA (index : PairIndex) (amountA amountB : ℤ) :
    (index.add amountA amountB).reserveA = index.reserveA + amountA := rfl

@[simp]
theorem add_reserveB (index : PairIndex) (amountA amountB : ℤ) :
    (index.add amountA amountB).reserveB = index.reserveB + amountB := rfl

@[simp]
theorem add_nothing (index : PairIndex) : index.add 0 0 = index := by
  simp [add]

/-- Adds to the reserve of the token, and to the other. -/
def addSides (index : PairIndex) (isA : Bool) (amount other : ℤ) : PairIndex :=
  if isA then index.add amount other else index.add other amount

variable {Address : Type} [DecidableEq Address]

/-- Reads one event of a pair whose token A is known. The event of a one-token mint does not name the output of
its internal swap; the event of that swap is the one before. -/
def read (tokenA : Address) (index : PairIndex) : PairEvent Address → PairIndex
  | .swap _ _ _ amounts _ =>
      { index.add (amounts.amountAIn - amounts.amountAOut) (amounts.amountBIn - amounts.amountBOut) with
        amountAOut := amounts.amountAOut, amountBOut := amounts.amountBOut }
  | .mint _ amountA amountB => index.add amountA amountB
  | .burn _ amountA amountB _ => index.add (-amountA) (-amountB)
  | .sync reserveA reserveB => { index with reserveA, reserveB }
  | .burnSingleSide _ _ preferredToken totalOut => index.addSides (preferredToken = tokenA) (-totalOut) 0
  | .mintSingleSide _ tokenIn amountIn swapAmount _ =>
      let isA : Bool := tokenIn = tokenA
      index.addSides isA (amountIn - swapAmount) (if isA then index.amountBOut else index.amountAOut)
  | .staleThresholdUpdated _ => index
  | .protocolFeeCollected _ amountA amountB _ => index.add (-amountA) (-amountB)
  | .flashLoan _ _ _ feeA feeB _ => index.add feeA feeB

/-- The reader is right about the reserves of an initialised pair up to `R`. -/
structure Follows (R : ℤ → ℤ → Prop) (tokenA : Address) (index : PairIndex) (w : World Address) : Prop where
  tokenA : w.pair.pairState.map PairStorage.tokenA = some tokenA
  reserveA : R index.reserveA w.reserveA
  reserveB : R index.reserveB w.reserveB

end PairIndex

variable {Address : Type} [DecidableEq Address] {contract : Address}
variable {env : Env contract} {w w' : World Address} {index : PairIndex} {tokenA : Address}

/-! ### Swaps -/

/-- The reserve of one side of a swap moves by the input, the output and the protocol fee, where the balance
covers the reserve and what a negative request asks for. -/
theorem SideSettles.reserve_eq {feeBps : ℕ} {dst : Address} {reserve amountOut amountIn reserve' : ℤ}
    {before paid after : Token Address}
    (hside : SideSettles env feeBps dst reserve amountOut before paid after amountIn reserve')
    (hcovered : reserve - min amountOut 0 ≤ before.balance contract) :
    reserve' = reserve + (amountIn - amountOut) - env.protocolFee amountIn feeBps := by
  have hpaid := sub_max_le_balance_of_payOut hside.payout
  have hinput : amountIn = paid.balance contract - (reserve - amountOut) := by
    rw [hside.input]
    exact max_eq_left (by omega)
  have hsettled := hside.settled
  omega

/-- Reading what a swap forwarded takes it from the reserves. -/
theorem read_ofProtocolFee {event : SwapEvent} (hA : 0 ≤ event.amountAIn) (hB : 0 ≤ event.amountBIn) :
    (PairEvent.ofProtocolFee env event).foldl (PairIndex.read tokenA) index =
      index.add (-env.protocolFee event.amountAIn event.feeBps)
        (-env.protocolFee event.amountBIn event.feeBps) := by
  have hfeeA := protocolFee_nonneg env event.feeBps hA
  have hfeeB := protocolFee_nonneg env event.feeBps hB
  unfold PairEvent.ofProtocolFee
  cases hto : env.protocolFeeTo with
  | none => simp [Env.protocolFee, hto]
  | some feeTo =>
      by_cases hcollected : 0 < env.protocolFee event.amountAIn event.feeBps ∨
          0 < env.protocolFee event.amountBIn event.feeBps
      · simp only [if_pos hcollected]
        rfl
      · simp only [if_neg hcollected, List.foldl_nil]
        rw [not_or, not_lt, not_lt] at hcollected
        rw [le_antisymm hcollected.1 hfeeA, le_antisymm hcollected.2 hfeeB]
        simp

/-- The event of a swap names the outputs that were requested. -/
theorem outputs_of_swapInner (env : Env contract) (w : World Address) (amountAOut amountBOut : ℤ) (dst : Address) :
    Returns (fun result : World Address × SwapEvent =>
        result.2.amountAOut = amountAOut ∧ result.2.amountBOut = amountBOut)
      (swapInner env w amountAOut amountBOut dst) := by
  unfold swapInner
  repeat refine .bind fun _ => ?_
  exact .ret ⟨rfl, rfl⟩

theorem outputs_of_swap {amountAOut amountBOut : ℤ} {dst : Address} {event : SwapEvent}
    (hswap : swap env w amountAOut amountBOut dst = .ok (w', event)) :
    event.amountAOut = amountAOut ∧ event.amountBOut = amountBOut := by
  simp only [swap, bind_eq_ok, pure_eq_ok, Prod.mk.injEq] at hswap
  obtain ⟨held, -, -, -, ⟨_, event⟩, hinner, -, rfl⟩ := hswap
  exact outputs_of_swapInner _ _ _ _ _ _ hinner

/-- Reading the events of a swap moves the reserves as the swap does. -/
theorem read_ofSwap {amountAOut amountBOut : ℤ} {dst dst' : Address} {before after : PairStorage Address}
    {stored decayed : FeeState} {paidA paidB : Token Address} {event : SwapEvent}
    (hswap : SwapSettles env w amountAOut amountBOut dst before after stored decayed paidA paidB w' event)
    (houtputs : event.amountAOut = amountAOut ∧ event.amountBOut = amountBOut)
    (hA : before.reserveA - min amountAOut 0 ≤ w.tokenA.balance contract)
    (hB : before.reserveB - min amountBOut 0 ≤ w.tokenB.balance contract) (state : PairStorage Address) :
    (PairEvent.ofSwap env state dst' event).foldl (PairIndex.read tokenA) index =
      { index.add (after.reserveA - before.reserveA) (after.reserveB - before.reserveB) with
        amountAOut, amountBOut } := by
  have hsideA := hswap.sideA.reserve_eq hA
  have hsideB := hswap.sideB.reserve_eq hB
  rw [PairEvent.ofSwap, List.foldl_append,
    read_ofProtocolFee hswap.sideA.amountIn_nonneg hswap.sideB.amountIn_nonneg]
  simp only [List.foldl_cons, List.foldl_nil, PairIndex.read, PairIndex.add, houtputs.1, houtputs.2,
    PairIndex.mk.injEq, and_true]
  constructor <;> omega

/-! ### What the log misses -/

/-- The pair holds its reserves where a call infers what it was paid from the balances, and no output is
negative. -/
def Inferable (w : World Address) (call : PairCall contract) : Prop :=
  match call.2 with
  | .swap amountAOut amountBOut _ => Solvent contract w ∧ 0 ≤ amountAOut ∧ 0 ≤ amountBOut
  | .mintWithOneToken .. => Solvent contract w
  | .flashLoan .. => Solvent contract w
  | _ => True

/-- How the reserves after an accepted loan compare with the reserves before it and the fees. -/
def LoanLeaves (R : ℤ → ℤ → Prop) (w : World Address) (call : PairCall contract) : Prop :=
  match call.2 with
  | .flashLoan _ amountA amountB _ _ => ∀ w' feeA feeB, exec w call = .ok w' →
      flashFee amountA (loanFeeBps w) = .ok feeA → flashFee amountB (loanFeeBps w) = .ok feeB →
        R (w.reserveA + feeA) w'.reserveA ∧ R (w.reserveB + feeB) w'.reserveB
  | _ => True

theorem le_of_sideRepaid {receiver : Address} {amount reserve fee : ℤ} {t lent final : Token Address}
    (hsolvent : reserve ≤ t.balance contract) (hfee : flashFee amount (loanFeeBps w) = .ok fee)
    (hlend : lend t contract receiver amount = .ok lent)
    (hframe : lent.balance contract ≤ final.balance contract)
    (hrepaid : SideRepaid amount reserve fee (final.balance contract)) :
    reserve + fee ≤ final.balance contract := by
  by_cases hborrowed : 0 < amount
  · exact (hrepaid hborrowed).2
  · rw [flashFee_of_not_borrowed hborrowed hfee, add_zero]
    exact reserve_le_final hsolvent hfee hlend hframe hrepaid

/-- A loan leaves at least the fees in a pair that holds its reserves. -/
theorem loanLeaves_le {call : PairCall contract} (hcall : Inferable w call) : LoanLeaves (· ≤ ·) w call := by
  obtain ⟨env, op⟩ := call
  cases op with
  | flashLoan receiver amountA amountB dataLen callback =>
      rintro w' feeA feeB hexec hfeeA hfeeB
      by_cases hborrowed : amountA = 0 ∧ amountB = 0
      · obtain ⟨rfl, rfl⟩ := hborrowed
        obtain rfl := flashFee_of_not_borrowed (lt_irrefl _) hfeeA
        obtain rfl := flashFee_of_not_borrowed (lt_irrefl _) hfeeB
        have hsame := reserve_le_of_flashLoan hcall hexec
        rw [add_zero, add_zero]
        exact ⟨hsame true, hsame false⟩
      · obtain ⟨state, feeA', feeB', lentA, lentB, called, hgranted, rfl, -, hrepaid, rfl⟩ :=
          (flashLoan_eq_ok_iff hborrowed).mp hexec
        have hframe := outsideFrame_of_run contract (lentWorld w lentA lentB) callback.actions
        obtain ⟨hleA, hleB⟩ := (solvent_iff_of_pairState hgranted.pairState).mp hcall
        obtain rfl : feeA = feeA' := Except.ok.inj (hfeeA.symm.trans hgranted.feeA)
        obtain rfl : feeB = feeB' := Except.ok.inj (hfeeB.symm.trans hgranted.feeB)
        rw [World.reserveA_of_pairState hgranted.pairState, World.reserveB_of_pairState hgranted.pairState]
        exact ⟨le_of_sideRepaid hleA hfeeA hgranted.lendA hframe.balanceA hrepaid.sideA,
          le_of_sideRepaid hleB hfeeB hgranted.lendB hframe.balanceB hrepaid.sideB⟩
  | _ => trivial

/-! ### One call -/

section Step

variable {R : ℤ → ℤ → Prop}

omit [DecidableEq Address] in
/-- A call that moves the reserves by what is read, and keeps the tokens of the pair. -/
theorem PairIndex.Follows.shift (hshift : ∀ x y d, R x y → R (x + d) (y + d))
    (hfollows : Follows R tokenA index w) {before after : PairStorage Address}
    (hbefore : w.pair.pairState = some before) (hafter : w'.pair.pairState = some after)
    (htokenA : after.tokenA = before.tokenA) {index' : PairIndex}
    (hA : after.reserveA - before.reserveA = index'.reserveA - index.reserveA)
    (hB : after.reserveB - before.reserveB = index'.reserveB - index.reserveB) :
    Follows R tokenA index' w' := by
  obtain ⟨htoken, hreserveA, hreserveB⟩ := hfollows
  rw [World.reserveA_of_pairState hbefore] at hreserveA
  rw [World.reserveB_of_pairState hbefore] at hreserveB
  refine ⟨?_, ?_, ?_⟩
  · rw [← htoken, hbefore, hafter, Option.map_some, Option.map_some, htokenA]
  · rw [World.reserveA_of_pairState hafter]
    have hmoved := hshift _ _ (after.reserveA - before.reserveA) hreserveA
    rwa [add_sub_cancel, hA, add_sub_cancel] at hmoved
  · rw [World.reserveB_of_pairState hafter]
    have hmoved := hshift _ _ (after.reserveB - before.reserveB) hreserveB
    rwa [add_sub_cancel, hB, add_sub_cancel] at hmoved

omit [DecidableEq Address] in
theorem PairIndex.Follows.of_pairState (hfollows : Follows R tokenA index w)
    (hstate : w'.pair.pairState = w.pair.pairState) : Follows R tokenA index w' := by
  obtain ⟨htoken, hreserveA, hreserveB⟩ := hfollows
  refine ⟨?_, ?_, ?_⟩
  · rwa [hstate]
  · rwa [World.reserveA, hstate]
  · rwa [World.reserveB, hstate]

omit [DecidableEq Address] in
theorem publishes_of_pairState {state : PairStorage Address} (hstate : w.pair.pairState = some state)
    (events : PairStorage Address → List (PairEvent Address)) : w.publishes events = events state := by
  rw [World.publishes, hstate]

theorem follows_mint {dst : Address} {liquidity : ℤ} (hshift : ∀ x y d, R x y → R (x + d) (y + d))
    (hfollows : PairIndex.Follows R tokenA index w) (hmint : mint env w dst = .ok (w', liquidity)) :
    PairIndex.Follows R tokenA
      ((w.publishes fun state => [.ofMint w state contract dst]).foldl (PairIndex.read tokenA) index) w' := by
  obtain ⟨state, seeded, lp, hmint⟩ := mint_ok hmint
  rw [publishes_of_pairState hmint.pairState]
  have hstate := hmint.pairState
  obtain rfl := hmint.result
  refine hfollows.shift hshift hstate rfl ?_ ?_ ?_
  · rfl
  · exact (add_sub_cancel_left _ _).symm
  · exact (add_sub_cancel_left _ _).symm

theorem follows_burn {dst : Address} {amountA amountB : ℤ} (hshift : ∀ x y d, R x y → R (x + d) (y + d))
    (hfollows : PairIndex.Follows R tokenA index w) (hburn : burn env w dst = .ok (w', amountA, amountB)) :
    PairIndex.Follows R tokenA ([.burn dst amountA amountB dst].foldl (PairIndex.read tokenA) index) w' := by
  obtain ⟨state, burnLp, lp, paidA, paidB, hburn⟩ := burn_ok hburn
  have hstate := hburn.pairState
  obtain rfl := hburn.result
  refine hfollows.shift hshift hstate rfl ?_ ?_ ?_
  · rfl
  · show state.reserveA - amountA - state.reserveA = index.reserveA + -amountA - index.reserveA
    omega
  · show state.reserveB - amountB - state.reserveB = index.reserveB + -amountB - index.reserveB
    omega

theorem tokenSide_ok {state : PairStorage Address} {token : Address} {isA : Bool}
    (hside : tokenSide state token = .ok isA) : isA = decide (token = state.tokenA) := by
  unfold tokenSide at hside
  by_cases htoken : token = state.tokenA
  · rw [if_pos htoken] at hside
    rw [← pure_eq_ok.mp hside, decide_eq_true htoken]
  · rw [if_neg htoken] at hside
    rw [decide_eq_false htoken]
    by_cases hother : token = state.tokenB
    · rw [if_pos hother] at hside
      exact (pure_eq_ok.mp hside).symm
    · rw [if_neg hother] at hside
      cases hside

theorem follows_burnSingleSide {dst preferredToken : Address} {lpAmount minAmountOut totalOut : ℤ}
    (hshift : ∀ x y d, R x y → R (x + d) (y + d)) (hfollows : PairIndex.Follows R tokenA index w)
    (hburn : burnSingleSide env w dst lpAmount preferredToken minAmountOut = .ok (w', totalOut)) :
    PairIndex.Follows R tokenA
      ([.burnSingleSide dst lpAmount preferredToken totalOut].foldl (PairIndex.read tokenA) index) w' := by
  obtain ⟨state, stored, isA, lp, sharePreferred, shareUnwanted, swapOut, hburn⟩ := burnSingleSide_ok hburn
  have htokenA := hfollows.tokenA
  rw [hburn.pairState, Option.map_some, Option.some.injEq] at htokenA
  have hside := tokenSide_ok hburn.side
  have htotal := hburn.total
  rw [htokenA] at hside
  refine hfollows.shift hshift hburn.pairState (congrArg Pair.pairState hburn.pair') ?_ ?_ ?_
  · rfl
  · simp only [List.foldl_cons, List.foldl_nil, PairIndex.read, PairIndex.addSides, ← hside]
    cases isA
    · simp
    · simp only [if_true, PairIndex.add_reserveA]
      omega
  · simp only [List.foldl_cons, List.foldl_nil, PairIndex.read, PairIndex.addSides, ← hside]
    cases isA
    · simp only [Bool.false_eq_true, if_false, PairIndex.add_reserveB]
      omega
    · simp

theorem follows_swap {amountAOut amountBOut : ℤ} {dst : Address} {event : SwapEvent}
    (hshift : ∀ x y d, R x y → R (x + d) (y + d)) (hfollows : PairIndex.Follows R tokenA index w)
    (hsolvent : Solvent contract w) (hA : 0 ≤ amountAOut) (hB : 0 ≤ amountBOut)
    (hswap : swap env w amountAOut amountBOut dst = .ok (w', event)) :
    PairIndex.Follows R tokenA
      ((w.publishes fun state => PairEvent.ofSwap env state dst event).foldl (PairIndex.read tokenA) index) w' := by
  have houtputs := outputs_of_swap hswap
  obtain ⟨-, -, before, after, stored, decayed, paidA, paidB, hswap⟩ := swap_ok hswap
  obtain ⟨hleA, hleB⟩ := (solvent_iff_of_pairState hswap.pairState).mp hsolvent
  rw [publishes_of_pairState hswap.pairState, read_ofSwap hswap houtputs (by omega) (by omega)]
  refine hfollows.shift hshift hswap.pairState hswap.pairState' (by rw [hswap.storage]) ?_ ?_
  · exact (add_sub_cancel_left _ _).symm
  · exact (add_sub_cancel_left _ _).symm

/-- The swap that a one-token mint reports is the one it made. -/
theorem internalSwap_of_settles {dst tokenIn : Address} {amount minLpOut : ℤ} {state postSwap : PairStorage Address}
    {stored : FeeState} {isA : Bool} {pulled swapped : World Address} {event : SwapEvent} {lp : LpToken Address}
    {published : MintSingleSideEvent}
    (hmint : MintWithOneTokenSettles env w dst tokenIn amount minLpOut state stored isA pulled swapped event
      postSwap lp w' published) : internalSwap env w dst tokenIn amount published.swapOut = .ok event := by
  simp only [internalSwap, bind_eq_ok, World.acquireLock_eq_ok, World.getPairState_eq_ok, pure_eq_ok]
  exact ⟨_, ⟨hmint.unlocked, rfl⟩, state, hmint.pairState, isA, hmint.side, pulled, hmint.pull, (swapped, event),
    hmint.swap, rfl⟩

theorem outputs_of_swapIntoPair {isA : Bool} {swapOut : ℤ} {event : SwapEvent}
    (hswap : swapIntoPair env w isA swapOut = .ok (w', event)) :
    event.amountAOut = (if isA then 0 else swapOut) ∧ event.amountBOut = if isA then swapOut else 0 := by
  cases isA <;> exact outputs_of_swapInner _ _ _ _ _ _ hswap

/-- What a one-token mint pulls in adds to what the pair holds. -/
theorem solvent_of_moveToken {isA : Bool} {src : Address} {amount : ℤ} (hne : src ≠ contract)
    (hsolvent : Solvent contract w) (hmove : moveToken w isA src contract amount = .ok w') :
    Solvent contract w' := by
  obtain ⟨htransfer, hother, hpair, -⟩ := moveToken_ok hmove
  have hmoved := Token.balance_le_of_transfer htransfer hne.symm
  have hkept := congrArg (fun t => t.balance contract) hother
  cases isA
  · exact hsolvent.of_frame (by rw [hpair]) hkept.ge hmoved
  · exact hsolvent.of_frame (by rw [hpair]) hmoved hkept.ge

theorem follows_mintWithOneToken {dst tokenIn : Address} {amount minLpOut : ℤ} {published : MintSingleSideEvent}
    (hshift : ∀ x y d, R x y → R (x + d) (y + d)) (hfollows : PairIndex.Follows R tokenA index w)
    (hsolvent : Solvent contract w)
    (hmint : mintWithOneToken env w dst tokenIn amount minLpOut = .ok (w', published)) :
    PairIndex.Follows R tokenA
      ((w.publishes fun state => PairEvent.ofMintSingleSide env w state dst tokenIn amount published).foldl
        (PairIndex.read tokenA) index) w' := by
  obtain ⟨state, stored, isA, pulled, swapped, event, postSwap, lp, hmint⟩ := mintWithOneToken_ok hmint
  obtain ⟨before, after, _, _, _, _, hswap⟩ := swapIntoPair_ok hmint.swap
  obtain rfl : postSwap = after := Option.some.inj (hmint.postSwapState.symm.trans hswap.pairState')
  have hpulled : pulled.pair.pairState = some state := by
    rw [(moveToken_ok hmint.pull).2.2.1]
    exact hmint.pairState
  obtain rfl : state = before := Option.some.inj (hpulled.symm.trans hswap.pairState)
  have hheld : Solvent contract { w with pair := { w.pair with locked := true } } :=
    hsolvent.of_frame rfl le_rfl le_rfl
  obtain ⟨hleA, hleB⟩ := (solvent_iff_of_pairState hpulled).mp
    (solvent_of_moveToken (Env.ne_contract_of_auth hmint.authorised) hheld hmint.pull)
  have hout := hmint.swapOut_pos
  have hside := tokenSide_ok hmint.side
  have htokenA := hfollows.tokenA
  rw [hmint.pairState, Option.map_some, Option.some.injEq] at htokenA
  rw [htokenA] at hside
  have hstate := hmint.pairState
  rw [publishes_of_pairState hstate, PairEvent.ofMintSingleSide, internalSwap_of_settles hmint]
  dsimp only
  rw [List.foldl_append,
    read_ofSwap hswap (outputs_of_swapIntoPair hmint.swap) (by cases isA <;> simp <;> omega)
      (by cases isA <;> simp <;> omega)]
  obtain rfl := hmint.result
  refine hfollows.shift hshift hstate rfl ?_ ?_ ?_
  · show postSwap.tokenA = state.tokenA
    rw [hswap.storage]
  · simp only [List.foldl_cons, List.foldl_nil, PairIndex.read, PairIndex.addSides, PairIndex.add, ← hside]
    cases isA <;> simp <;> omega
  · simp only [List.foldl_cons, List.foldl_nil, PairIndex.read, PairIndex.addSides, PairIndex.add, ← hside]
    cases isA <;> simp <;> omega

theorem follows_flashLoan {receiver : Address} {amountA amountB : ℤ} {dataLen : ℕ} {callback : Callback Address}
    (hshift : ∀ x y d, R x y → R (x + d) (y + d)) (htrans : ∀ x y z, R x y → R y z → R x z)
    (hfollows : PairIndex.Follows R tokenA index w)
    (hleaves : LoanLeaves R w (env, .flashLoan receiver amountA amountB dataLen callback))
    (hloan : flashLoan env w receiver amountA amountB dataLen callback = .ok w') :
    PairIndex.Follows R tokenA
      ((PairEvent.ofFlashLoan w.pair.feeState receiver amountA amountB).foldl (PairIndex.read tokenA) index)
      w' := by
  have hcall : exec w (env, .flashLoan receiver amountA amountB dataLen callback) = .ok w' := hloan
  by_cases hborrowed : amountA = 0 ∧ amountB = 0
  · rw [PairEvent.ofFlashLoan, if_pos hborrowed]
    obtain ⟨rfl, rfl⟩ := hborrowed
    simp only [flashLoan, executeFlashLoan, bind_eq_ok, and_self, if_true, pure_eq_ok] at hloan
    obtain ⟨-, -, -, -, -, -, -, -, rfl⟩ := hloan
    exact hfollows
  · obtain ⟨state, feeA, feeB, lentA, lentB, called, hgranted, -, -, -, rfl⟩ :=
      (flashLoan_eq_ok_iff hborrowed).mp hloan
    obtain ⟨hleftA, hleftB⟩ := hleaves _ feeA feeB hcall hgranted.feeA hgranted.feeB
    have hevents : PairEvent.ofFlashLoan w.pair.feeState receiver amountA amountB =
        [.flashLoan receiver amountA amountB feeA feeB (loanFeeBps w)] := by
      have hfeeA := hgranted.feeA
      have hfeeB := hgranted.feeB
      unfold loanFeeBps at hfeeA hfeeB
      simp only [PairEvent.ofFlashLoan, if_neg hborrowed, hfeeA, hfeeB]
      rfl
    obtain ⟨htokenA, hreserveA, hreserveB⟩ := hfollows
    rw [hgranted.pairState] at htokenA
    rw [hevents]
    exact ⟨htokenA, htrans _ _ _ (hshift _ _ feeA hreserveA) hleftA,
      htrans _ _ _ (hshift _ _ feeB hreserveB) hleftB⟩

theorem follows_publish {op : Op Address} {events : List (PairEvent Address)} (hrefl : ∀ x, R x x)
    (hshift : ∀ x y d, R x y → R (x + d) (y + d)) (htrans : ∀ x y z, R x y → R y z → R x z)
    (hfollows : PairIndex.Follows R tokenA index w) (hcall : Inferable w (env, op))
    (hleaves : LoanLeaves R w (env, op)) (hpublish : publishPair w (env, op) = .ok (w', events)) :
    PairIndex.Follows R tokenA (events.foldl (PairIndex.read tokenA) index) w' := by
  cases op with
  | initializePair factory tokenA' tokenB lpToken =>
      obtain ⟨hinit, rfl⟩ := publishing_eq_ok.mp hpublish
      obtain ⟨hnone, -⟩ := initializePair_ok hinit
      have htokenA := hfollows.tokenA
      rw [hnone] at htokenA
      cases htokenA
  | mint dst =>
      rw [publishPair, reporting_eq_ok] at hpublish
      obtain ⟨liquidity, hmint, rfl⟩ := hpublish
      exact follows_mint hshift hfollows hmint
  | mintWithOneToken dst tokenIn amount minLpOut =>
      rw [publishPair, reporting_eq_ok] at hpublish
      obtain ⟨published, hmint, rfl⟩ := hpublish
      exact follows_mintWithOneToken hshift hfollows hcall hmint
  | depositLp src amount =>
      obtain ⟨hdeposit, rfl⟩ := publishing_eq_ok.mp hpublish
      obtain ⟨lp, hdeposit⟩ := depositLp_ok hdeposit
      exact hfollows.of_pairState (by rw [hdeposit.result])
  | burn dst =>
      rw [publishPair, reporting_eq_ok] at hpublish
      obtain ⟨⟨amountA, amountB⟩, hburn, rfl⟩ := hpublish
      exact follows_burn hshift hfollows hburn
  | burnSingleSide dst lpAmount preferredToken minAmountOut =>
      rw [publishPair, reporting_eq_ok] at hpublish
      obtain ⟨totalOut, hburn, rfl⟩ := hpublish
      exact follows_burnSingleSide hshift hfollows hburn
  | swap amountAOut amountBOut dst =>
      rw [publishPair, reporting_eq_ok] at hpublish
      obtain ⟨event, hswap, rfl⟩ := hpublish
      exact follows_swap hshift hfollows hcall.1 hcall.2.1 hcall.2.2 hswap
  | flashLoan receiver amountA amountB dataLen callback =>
      obtain ⟨hloan, rfl⟩ := publishing_eq_ok.mp hpublish
      exact follows_flashLoan hshift htrans hfollows hleaves hloan
  | sync =>
      obtain ⟨hsync, rfl⟩ := publishing_eq_ok.mp hpublish
      obtain ⟨state, hstate, rfl⟩ := sync_ok hsync
      have htokenA := hfollows.tokenA
      rw [hstate] at htokenA
      exact ⟨htokenA, hrefl _, hrefl _⟩
  | setStaleThreshold newThreshold =>
      obtain ⟨hset, rfl⟩ := publishing_eq_ok.mp hpublish
      obtain ⟨fs, -, rfl⟩ := setStaleThreshold_ok hset
      exact hfollows.of_pairState rfl
  | setLpTokenPaused paused =>
      obtain ⟨hset, rfl⟩ := publishing_eq_ok.mp hpublish
      obtain ⟨lp, -, rfl⟩ := setLpTokenPaused_ok hset
      exact hfollows.of_pairState rfl
  | setFrozen frozen =>
      obtain ⟨hset, rfl⟩ := publishing_eq_ok.mp hpublish
      obtain rfl := setFrozen_ok hset
      exact hfollows.of_pairState rfl
  | external action =>
      obtain ⟨hact, rfl⟩ := publishing_eq_ok.mp hpublish
      have hframe := outsideFrame_of_external (external_ok hact)
      exact hfollows.of_pairState (by rw [hframe.pair])

end Step

/-! ### Runs -/

section Runs

variable {R : ℤ → ℤ → Prop} {calls : List (PairCall contract)}

/-- After a sync a reader is right, whatever it had read before. -/
theorem follows_log_sync (hrefl : ∀ x, R x x) (hshift : ∀ x y d, R x y → R (x + d) (y + d))
    (htrans : ∀ x y z, R x y → R y z → R x z)
    (hstate : w.pair.pairState.map PairStorage.tokenA = some tokenA)
    (hsync : (pairMachine contract).Accepts w (env, .sync))
    (hcalls : (pairMachine contract).Along (fun w call => Inferable w call ∧ LoanLeaves R w call)
      ((pairMachine contract).step w (env, .sync)) calls) (index : PairIndex) :
    PairIndex.Follows R tokenA
      (((pairJournal contract).log w ((env, .sync) :: calls)).foldl (PairIndex.read tokenA) index)
      ((pairMachine contract).run w ((env, .sync) :: calls)) := by
  obtain ⟨synced, hexec⟩ := hsync
  have hpublish : (pairJournal contract).publish w (env, .sync) =
      .ok (synced, [.sync (w.tokenA.balance contract) (w.tokenB.balance contract)]) :=
    publishing_eq_ok.mpr ⟨hexec, rfl⟩
  rw [Journal.step_of_publish hpublish] at hcalls
  rw [Journal.log_cons_of_publish hpublish, Machine.run_cons, Journal.step_of_publish hpublish, List.foldl_append]
  refine Journal.read_log (PairIndex.Follows R tokenA) ?_ ?_ hcalls
  · rintro index w ⟨env, op⟩ w' events hfollows ⟨hcall, hleaves⟩ hpublish
    exact follows_publish hrefl hshift htrans hfollows hcall hleaves hpublish
  · obtain ⟨state, hbefore, rfl⟩ := sync_ok hexec
    rw [hbefore] at hstate
    exact ⟨hstate, hrefl _, hrefl _⟩

/-- **The log never overstates the reserves.** From a sync on, as long as the pair holds its reserves where
calls infer what they were paid, and no swap asks for a negative amount, what a reader of the log has is at most
the reserves, whatever the receivers of loans do and whatever the reader had before. -/
theorem log_le_reserves (hstate : w.pair.pairState.map PairStorage.tokenA = some tokenA)
    (hsync : (pairMachine contract).Accepts w (env, .sync))
    (hcalls : (pairMachine contract).Along Inferable ((pairMachine contract).step w (env, .sync)) calls)
    (index : PairIndex) :
    let read :=
      ((pairJournal contract).log w ((env, .sync) :: calls)).foldl (PairIndex.read tokenA) index
    let after := (pairMachine contract).run w ((env, .sync) :: calls)
    read.reserveA ≤ after.reserveA ∧ read.reserveB ≤ after.reserveB := by
  have hboth := hcalls.mono fun w call hcall => And.intro hcall (loanLeaves_le hcall)
  obtain ⟨-, hA, hB⟩ := follows_log_sync le_refl (fun x y d hle => add_le_add_left hle d)
    (fun x y z => le_trans) hstate hsync hboth index
  exact ⟨hA, hB⟩

/-- A reader who knew nothing follows a synced pool through a swap. -/
theorem log_le_reserves_opened :
    let env : Env 0 := Env.quiet 0 1 1 none
    let calls : List (PairCall 0) := [(env, .external (.transferA 1 0 1000)), (env, .swap 0 900 1)]
    let read := ((pairJournal 0).log (openedPool env 20000 20000) ((env, .sync) :: calls)).foldl
      (PairIndex.read 10) ⟨0, 0, 0, 0⟩
    let after := (pairMachine 0).run (openedPool env 20000 20000) ((env, .sync) :: calls)
    read.reserveA ≤ after.reserveA ∧ read.reserveB ≤ after.reserveB := by
  refine log_le_reserves ?_ ?_ ?_ _
  · decide +kernel
  · exact ⟨_, Machine.exec_of_isOk (by decide +kernel)⟩
  · exact ⟨trivial, ⟨⟨by decide +kernel, by decide +kernel⟩, by decide, by decide⟩, trivial⟩

/-- **The log is exact** where every loan also leaves no more than the reserves and the fees. -/
theorem log_rebuilds_reserves (hstate : w.pair.pairState.map PairStorage.tokenA = some tokenA)
    (hsync : (pairMachine contract).Accepts w (env, .sync))
    (hcalls : (pairMachine contract).Along (fun w call => Inferable w call ∧ LoanLeaves (· = ·) w call)
      ((pairMachine contract).step w (env, .sync)) calls) (index : PairIndex) :
    let read :=
      ((pairJournal contract).log w ((env, .sync) :: calls)).foldl (PairIndex.read tokenA) index
    let after := (pairMachine contract).run w ((env, .sync) :: calls)
    read.reserveA = after.reserveA ∧ read.reserveB = after.reserveB := by
  obtain ⟨-, hA, hB⟩ := follows_log_sync (fun _ => rfl) (fun x y d heq => congrArg (· + d) heq)
    (fun x y z => Eq.trans) hstate hsync hcalls index
  exact ⟨hA, hB⟩

/-- The events of a one-token mint, from which the output of its internal swap is read. -/
theorem log_rebuilds_reserves_opened :
    let env : Env 0 := Env.quiet 0 1 1 none
    let calls : List (PairCall 0) := [(env, .mintWithOneToken 1 10 10000 1)]
    let read := ((pairJournal 0).log (openedPool env 20000 20000) ((env, .sync) :: calls)).foldl
      (PairIndex.read 10) ⟨0, 0, 0, 0⟩
    let after := (pairMachine 0).run (openedPool env 20000 20000) ((env, .sync) :: calls)
    read.reserveA = after.reserveA ∧ read.reserveB = after.reserveB := by
  refine log_rebuilds_reserves ?_ ?_ ?_ _
  · decide +kernel
  · exact ⟨_, Machine.exec_of_isOk (by decide +kernel)⟩
  · exact ⟨⟨⟨by decide +kernel, by decide +kernel⟩, trivial⟩, trivial⟩

end Runs

end CoralSwap
