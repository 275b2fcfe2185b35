import CoralSwap.Pair.Liquidity
import CoralSwap.Pair.Swap
import CoralSwap.Router.Types

/-!
# The network behind the router

The contracts the router calls, where they are this repository's own: the registry of a factory, pairs,
and the standard tokens the pairs trade. A pair is called in its own world, which its tokens share with
all other pairs.
-/

namespace CoralSwap

open Host Host.Call

variable {Address : Type} [DecidableEq Address]

structure Network (Address : Type) where
  registry : Address → Address → Address → Option Address
  isPair : Address → Address → Bool
  feeToSetter : Address → Option Address
  pair : Address → Pair Address
  lp : Address → LpToken Address
  ledger : Address → Token Address

namespace Network

variable (net : Network Address)

omit [DecidableEq Address] in
/-- The world of the pair at `pair`, whose storage is `state`. -/
def world (pair : Address) (state : PairStorage Address) : World Address where
  pair := net.pair pair
  tokenA := net.ledger state.tokenA
  tokenB := net.ledger state.tokenB
  lp := net.lp pair

/-- The network after a call of a pair that has left the world `w`. -/
def settle (pair : Address) (state : PairStorage Address) (w : World Address) : Network Address :=
  { net with
    pair := Function.update net.pair pair w.pair
    lp := Function.update net.lp pair w.lp
    ledger := Function.update (Function.update net.ledger state.tokenA w.tokenA) state.tokenB w.tokenB }

/-- A call of a pair; every call the router makes fails on a pair that is not initialized. -/
def callPair {α : Type} (pair : Address) (call : World Address → Call PairError (World Address × α)) :
    Option (Network Address × α) := do
  let state ← (net.pair pair).pairState
  let (w', result) ← (call (net.world pair state)).toOption
  pure (net.settle pair state w', result)

def transfer (token src dst : Address) (amount : ℤ) : Option (Network Address) := do
  let moved ← (net.ledger token).transfer src dst amount
  pure { net with ledger := Function.update net.ledger token moved }

variable {net}

@[simp]
theorem settle_pair_self {pair : Address} {state : PairStorage Address} {w : World Address} :
    (net.settle pair state w).pair pair = w.pair := Function.update_self _ _ _

theorem settle_pair_of_ne {pair other : Address} {state : PairStorage Address} {w : World Address}
    (hne : other ≠ pair) : (net.settle pair state w).pair other = net.pair other :=
  Function.update_of_ne hne _ _

theorem callPair_eq_some {α : Type} {pair : Address}
    {call : World Address → Call PairError (World Address × α)} {net' : Network Address}
    {result : α} :
    net.callPair pair call = some (net', result) ↔ ∃ state w',
      (net.pair pair).pairState = some state ∧ call (net.world pair state) = .ok (w', result) ∧
        net' = net.settle pair state w' := by
  simp only [callPair, Option.bind_eq_bind, Option.bind_eq_some_iff, Option.pure_def,
    Option.some.injEq, Prod.exists, Prod.mk.injEq, toOption_eq_some]
  constructor
  · rintro ⟨state, hstate, w', _, hcall, rfl, rfl⟩
    exact ⟨state, w', hstate, hcall, rfl⟩
  · rintro ⟨state, w', hstate, hcall, rfl⟩
    exact ⟨state, hstate, w', result, hcall, rfl, rfl⟩

end Network

/-- The calls of the router in a network, where `envOf` is what each pair sees of the host. -/
def networkChain (envOf : (pair : Address) → Env pair) : Chain Address (Network Address) where
  getPair := fun net factory tokenA tokenB => some (net.registry factory tokenA tokenB)
  isPair := fun net factory pair => some (net.isPair factory pair)
  feeToSetter := fun net factory => some (net.feeToSetter factory)
  getReserves := fun net pair =>
    (net.pair pair).pairState.map fun state => (state.reserveA, state.reserveB)
  getEffectiveFeeBps := fun net pair => do
    let state ← (net.pair pair).pairState
    (getEffectiveFeeBps (envOf pair) (net.world pair state)).toOption
  swap := fun net pair amountAOut amountBOut dst => do
    let (net', _) ← net.callPair pair fun w => swap (envOf pair) w amountAOut amountBOut dst
    pure net'
  mint := fun net pair dst => net.callPair pair fun w => mint (envOf pair) w dst
  depositLp := fun net pair src amount => do
    let (net', _) ← net.callPair pair fun w => do
      let w' ← depositLp (envOf pair) w src amount
      pure (w', ())
    pure net'
  burn := fun net pair dst => net.callPair pair fun w => burn (envOf pair) w dst
  transfer := Network.transfer
  balance := fun net token who => some ((net.ledger token).balance who)

end CoralSwap
