import CoralSwap.Proof.Pools
import CoralSwap.Proof.TokenMoves
import CoralSwap.Router.System

/-!
# What a pair sees of the exchange

A pair sees its own storage, its LP token and the ledgers of its two tokens, which it shares with everybody else.
Whatever the other contracts do is a sequence of transfers to it, which it does not send. So while the exchange
evolves, each pair goes through a run of its own, interleaved with actions of third parties.
-/

namespace CoralSwap.System

open Host Host.Call

variable {Address : Type} [LinearOrder Address] {router pair : Address}

/-- What the pair at `pair` sees of the network when it trades `tokenA` and `tokenB`. -/
def view (net : Network Address) (pair tokenA tokenB : Address) : World Address where
  pair := net.pair pair
  tokenA := net.ledger tokenA
  tokenB := net.ledger tokenB
  lp := net.lp pair

/-! ### Sequences of steps a pair sees -/

/-- Third parties lead the pair's world from `w` to `w'`. -/
def SeenOutside (pair : Address) (w w' : World Address) : Prop :=
  ∃ actions : List (External Address), (externalMachine pair).run w actions = w'

/-- Third parties and calls of the pair `made` meanwhile lead its world from `w` to `w'`. -/
def Seen (made : PairCall pair → Prop) (w w' : World Address) : Prop :=
  ∃ calls : List (PairCall pair), (∀ call ∈ calls, (∃ action, call.2 = .external action) ∨ made call) ∧
    (pairMachine pair).run w calls = w'

section

variable {made : PairCall pair → Prop} {sends : Address → Prop} {w w' w'' : World Address}

theorem SeenOutside.refl : SeenOutside pair w w := ⟨[], rfl⟩

theorem SeenOutside.trans (hfirst : SeenOutside pair w w') (hsecond : SeenOutside pair w' w'') :
    SeenOutside pair w w'' := by
  obtain ⟨first, rfl⟩ := hfirst
  obtain ⟨second, rfl⟩ := hsecond
  exact ⟨first ++ second, Machine.run_append _ _ _⟩

theorem SeenOutside.action {action : External Address} (hexec : action.exec pair w = .ok w') :
    SeenOutside pair w w' :=
  ⟨[action], Machine.step_of_exec_ok (m := externalMachine pair) hexec⟩

theorem SeenOutside.pair_eq (hseen : SeenOutside pair w w') : w'.pair = w.pair := by
  obtain ⟨actions, rfl⟩ := hseen
  exact (outsideFrame_of_run pair w actions).pair

theorem Seen.refl : Seen made w w := ⟨[], by simp, rfl⟩

theorem Seen.trans (hfirst : Seen made w w') (hsecond : Seen made w' w'') : Seen made w w'' := by
  obtain ⟨first, hfirstMade, rfl⟩ := hfirst
  obtain ⟨second, hsecondMade, rfl⟩ := hsecond
  refine ⟨first ++ second, fun call hcall => ?_, Machine.run_append _ _ _⟩
  rcases List.mem_append.mp hcall with hcall | hcall
  · exact hfirstMade call hcall
  · exact hsecondMade call hcall

theorem Seen.call {call : PairCall pair} (hmade : made call) (hexec : CoralSwap.exec w call = .ok w') :
    Seen made w w' := by
  refine ⟨[call], fun other hother => ?_, Machine.step_of_exec_ok (m := pairMachine pair) hexec⟩
  rw [List.mem_singleton.mp hother]
  exact Or.inr hmade

/-- What third parties do is part of the pair's own runs. -/
theorem SeenOutside.seen (env : Env pair) (hseen : SeenOutside pair w w') : Seen made w w' := by
  obtain ⟨actions, rfl⟩ := hseen
  refine ⟨actions.map fun action => (env, .external action), fun call hcall => ?_, ?_⟩
  · obtain ⟨action, -, rfl⟩ := List.mem_map.mp hcall
    exact Or.inl ⟨action, rfl⟩
  · exact List.foldl_map

theorem seenOutside_of_movesA {t : Token Address} (hne : ∀ who, sends who → who ≠ pair)
    (hmoves : Token.Moves sends w.tokenA t) : SeenOutside pair w { w with tokenA := t } := by
  induction hmoves with
  | refl => exact .refl
  | tail _ hsent ih =>
      obtain ⟨src, dst, amount, hsends, htransfer⟩ := hsent
      refine ih.trans (.action (?_ : (External.transferA src dst amount).exec pair _ = _))
      simp only [External.exec, require, if_pos (hne src hsends), htransfer]
      rfl

theorem seenOutside_of_movesB {t : Token Address} (hne : ∀ who, sends who → who ≠ pair)
    (hmoves : Token.Moves sends w.tokenB t) : SeenOutside pair w { w with tokenB := t } := by
  induction hmoves with
  | refl => exact .refl
  | tail _ hsent ih =>
      obtain ⟨src, dst, amount, hsends, htransfer⟩ := hsent
      refine ih.trans (.action (?_ : (External.transferB src dst amount).exec pair _ = _))
      simp only [External.exec, require, if_pos (hne src hsends), htransfer]
      rfl

/-- Transfers the pair does not send are actions of third parties. -/
theorem seenOutside_of_moves (hne : ∀ who, sends who → who ≠ pair) (hmoves : WorldMoves sends w w')
    (hpair : w'.pair = w.pair) (hlp : w'.lp = w.lp) : SeenOutside pair w w' := by
  have hfirst := seenOutside_of_movesA hne hmoves.tokenA
  have hsecond := seenOutside_of_movesB (w := { w with tokenA := w'.tokenA }) hne hmoves.tokenB
  have hresult : { w with tokenA := w'.tokenA, tokenB := w'.tokenB } = w' := by
    rw [← hpair, ← hlp]
  rw [← hresult]
  exact hfirst.trans hsecond

/-- The pair stays what it is. -/
theorem Seen.identity {state : PairStorage Address} (hstate : w.pair.pairState = some state)
    (hseen : Seen made w w') : ∃ state', w'.pair.pairState = some state' ∧ SameIdentity state state' := by
  obtain ⟨calls, -, rfl⟩ := hseen
  refine Machine.run_invariant_all (m := pairMachine pair)
    (I := fun w => ∃ state', w.pair.pairState = some state' ∧ SameIdentity state state') ?_
    ⟨state, hstate, rfl, rfl, rfl, rfl⟩ calls
  rintro before call after ⟨middle, hmiddle, hsame⟩ hexec
  obtain ⟨state', hstate', hsame'⟩ := identity_of_exec hmiddle hexec
  exact ⟨state', hstate', hsame'.factory.trans hsame.factory, hsame'.tokenA.trans hsame.tokenA,
    hsame'.tokenB.trans hsame.tokenB, hsame'.lpToken.trans hsame.lpToken⟩

end

/-! ### Evolution -/

/-- The network goes from `net` to `net'`: only who `may` sends tokens, a pair that waits for the receiver of its
flash loan only sees third parties, and every other one a run of its own with the calls `made` of it. -/
structure Evolution (may : Address → Prop) (made : (pair : Address) → PairCall pair → Prop)
    (running : List Address) (net net' : Network Address) : Prop where
  pools : ∀ who, (net'.pair who).pairState.isSome = (net.pair who).pairState.isSome
  moves : ∀ token, Token.Moves may (net.ledger token) (net'.ledger token)
  waiting : ∀ pair ∈ running, (net.pair pair).pairState.isSome = true → (net.pair pair).locked = true →
    ∀ tokenA tokenB, SeenOutside pair (view net pair tokenA tokenB) (view net' pair tokenA tokenB)
  idle : ∀ pair ∉ running, ∀ state, (net.pair pair).pairState = some state → state.tokenA ≠ state.tokenB →
    Seen (made pair) (net.world pair state) (view net' pair state.tokenA state.tokenB)

namespace Evolution

variable {may may' : Address → Prop} {made : (pair : Address) → PairCall pair → Prop} {running : List Address}
variable {net net' net'' : Network Address}

theorem refl : Evolution may made running net net :=
  ⟨fun _ => rfl, fun _ => .refl, fun _ _ _ _ _ _ => .refl, fun _ _ _ _ _ => .refl⟩

theorem trans (hfirst : Evolution may made running net net') (hsecond : Evolution may made running net' net'') :
    Evolution may made running net net'' := by
  refine ⟨fun who => (hsecond.pools who).trans (hfirst.pools who),
    fun token => (hfirst.moves token).trans (hsecond.moves token), ?_, ?_⟩
  · intro pair hrunning hpool hlocked tokenA tokenB
    have hseen := hfirst.waiting pair hrunning hpool hlocked tokenA tokenB
    have hpair : net'.pair pair = net.pair pair := hseen.pair_eq
    refine hseen.trans (hsecond.waiting pair hrunning ?_ ?_ tokenA tokenB)
    · rwa [hpair]
    · rwa [hpair]
  · intro pair hidle state hstate hne
    have hseen := hfirst.idle pair hidle state hstate hne
    obtain ⟨state', hstate', hsame⟩ := hseen.identity hstate
    have hnext := hsecond.idle pair hidle state' hstate' (by rwa [hsame.tokenA, hsame.tokenB])
    change Seen _ (view net' pair state'.tokenA state'.tokenB) (view net'' pair state'.tokenA state'.tokenB) at hnext
    rw [hsame.tokenA, hsame.tokenB] at hnext
    exact hseen.trans hnext

/-- A step of others, which the pairs see as transfers. -/
theorem of_outside (envOf : (pair : Address) → Env pair)
    (hpools : ∀ who, (net'.pair who).pairState.isSome = (net.pair who).pairState.isSome)
    (hmoves : ∀ token, Token.Moves may (net.ledger token) (net'.ledger token))
    (hseen : ∀ pair, (net.pair pair).pairState.isSome = true → ∀ tokenA tokenB,
      SeenOutside pair (view net pair tokenA tokenB) (view net' pair tokenA tokenB)) :
    Evolution may made running net net' := by
  refine ⟨hpools, hmoves, fun pair _ hpool _ => hseen pair hpool, fun pair _ state hstate _ => ?_⟩
  exact (hseen pair (by rw [hstate]; rfl) state.tokenA state.tokenB).seen (envOf pair)

theorem of_transfer {token src dst : Address} {amount : ℤ} (envOf : (pair : Address) → Env pair) (hmay : may src)
    (hsrc : (net.pair src).pairState = none) (htransfer : net.transfer token src dst amount = some net') :
    Evolution may made running net net' := by
  simp only [Network.transfer, Option.bind_eq_bind, Option.bind_eq_some_iff, Option.pure_def,
    Option.some.injEq] at htransfer
  obtain ⟨moved, hmoved, rfl⟩ := htransfer
  have hledger : ∀ sends : Address → Prop, sends src → ∀ other,
      Token.Moves sends (net.ledger other) (Function.update net.ledger token moved other) := by
    intro sends hsends other
    by_cases hother : other = token
    · subst hother
      rw [Function.update_self]
      exact .transfer hsends hmoved
    · rw [Function.update_of_ne hother]
  refine of_outside envOf (fun _ => rfl) (hledger may hmay) fun pair hpool tokenA tokenB => ?_
  have hmoves : WorldMoves (· = src) (view net pair tokenA tokenB)
      (view { net with ledger := Function.update net.ledger token moved } pair tokenA tokenB) :=
    ⟨hledger (· = src) rfl tokenA, hledger (· = src) rfl tokenB⟩
  refine seenOutside_of_moves ?_ hmoves rfl rfl
  rintro who rfl rfl
  rw [hsrc] at hpool
  cases hpool

end Evolution

/-! ### A call of a pair -/

section Settle

variable {net : Network Address} {sends : Address → Prop} {state : PairStorage Address} {w : World Address}

theorem ledger_of_settle (hmoves : WorldMoves sends (net.world pair state) w) (token : Address) :
    Token.Moves sends (net.ledger token) ((net.settle pair state w).ledger token) := by
  change Token.Moves sends _ (Function.update (Function.update net.ledger _ _) _ _ token)
  by_cases hB : token = state.tokenB
  · subst hB
    rw [Function.update_self]
    exact hmoves.tokenB
  · rw [Function.update_of_ne hB]
    by_cases hA : token = state.tokenA
    · subst hA
      rw [Function.update_self]
      exact hmoves.tokenA
    · rw [Function.update_of_ne hA]

theorem view_settle_self (hne : state.tokenA ≠ state.tokenB) :
    view (net.settle pair state w) pair state.tokenA state.tokenB = w := by
  simp [view, Network.settle, Function.update_of_ne hne]

/-- Another pair sees the transfers a pair has left behind. -/
theorem seenOutside_of_settle {other : Address} (hne : other ≠ pair) (hsends : ∀ who, sends who → who ≠ other)
    (hmoves : WorldMoves sends (net.world pair state) w) (tokenA tokenB : Address) :
    SeenOutside other (view net other tokenA tokenB) (view (net.settle pair state w) other tokenA tokenB) := by
  refine seenOutside_of_moves hsends ⟨ledger_of_settle hmoves tokenA, ledger_of_settle hmoves tokenB⟩ ?_ ?_
  · change (net.settle pair state w).pair other = net.pair other
    exact Network.settle_pair_of_ne hne
  · exact Function.update_of_ne hne _ _

theorem pools_of_settle (hpool : (net.pair pair).pairState.isSome = true) (hpair : w.pair.pairState.isSome = true)
    (who : Address) : ((net.settle pair state w).pair who).pairState.isSome = (net.pair who).pairState.isSome := by
  by_cases hwho : who = pair
  · subst hwho
    rw [Network.settle_pair_self, hpair, hpool]
  · rw [Network.settle_pair_of_ne hwho]

variable {may : Address → Prop} {made : (pair : Address) → PairCall pair → Prop} {running : List Address}

/-- **A call of a pair**, whose signers are not contracts and which hands over to nobody. -/
theorem Evolution.of_call {call : PairCall pair} (envOf : (pair : Address) → Env pair) (hmade : made pair call)
    (hself : may pair) (hauth : ∀ who, call.1.auth who = true → may who ∧ (net.pair who).pairState = none)
    (hcalm : outsideActions call = []) (hfree : pair ∉ running ∨ (net.pair pair).locked = false)
    (hstate : (net.pair pair).pairState = some state)
    (hexec : CoralSwap.exec (net.world pair state) call = .ok w) :
    Evolution may made running net (net.settle pair state w) := by
  have hpays : ∀ who, Pays call who → who = pair ∨ may who ∧ (net.pair who).pairState = none := by
    rintro who (rfl | hsigned | ⟨action, haction, -⟩)
    · exact Or.inl rfl
    · exact Or.inr (hauth who hsigned)
    · rw [hcalm] at haction
      cases haction
  have hmoves := moves_of_exec hexec
  have hseen : ∀ other ≠ pair, (net.pair other).pairState.isSome = true → ∀ tokenA tokenB,
      SeenOutside other (view net other tokenA tokenB) (view (net.settle pair state w) other tokenA tokenB) := by
    intro other hne hpool
    refine seenOutside_of_settle hne (fun who hwho => ?_) hmoves
    rintro rfl
    rcases hpays who hwho with rfl | ⟨-, hnone⟩
    · exact hne rfl
    · rw [hnone] at hpool
      cases hpool
  obtain ⟨state', hstate', -⟩ := identity_of_exec hstate hexec
  refine ⟨pools_of_settle (by rw [hstate]; rfl) (by rw [hstate']; rfl), fun token => ?_, ?_, ?_⟩
  · refine (ledger_of_settle hmoves token).mono fun who hwho => ?_
    rcases hpays who hwho with rfl | ⟨hmay, -⟩
    · exact hself
    · exact hmay
  · intro other hrunning hpool hlocked
    by_cases hother : other = pair
    · subst hother
      rcases hfree with hidle | hunlocked
      · exact absurd hrunning hidle
      · rw [hunlocked] at hlocked
        cases hlocked
    · exact hseen other hother hpool
  · intro other hidle before hbefore hne
    by_cases hother : other = pair
    · subst hother
      obtain rfl := Option.some.inj (hstate.symm.trans hbefore)
      rw [view_settle_self hne]
      exact .call hmade hexec
    · exact (hseen other hother (by rw [hbefore]; rfl) before.tokenA before.tokenB).seen (envOf other)

end Settle

end CoralSwap.System
