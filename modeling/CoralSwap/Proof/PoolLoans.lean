import CoralSwap.Proof.PoolViews

/-!
# Flash loans inside the exchange

The receiver of a flash loan may call anybody but the pair that waits for it, other pairs and the router included.
To that pair all of it is what third parties do, so the loan is one of its own loans; to everybody else it is two
payments with the receiver's calls in between.
-/

namespace CoralSwap.System

open Host Host.Call

section Via

variable {Address σ : Type} [DecidableEq Address] {contract receiver : Address}
variable {view : σ → World Address} {put : σ → World Address → σ} {callback : σ → σ} {s s' : σ}
variable {amountA amountB : ℤ} {dataLen : ℕ} {succeeds : Bool}

/-- The pair's world when it hands over: locked, and with the loan paid out. -/
structure Lent (contract receiver : Address) (amountA amountB : ℤ) (w lent : World Address) : Prop where
  lendA : lend w.tokenA contract receiver amountA = .ok lent.tokenA
  lendB : lend w.tokenB contract receiver amountB = .ok lent.tokenB
  pair : lent.pair = { w.pair with locked := true }
  lp : lent.lp = w.lp

/-- **Inversion of a flash loan.** It borrows nothing and changes nothing, or it hands over and then stores what
the pair is left with. If the pair has seen third parties only, that is one of its own loans. -/
theorem flashLoanVia_ok
    (hloan : flashLoanVia view put callback s contract receiver amountA amountB dataLen succeeds = .ok s') :
    s' = s ∨ ∃ lent pair, Lent contract receiver amountA amountB (view s) lent ∧ pair.pairState.isSome = true ∧
      s' = put (callback (put s lent)) { view (callback (put s lent)) with pair } ∧
        ∀ (env : Env contract) actions, (externalMachine contract).run lent actions = view (callback (put s lent)) →
          CoralSwap.flashLoan env (view s) receiver amountA amountB dataLen ⟨actions, succeeds⟩ =
            .ok { view (callback (put s lent)) with pair } := by
  simp only [flashLoanVia, bind_eq_ok] at hloan
  obtain ⟨_, hfrozen, _, hpayload, _, hsign, state, hstate, hloan⟩ := hloan
  split at hloan
  · exact Or.inl (pure_eq_ok.mp hloan).symm
  · rename_i hzero
    simp only [bind_eq_ok, pure_eq_ok] at hloan
    obtain ⟨_, hreserves, preK, hpreK, held, hheld, feeA, hfeeA, feeB, hfeeB, tokenA, htokenA, tokenB, htokenB,
      _, hsucceeds, _, hrepaidA, _, hrepaidB, postK, hpostK, _, hproduct, rfl⟩ := hloan
    have hlocked := (World.acquireLock_eq_ok.mp hheld).2
    refine Or.inr ⟨{ held with tokenA, tokenB }, _, ⟨?_, ?_, ?_, ?_⟩, rfl, rfl, fun env actions hrun => ?_⟩
    · rwa [← hlocked] at htokenA
    · rwa [← hlocked] at htokenB
    · rw [← hlocked]
    · rw [← hlocked]
    simp only [CoralSwap.flashLoan, executeFlashLoan, bind_eq_ok]
    refine ⟨_, hfrozen, _, hpayload, _, hsign, state, hstate, ?_⟩
    rw [if_neg hzero]
    simp only [bind_eq_ok, pure_eq_ok]
    refine ⟨_, hreserves, preK, hpreK, held, hheld, feeA, hfeeA, feeB, hfeeB, tokenA, htokenA, tokenB, htokenB,
      _, hsucceeds, ?_⟩
    rw [hrun]
    exact ⟨_, hrepaidA, _, hrepaidB, postK, hpostK, _, hproduct, rfl⟩

end Via

variable {Address : Type} [LinearOrder Address] {router pair receiver : Address}

theorem Lent.moves {amountA amountB : ℤ} {w lent : World Address} (hlent : Lent pair receiver amountA amountB w lent) :
    WorldMoves (· = pair) w lent :=
  ⟨moves_of_lend rfl hlent.lendA, moves_of_lend rfl hlent.lendB⟩

/-- Storing what the pair keeps for itself moves no tokens. -/
theorem view_settle_keep {net : Network Address} {state : PairStorage Address} {after : Pair Address}
    {other : Address} (hne : other ≠ pair) (tokenA tokenB : Address) :
    view (net.settle pair state { net.world pair state with pair := after }) other tokenA tokenB =
      view net other tokenA tokenB := by
  simp [view, Network.settle, Network.world, Function.update_of_ne hne]

section Loan

variable {may : Address → Prop} {made : (pair : Address) → PairCall pair → Prop} {running : List Address}
variable {state : PairStorage Address} {callback : SystemWorld Address → SystemWorld Address}
variable {s s' : SystemWorld Address} {amountA amountB : ℤ} {dataLen : ℕ} {succeeds : Bool}

/-- While it waits the lender sees third parties only, so the loan is one of its own. -/
theorem seen_of_loan {made : PairCall pair → Prop} {env : Env pair} {lent : World Address} {after : Pair Address}
    {called : SystemWorld Address}
    (hmade : ∀ actions, made (env, .flashLoan receiver amountA amountB dataLen ⟨actions, succeeds⟩))
    (hne : state.tokenA ≠ state.tokenB)
    (hwaits : SeenOutside pair (view (settle s pair state lent).rest pair state.tokenA state.tokenB)
      (view called.rest pair state.tokenA state.tokenB))
    (hown : ∀ actions, (externalMachine pair).run lent actions = called.rest.world pair state →
      CoralSwap.flashLoan env (s.rest.world pair state) receiver amountA amountB dataLen ⟨actions, succeeds⟩ =
        .ok { called.rest.world pair state with pair := after }) :
    Seen made (s.rest.world pair state)
      (view (settle called pair state { called.rest.world pair state with pair := after }).rest pair state.tokenA
        state.tokenB) := by
  have hworld : view (settle s pair state lent).rest pair state.tokenA state.tokenB = lent := view_settle_self hne
  have hafter : view (settle called pair state { called.rest.world pair state with pair := after }).rest pair
      state.tokenA state.tokenB = { called.rest.world pair state with pair := after } := view_settle_self hne
  obtain ⟨actions, hrun⟩ := hwaits
  rw [hworld] at hrun
  rw [hafter]
  exact .call (hmade actions) (hown actions hrun)

/-- **A flash loan**, whose receiver lets the network evolve while the pair waits. -/
theorem Evolution.of_flashLoan (envOf : (pair : Address) → Env pair)
    (hmade : ∀ actions,
      made pair (envOf pair, .flashLoan receiver amountA amountB dataLen ⟨actions, succeeds⟩))
    (hself : may pair) (hidle : pair ∉ running) (hstate : (s.rest.pair pair).pairState = some state)
    (hcallback : ∀ middle : SystemWorld Address,
      (∀ who, (middle.rest.pair who).pairState.isSome = (s.rest.pair who).pairState.isSome) →
        Evolution may made (pair :: running) middle.rest (callback middle).rest)
    (hloan : flashLoanVia (fun s => s.rest.world pair state) (fun s w => settle s pair state w) callback s pair
      receiver amountA amountB dataLen succeeds = .ok s') :
    Evolution may made running s.rest s'.rest := by
  rcases flashLoanVia_ok hloan with rfl | ⟨lent, after, hlent, hafter, rfl, hown⟩
  · exact .refl
  have hpool : (s.rest.pair pair).pairState.isSome = true := by rw [hstate]; rfl
  have hpaid : lent.pair.pairState = some state := by
    rw [hlent.pair]
    exact hstate
  have hlentPools : ∀ who, ((settle s pair state lent).rest.pair who).pairState.isSome =
      (s.rest.pair who).pairState.isSome := pools_of_settle hpool (by rw [hpaid]; rfl)
  have hevolves := hcallback (settle s pair state lent) hlentPools
  generalize callback (settle s pair state lent) = called at hevolves hown ⊢
  have hothers : ∀ other ≠ pair, ∀ tokenA tokenB,
      SeenOutside other (view s.rest other tokenA tokenB) (view (settle s pair state lent).rest other tokenA tokenB) :=
    fun other hne => seenOutside_of_settle hne (fun _ hwho heq => hne (heq.symm.trans hwho)) hlent.moves
  have hsame : ∀ other ≠ pair, (settle s pair state lent).rest.pair other = s.rest.pair other :=
    fun other hne => Network.settle_pair_of_ne hne
  have hview : ∀ other ≠ pair, ∀ tokenA tokenB,
      view (settle called pair state { called.rest.world pair state with pair := after }).rest other tokenA tokenB =
        view called.rest other tokenA tokenB :=
    fun other hne tokenA tokenB => view_settle_keep hne tokenA tokenB
  constructor
  · intro who
    have hcalled : (called.rest.pair pair).pairState.isSome = true := by
      rw [hevolves.pools, hlentPools, hpool]
    exact (pools_of_settle hcalled hafter who).trans ((hevolves.pools who).trans (hlentPools who))
  · intro token
    have hpay := (ledger_of_settle hlent.moves token).mono fun who hwho => hwho ▸ hself
    have hkeep : (settle called pair state { called.rest.world pair state with pair := after }).rest.ledger token =
        called.rest.ledger token := by
      simp [settle, Network.settle, Network.world]
    rw [hkeep]
    exact hpay.trans (hevolves.moves token)
  · intro other hrunning hother hlocked tokenA tokenB
    have hne : other ≠ pair := fun heq => hidle (heq ▸ hrunning)
    rw [hview other hne]
    refine (hothers other hne tokenA tokenB).trans ?_
    refine hevolves.waiting other (List.mem_cons_of_mem pair hrunning) ?_ ?_ tokenA tokenB
    · rwa [hsame other hne]
    · rwa [hsame other hne]
  · intro other hfree before hbefore hne
    by_cases hother : other = pair
    · subst hother
      obtain rfl := Option.some.inj (hstate.symm.trans hbefore)
      refine seen_of_loan hmade hne ?_ (hown (envOf other))
      have hlocked : ((settle s other state lent).rest.pair other).locked = true := by
        rw [show (settle s other state lent).rest.pair other = lent.pair from Network.settle_pair_self, hlent.pair]
      exact hevolves.waiting other List.mem_cons_self ((hlentPools other).trans hpool) hlocked _ _
    · rw [hview other hother]
      refine ((hothers other hother before.tokenA before.tokenB).seen (envOf other)).trans
        (hevolves.idle other ?_ before ?_ hne)
      · rw [List.mem_cons, not_or]
        exact ⟨hother, hfree⟩
      · rwa [hsame other hother]

end Loan

end CoralSwap.System
