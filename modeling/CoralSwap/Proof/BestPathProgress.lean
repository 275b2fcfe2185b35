import CoralSwap.Proof.BestPaths
import CoralSwap.Proof.PathProgress

/-!
# The recommended path

A candidate of the search passes no token twice once it can be quoted, so the path the search recommends is one
the router executes, for the output it was recommended for. No other route can be executed for more.
-/

namespace CoralSwap.Router

open Host Host.Call Host.Search

variable {Address : Type} [LinearOrder Address] {router : Address}
variable {env : RouterEnv router (Network Address)} {envOf : (pair : Address) → Env pair}
variable {net net' : Network Address} {storage : RouterStorage Address}
variable {factory tokenIn tokenOut dst : Address} {path : List Address}
variable {amountIn amountOutMin out finalOut : ℤ} {deadline : ℕ} {deadlineLedger : Option ℕ}

/-- The routes the search looks at. -/
def Onward (hubs : List Address) (tokenIn tokenOut : Address) (path : List Address) : Prop :=
  Route hubs tokenIn tokenOut path ∧ ¬TurnsBack tokenIn tokenOut path

omit [LinearOrder Address] in
/-- A candidate of one to three hops between different tokens that changes the token at every hop passes no token
twice. -/
theorem nodup_of_onward {hubs : List Address} (hroute : Onward hubs tokenIn tokenOut path) (hne : tokenIn ≠ tokenOut)
    (hchain : path.IsChain (· ≠ ·)) : (2 ≤ path.length ∧ path.length ≤ 4) ∧ path.Nodup := by
  obtain ⟨hroute, honward⟩ := hroute
  cases hroute with
  | direct => exact ⟨by simp, by simpa using hne⟩
  | @oneHub hub hhub =>
      simp only [List.isChain_cons_cons] at hchain
      refine ⟨by simp, ?_⟩
      simp only [List.nodup_cons, List.mem_cons, List.not_mem_nil, or_false, not_or, not_false_eq_true,
        List.nodup_nil, and_true]
      exact ⟨⟨hchain.1, hne⟩, hchain.2.1⟩
  | @twoHubs hubI hubJ hi hj hdiffer =>
      simp only [List.isChain_cons_cons] at hchain
      have hout : hubI ≠ tokenOut := fun hout => honward ⟨hubI, hubJ, rfl, .inl hout⟩
      have hin : hubJ ≠ tokenIn := fun hin => honward ⟨hubI, hubJ, rfl, .inr hin⟩
      refine ⟨by simp, ?_⟩
      simp only [List.nodup_cons, List.mem_cons, List.not_mem_nil, or_false, not_or, not_false_eq_true,
        List.nodup_nil, and_true]
      exact ⟨⟨hchain.1, hin.symm, hne⟩, ⟨hdiffer, hout⟩, hchain.2.2.1⟩

/-- What the search has found: a route with its quote, and no route with a better one. -/
theorem of_getBestPath (hchain : env.chain = networkChain envOf) (hfactory : storage.factory = some factory)
    (hbest : getBestPath env net storage tokenIn tokenOut amountIn = .ok (path, out)) :
    tokenIn ≠ tokenOut ∧ pathQuote env net factory amountIn path = some out ∧
      Onward storage.hubs tokenIn tokenOut path ∧
        ∀ other quoted, Onward storage.hubs tokenIn tokenOut other →
          pathQuote env net factory amountIn other = some quoted → quoted ≤ out := by
  have hchecked := hbest
  simp only [getBestPath, bind_eq_ok, failIf_eq_ok, exists_const, not_le] at hchecked
  obtain ⟨hne, hin, -⟩ := hchecked
  rw [getBestPath_eq (registryAnswers_network hchain) hfactory hne hin, okOr_eq_ok] at hbest
  obtain ⟨hpath, hquote, hmost⟩ := of_best_eq_some hbest
  have hchanges := (of_pathQuote_eq_some hquote).2
  refine ⟨hne, hquote, (mem_candidates_iff hchanges).mp hpath, fun other quoted hother hvalue => ?_⟩
  exact hmost other ((mem_candidates_iff (of_pathQuote_eq_some hvalue).2).mpr hother) quoted hvalue

/-- An accepted swap of an exact input delivers the quote of its path. -/
theorem pathQuote_of_swap (hfactory : storage.factory = some factory)
    (hswap : swapExactTokensMultiHop env net storage path amountIn amountOutMin dst deadline deadlineLedger =
      .ok (net', finalOut)) : pathQuote env net factory amountIn path = some finalOut := by
  simp only [swapExactTokensMultiHop, RouterStorage.getFactory, hfactory, okOr_eq_ok, bind_eq_ok, orTrap_eq_ok,
    pure_eq_ok, Prod.mk.injEq, Option.some.injEq, exists_eq_left'] at hswap
  obtain ⟨_, -, _, -, _, -, amounts, hforward, out, hlast, _, -, _, -, _, -, _, -, _, -, rfl, rfl⟩ := hswap
  exact pathQuote_eq_some.mpr ⟨amounts, hforward, hlast⟩

end CoralSwap.Router
