import CoralSwap.Proof.ExactQuotes
import CoralSwap.Proof.RouterSwaps

/-!
# Quotes along a path

A path is quoted forward, each output being the next input, and backward, each required input being the
output required of the hop before. The hops are adjoint, so the passes are: what the backward pass
requires stays below what the forward pass pays exactly when it starts below the last output.
-/

namespace CoralSwap.Router

open Host Host.Call

/-- **One hop.** -/
theorem getAmountIn_adjoint {amountIn amountOut reserveIn reserveOut out : ℤ} {feeBps : ℕ}
    (hquote : getAmountOut amountIn reserveIn reserveOut feeBps = .ok out) (hout : 0 < amountOut) :
    (∃ required, getAmountIn amountOut reserveIn reserveOut feeBps = .ok required ∧
      required ≤ amountIn) ↔ amountOut ≤ out := by
  simp only [getAmountIn, mapQuote_eq_ok]
  exact quoteInputAmount_adjoint (mapQuote_eq_ok.mp hquote) hout

/-! ### Passes over a path -/

section Passes

variable {Token : Type} (price : Token → Token → Call RouterError (ℤ × ℤ × ℕ))

/-- The forward pass, where `price` gives the reserves and the fee of a hop. -/
def outputsAlong : Token → List Token → ℤ → Call RouterError (List ℤ)
  | _, [], _ => pure []
  | token, next :: path, amountIn => do
      let (reserveIn, reserveOut, feeBps) ← price token next
      let amountOut ← getAmountOut amountIn reserveIn reserveOut feeBps
      let amounts ← outputsAlong next path amountOut
      pure (amountOut :: amounts)

/-- The backward pass: the input every hop requires, and the first of them. -/
def inputsAlong : Token → List Token → ℤ → Call RouterError (List ℤ × ℤ)
  | _, [], amountOut => pure ([], amountOut)
  | token, next :: path, amountOut => do
      let (required, current) ← inputsAlong next path amountOut
      let (reserveIn, reserveOut, feeBps) ← price token next
      let needed ← getAmountIn current reserveIn reserveOut feeBps
      pure (needed :: required, needed)

/-- The backward pass of the slippage check, which a minimum that is not positive cuts short. -/
def minimumsAlong : Token → List Token → ℤ → Call RouterError (List ℤ × ℤ)
  | _, [], amountOutMin => pure ([], amountOutMin)
  | token, next :: path, amountOutMin => do
      let (minimums, minimum) ← minimumsAlong next path amountOutMin
      let (reserveIn, reserveOut, feeBps) ← price token next
      let needed ← if minimum ≤ 0 then pure 0 else getAmountIn minimum reserveIn reserveOut feeBps
      pure (minimum :: minimums, needed)

variable {price} {token : Token} {path : List Token} {amountIn amountOut needed : ℤ}
variable {outputs required : List ℤ}

theorem outputsAlong_cons {next : Token}
    (hforward : outputsAlong price token (next :: path) amountIn = .ok outputs) :
    ∃ reserveIn reserveOut feeBps out rest, price token next = .ok (reserveIn, reserveOut, feeBps) ∧
      getAmountOut amountIn reserveIn reserveOut feeBps = .ok out ∧
      outputsAlong price next path out = .ok rest ∧ outputs = out :: rest := by
  simp only [outputsAlong, bind_eq_ok, pure_eq_ok, Prod.exists] at hforward
  obtain ⟨reserveIn, reserveOut, feeBps, hprice, out, hout, rest, hrest, rfl⟩ := hforward
  exact ⟨reserveIn, reserveOut, feeBps, out, rest, hprice, hout, hrest, rfl⟩

theorem inputsAlong_pos (hbackward : inputsAlong price token path amountOut = .ok (required, needed))
    (hout : 0 < amountOut) : 0 < needed := by
  cases path with
  | nil =>
      cases pure_eq_ok.mp hbackward
      exact hout
  | cons next path =>
      simp only [inputsAlong, bind_eq_ok, pure_eq_ok, Prod.exists] at hbackward
      obtain ⟨_, _, -, _, _, _, -, _, hneeded, hresult⟩ := hbackward
      cases hresult
      exact (quoteInputAmount_le_iff (mapQuote_eq_ok.mp hneeded)).1

/-- What is required of every hop, if it starts below the last output, stays below what is paid. -/
theorem exists_inputsAlong (hforward : outputsAlong price token path amountIn = .ok outputs)
    (hout : 0 < amountOut) (hle : amountOut ≤ outputs.getLastD amountIn) :
    ∃ required needed, inputsAlong price token path amountOut = .ok (required, needed) ∧
      needed ≤ amountIn ∧ List.Forall₂ (· ≤ ·) (required ++ [amountOut]) (amountIn :: outputs) := by
  induction path generalizing token amountIn outputs with
  | nil =>
      obtain rfl := pure_eq_ok.mp hforward
      exact ⟨[], amountOut, rfl, hle, .cons hle .nil⟩
  | cons next path ih =>
      obtain ⟨reserveIn, reserveOut, feeBps, out, rest, hprice, hquote, hrest, rfl⟩ :=
        outputsAlong_cons hforward
      rw [List.getLastD_cons] at hle
      obtain ⟨required, current, hbackward, hcurrent, hbelow⟩ := ih hrest hle
      obtain ⟨needed, hneeded, hfits⟩ :=
        (getAmountIn_adjoint hquote (inputsAlong_pos hbackward hout)).mpr hcurrent
      refine ⟨needed :: required, needed, ?_, hfits, .cons hfits hbelow⟩
      simp only [inputsAlong, bind_eq_ok, pure_eq_ok, Prod.exists]
      exact ⟨required, current, hbackward, reserveIn, reserveOut, feeBps, hprice, needed, hneeded, rfl⟩

theorem le_of_inputsAlong (hforward : outputsAlong price token path amountIn = .ok outputs)
    (hout : 0 < amountOut)
    (hbackward : inputsAlong price token path amountOut = .ok (required, needed))
    (hfits : needed ≤ amountIn) : amountOut ≤ outputs.getLastD amountIn := by
  induction path generalizing token amountIn outputs required needed with
  | nil =>
      obtain rfl := pure_eq_ok.mp hforward
      cases pure_eq_ok.mp hbackward
      exact hfits
  | cons next path ih =>
      obtain ⟨reserveIn, reserveOut, feeBps, out, rest, hprice, hquote, hrest, rfl⟩ :=
        outputsAlong_cons hforward
      simp only [inputsAlong, bind_eq_ok, pure_eq_ok, hprice, Prod.exists, Except.ok.injEq,
        Prod.mk.injEq] at hbackward
      obtain ⟨inner, current, hinner, _, _, _, ⟨rfl, rfl, rfl⟩, _, hneeded, rfl, rfl⟩ := hbackward
      rw [List.getLastD_cons]
      refine ih hrest hinner ?_
      exact (getAmountIn_adjoint hquote (inputsAlong_pos hinner hout)).mp ⟨_, hneeded, hfits⟩

theorem exists_minimumsAlong (hforward : outputsAlong price token path amountIn = .ok outputs)
    (hle : amountOut ≤ outputs.getLastD amountIn) :
    ∃ minimums needed, minimumsAlong price token path amountOut = .ok (minimums, needed) ∧
      needed ≤ amountIn ∧ List.Forall₂ (· ≤ ·) minimums outputs := by
  induction path generalizing token amountIn outputs with
  | nil =>
      obtain rfl := pure_eq_ok.mp hforward
      exact ⟨[], amountOut, rfl, hle, .nil⟩
  | cons next path ih =>
      obtain ⟨reserveIn, reserveOut, feeBps, out, rest, hprice, hquote, hrest, rfl⟩ :=
        outputsAlong_cons hforward
      rw [List.getLastD_cons] at hle
      obtain ⟨minimums, minimum, hbackward, hminimum, hbelow⟩ := ih hrest hle
      by_cases hnone : minimum ≤ 0
      · have hquotable := (le_quoteOutputAmount_iff (mapQuote_eq_ok.mp hquote)).1
        refine ⟨minimum :: minimums, 0, ?_, hquotable.amountIn_pos.le, .cons hminimum hbelow⟩
        simp only [minimumsAlong, bind_eq_ok, Prod.exists]
        refine ⟨minimums, minimum, hbackward, reserveIn, reserveOut, feeBps, hprice, ?_⟩
        rw [if_pos hnone, bind_eq_ok]
        exact ⟨0, rfl, rfl⟩
      · obtain ⟨needed, hneeded, hfits⟩ :=
          (getAmountIn_adjoint hquote (not_le.mp hnone)).mpr hminimum
        refine ⟨minimum :: minimums, needed, ?_, hfits, .cons hminimum hbelow⟩
        simp only [minimumsAlong, bind_eq_ok, Prod.exists]
        refine ⟨minimums, minimum, hbackward, reserveIn, reserveOut, feeBps, hprice, ?_⟩
        rw [if_neg hnone, bind_eq_ok]
        exact ⟨needed, hneeded, rfl⟩

/-- The requirement of the last hop is what is asked for. -/
theorem append_of_inputsAlong
    (hbackward : inputsAlong price token path amountOut = .ok (required, needed)) :
    required ++ [amountOut] = needed :: (required ++ [amountOut]).tail := by
  cases path with
  | nil =>
      cases pure_eq_ok.mp hbackward
      rfl
  | cons next path =>
      simp only [inputsAlong, bind_eq_ok, pure_eq_ok, Prod.exists] at hbackward
      obtain ⟨_, _, -, _, _, _, -, _, -, hresult⟩ := hbackward
      cases hresult
      rfl

/-- From a positive output the slippage check goes back like an exact-output swap. -/
theorem minimumsAlong_eq_map (hout : 0 < amountOut) :
    minimumsAlong price token path amountOut =
      (fun backward => ((backward.1 ++ [amountOut]).tail, backward.2)) <$>
        inputsAlong price token path amountOut := by
  induction path generalizing token with
  | nil => rfl
  | cons next path ih =>
      rw [minimumsAlong, inputsAlong, ih]
      cases hbackward : inputsAlong price next path amountOut with
      | error fault => rfl
      | ok backward =>
          obtain ⟨inner, current⟩ := backward
          have hpos : ¬current ≤ 0 := not_le.mpr (inputsAlong_pos hbackward hout)
          have hmins := append_of_inputsAlong hbackward
          rcases price token next with fault | ⟨reserveIn, reserveOut, feeBps⟩
          · rfl
          · simp only [bind, Except.bind, Functor.map, Except.map, if_neg hpos]
            cases getAmountIn current reserveIn reserveOut feeBps with
            | error fault => rfl
            | ok needed =>
                simp only [pure, Except.pure, List.cons_append, List.tail_cons]
                rw [← hmins]

end Passes

/-! ### The router's passes -/

section Router

variable {Address χ : Type} [LinearOrder Address] {router : Address}
variable {env : RouterEnv router χ} {rest : χ} {factory : Address}

theorem pathAmountsOut_eq :
    pathAmountsOut env rest factory = outputsAlong (getHop env rest factory) := by
  funext token path
  induction path generalizing token with
  | nil => rfl
  | cons next path ih =>
      funext amountIn
      rw [pathAmountsOut, outputsAlong, ih]

theorem pathAmountsIn_eq :
    pathAmountsIn env rest factory = inputsAlong (getHop env rest factory) := by
  funext token path
  induction path generalizing token with
  | nil => rfl
  | cons next path ih =>
      funext amountOut
      rw [pathAmountsIn, inputsAlong, ih]

theorem pathMinimums_eq :
    pathMinimums env rest factory = minimumsAlong (getHop env rest factory) := by
  funext token path
  induction path generalizing token with
  | nil => rfl
  | cons next path ih =>
      funext amountOutMin
      rw [pathMinimums, minimumsAlong, ih]

/-- Amounts that reach their minimums pass the check of a swap. -/
theorem any_lt_eq_false {minimums amounts : List ℤ} (hbelow : List.Forall₂ (· ≤ ·) minimums amounts) :
    (amounts.zip minimums).any (fun hop => hop.1 < hop.2) = false := by
  induction hbelow with
  | nil => rfl
  | cons hle _ ih =>
      rw [List.zip_cons_cons, List.any_cons, ih, Bool.or_false, decide_eq_false_iff_not]
      exact not_lt.mpr hle

/-- The slippage check of a swap whose last output reaches its minimum. -/
theorem exists_getPathMinimums {path : List Address} {amountIn amountOutMin finalOut : ℤ}
    {amounts : List ℤ} (hforward : getPathAmountsOut env rest factory path amountIn = .ok amounts)
    (hlast : amounts.getLast? = some finalOut) (hmin : amountOutMin ≤ finalOut) :
    ∃ minimums, getPathMinimums env rest factory path amountOutMin = .ok minimums ∧
      (amounts.zip minimums).any (fun hop => hop.1 < hop.2) = false := by
  rcases path with _ | ⟨token, _ | ⟨next, path⟩⟩
  · exact absurd hforward (by simp [getPathAmountsOut])
  · exact absurd hforward (by simp [getPathAmountsOut])
  · rw [getPathAmountsOut, pathAmountsOut_eq] at hforward
    have hle : amountOutMin ≤ amounts.getLastD amountIn := by
      rw [List.getLastD_eq_getLast?, hlast]
      exact hmin
    obtain ⟨minimums, needed, hbackward, -, hbelow⟩ := exists_minimumsAlong hforward hle
    refine ⟨minimums, ?_, any_lt_eq_false hbelow⟩
    rw [getPathMinimums, pathMinimums_eq, hbackward]
    rfl

variable (env rest) in
/-- Quotes that go forward and back without a loss. -/
structure QuotesAdjoint : Prop where
  /-- Every path of hops at any prices, with any fee a quote takes. -/
  adjoint : ∀ (price : Address → Address → Call RouterError (ℤ × ℤ × ℕ)) (token : Address)
    (path : List Address) (amountIn amountOut : ℤ) (outputs : List ℤ),
    outputsAlong price token path amountIn = .ok outputs → 0 < amountOut →
      ((∃ required needed, inputsAlong price token path amountOut = .ok (required, needed) ∧
        needed ≤ amountIn) ↔ amountOut ≤ outputs.getLastD amountIn) ∧
      ∀ required needed, inputsAlong price token path amountOut = .ok (required, needed) →
        needed ≤ amountIn →
          List.Forall₂ (· ≤ ·) (required ++ [amountOut]) (amountIn :: outputs)
  /-- The passes of the router are such passes, at the prices of the pairs. -/
  passes : ∀ factory : Address,
    pathAmountsOut env rest factory = outputsAlong (getHop env rest factory) ∧
      pathAmountsIn env rest factory = inputsAlong (getHop env rest factory) ∧
      ∀ token path amountOut, 0 < amountOut →
        pathMinimums env rest factory token path amountOut =
          (fun backward => ((backward.1 ++ [amountOut]).tail, backward.2)) <$>
            inputsAlong (getHop env rest factory) token path amountOut
  least : ∀ (amountOut reserveIn reserveOut : ℤ) (feeBps : ℕ) (required : ℤ),
    getAmountIn amountOut reserveIn reserveOut feeBps = .ok required →
      IsLeast {amountIn : ℤ | 0 < amountIn ∧
        (amountOut : ℚ) ≤ exactQuote amountIn reserveIn reserveOut feeBps} required
  /-- A swap whose last output reaches its minimum is left with nothing but its execution. -/
  accepts : ∀ (storage : RouterStorage Address) (path : List Address) (amountIn amountOutMin : ℤ)
    (dst : Address) (deadline : ℕ) (deadlineLedger : Option ℕ) (hops : ℕ) (factory : Address)
    (amounts : List ℤ) (finalOut : ℤ), checkDeadline env deadline deadlineLedger = .ok () →
    0 < amountIn → countHops path = .ok hops → storage.getFactory = .ok factory →
    getPathAmountsOut env rest factory path amountIn = .ok amounts →
    amounts.getLast? = some finalOut → amountOutMin ≤ finalOut →
      swapExactTokensMultiHop env rest storage path amountIn amountOutMin dst deadline
        deadlineLedger = do
          let executed ← executePath env rest factory dst path amountIn amounts
          let swept ← sweepDust env executed dst path
          pure (swept, finalOut)

/-- **Adjoint quotes.** -/
theorem quotesAdjoint : QuotesAdjoint env rest where
  adjoint price token path amountIn amountOut outputs hforward hout := by
    refine ⟨⟨?_, fun hle => ?_⟩, fun required needed hbackward hfits => ?_⟩
    · rintro ⟨required, needed, hbackward, hfits⟩
      exact le_of_inputsAlong hforward hout hbackward hfits
    · obtain ⟨required, needed, hbackward, hfits, -⟩ := exists_inputsAlong hforward hout hle
      exact ⟨required, needed, hbackward, hfits⟩
    · have hle := le_of_inputsAlong hforward hout hbackward hfits
      obtain ⟨_, _, hagain, -, hbelow⟩ := exists_inputsAlong hforward hout hle
      cases hbackward.symm.trans hagain
      exact hbelow
  passes factory := by
    refine ⟨pathAmountsOut_eq, pathAmountsIn_eq, fun token path amountOut hout => ?_⟩
    rw [pathMinimums_eq, minimumsAlong_eq_map hout]
  least amountOut reserveIn reserveOut feeBps required hquote :=
    quoteInputAmount_isLeast (mapQuote_eq_ok.mp hquote)
  accepts storage path amountIn amountOutMin dst deadline deadlineLedger hops factory amounts finalOut
      hdeadline hin hhops hfactory hforward hlast hmin := by
    obtain ⟨minimums, hminimums, hreached⟩ := exists_getPathMinimums hforward hlast hmin
    simp only [swapExactTokensMultiHop, hdeadline, hhops, hfactory, hforward, hlast, hminimums, hreached,
      failIf, not_le.mpr hin, not_lt.mpr hmin, orTrap, bind, Except.bind, if_false, Bool.false_eq_true]

end Router

theorem quotesAdjoint_hub :
    getPathAmountsOut hubEnv hubNetwork 5 [20, 21, 22] 1000 = .ok [949, 903] ∧
      QuotesAdjoint hubEnv hubNetwork :=
  ⟨by decide +kernel, quotesAdjoint⟩

end CoralSwap.Router
