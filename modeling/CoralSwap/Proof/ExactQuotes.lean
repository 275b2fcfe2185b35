import CoralSwap.Lib.Exchange
import CoralSwap.Shared

/-!
# What the quotes round

Both quotes read the same exchange rule, one rounded down and one rounded up. The first truncates in
128 bits and the second takes its ceiling in 256, so what the first can quote the second can price.
-/

namespace CoralSwap

open Host Host.Call Exchange

variable {amountIn amountOut reserveIn reserveOut out required : ℤ} {feeBps : ℕ}

/-- `amountIn` covers `amountOut` at a fee. -/
abbrev Buys (reserveIn reserveOut : ℤ) (feeBps : ℕ) (amountIn amountOut : ℤ) : Prop :=
  Covers bpsDenominator (bpsDenominator - feeBps) reserveIn reserveOut amountIn amountOut

/-- What a forward quote has checked. -/
structure Quotable (amountIn reserveIn reserveOut : ℤ) (feeBps : ℕ) : Prop where
  amountIn_pos : 0 < amountIn
  reserveIn_pos : 0 < reserveIn
  reserveOut_pos : 0 < reserveOut
  fee : 0 < bpsDenominator - (feeBps : ℤ)
  numerator : amountIn * (bpsDenominator - feeBps) * reserveOut ≤ i128.max
  scaled : reserveIn * bpsDenominator ≤ i128.max

/-- **The forward quote** is the most that the input covers. -/
theorem le_quoteOutputAmount_iff
    (hquote : quoteOutputAmount amountIn reserveIn reserveOut feeBps = .ok out) :
    Quotable amountIn reserveIn reserveOut feeBps ∧
      ∀ amountOut, amountOut ≤ out ↔ Buys reserveIn reserveOut feeBps amountIn amountOut := by
  simp only [quoteOutputAmount, feeFactor, bind_eq_ok, pure_eq_ok, failIf_eq_ok, okOr_eq_ok,
    Word.checkedMul_eq_some, Word.checkedAdd_eq_some] at hquote
  obtain ⟨-, hin, -, hreserves, _, ⟨-, hfee, rfl⟩, _, ⟨-, rfl⟩, _, ⟨⟨-, hnumerator⟩, rfl⟩, _,
    ⟨⟨-, hscaled⟩, rfl⟩, _, ⟨-, rfl⟩, -, -, rfl⟩ := hquote
  have hin : 0 < amountIn := by omega
  have hreserveIn : 0 < reserveIn := by omega
  have hreserveOut : 0 < reserveOut := by omega
  have hfactor : 0 < bpsDenominator - (feeBps : ℤ) := by omega
  refine ⟨⟨hin, hreserveIn, hreserveOut, hfactor, hnumerator, hscaled⟩, fun amountOut => ?_⟩
  have hwithFee : 0 < amountIn * (bpsDenominator - feeBps) := mul_pos hin hfactor
  exact le_tdiv_iff (mul_nonneg hwithFee.le hreserveOut.le)
    (add_pos (mul_pos hreserveIn (by decide)) hwithFee)

/-- What a backward quote has checked. -/
theorem quoteInputAmount_ok
    (hquote : quoteInputAmount amountOut reserveIn reserveOut feeBps = .ok required) :
    0 < amountOut ∧ amountOut < reserveOut ∧ 0 < reserveIn ∧ (feeBps : ℤ) < bpsDenominator := by
  simp only [quoteInputAmount, feeFactor, bind_eq_ok, pure_eq_ok, failIf_eq_ok] at hquote
  obtain ⟨-, hout, -, hreserves, _, ⟨-, hfee, -⟩, -⟩ := hquote
  refine ⟨?_, ?_, ?_, ?_⟩ <;> omega

/-- **The backward quote** is the least input that covers the output. -/
theorem quoteInputAmount_le_iff
    (hquote : quoteInputAmount amountOut reserveIn reserveOut feeBps = .ok required) :
    0 < required ∧ ∀ amountIn, required ≤ amountIn ↔ Buys reserveIn reserveOut feeBps amountIn amountOut := by
  obtain ⟨hout, hlt, hreserveIn, hfee⟩ := quoteInputAmount_ok hquote
  simp only [quoteInputAmount, feeFactor, bind_eq_ok, pure_eq_ok, failIf_eq_ok, okOr_eq_ok,
    Word.checkedMul_eq_some] at hquote
  obtain ⟨-, -, -, -, _, ⟨-, -, rfl⟩, _, ⟨-, rfl⟩, _, ⟨-, rfl⟩, _, ⟨-, rfl⟩, -, -, rfl⟩ := hquote
  have hnumerator : 0 < reserveIn * amountOut * bpsDenominator :=
    mul_pos (mul_pos hreserveIn hout) (by decide)
  have hdenominator : 0 < (reserveOut - amountOut) * (bpsDenominator - (feeBps : ℤ)) :=
    mul_pos (sub_pos.mpr hlt) (sub_pos.mpr hfee)
  have hround := fun amountIn : ℤ => tdiv_roundUp_le_iff (c := amountIn) hnumerator.le hdenominator
  refine ⟨?_, fun amountIn => ?_⟩
  · by_contra hnonpos
    have hzero := (hround 0).mp (not_lt.mp hnonpos)
    rw [zero_mul] at hzero
    exact absurd hnumerator (not_lt.mpr hzero)
  · rw [hround, Buys, covers_iff_cost]

/-- What a quotable input covers is less than the reserve. -/
theorem Quotable.lt_reserveOut (hquotable : Quotable amountIn reserveIn reserveOut feeBps)
    (hbuys : Buys reserveIn reserveOut feeBps amountIn amountOut) : amountOut < reserveOut := by
  have hcost := covers_iff_cost.mp hbuys
  by_contra hge
  have hout : 0 < amountOut := hquotable.reserveOut_pos.trans_le (not_lt.mp hge)
  have hleft : 0 < reserveIn * amountOut * bpsDenominator :=
    mul_pos (mul_pos hquotable.reserveIn_pos hout) (by decide)
  have hright : amountIn * ((reserveOut - amountOut) * (bpsDenominator - feeBps)) ≤ 0 :=
    mul_nonpos_of_nonneg_of_nonpos hquotable.amountIn_pos.le
      (mul_nonpos_of_nonpos_of_nonneg (by omega) hquotable.fee.le)
  exact absurd (hleft.trans_le hcost) (not_lt.mpr hright)

theorem Quotable.amountIn_le (hquotable : Quotable amountIn reserveIn reserveOut feeBps) :
    amountIn ≤ i128.max ∧ reserveOut ≤ i128.max := by
  have hwithFee : amountIn ≤ amountIn * (bpsDenominator - feeBps) :=
    le_mul_of_one_le_right hquotable.amountIn_pos.le hquotable.fee
  have hpos := hquotable.amountIn_pos.trans_le hwithFee
  refine ⟨hwithFee.trans (le_trans ?_ hquotable.numerator), le_trans ?_ hquotable.numerator⟩
  · exact le_mul_of_one_le_right hpos.le hquotable.reserveOut_pos
  · exact le_mul_of_one_le_left hquotable.reserveOut_pos.le hpos

/-- **Pricing.** Whatever a quotable input covers can be priced, at that input or less. -/
theorem exists_quoteInputAmount (hquotable : Quotable amountIn reserveIn reserveOut feeBps)
    (hout : 0 < amountOut) (hbuys : Buys reserveIn reserveOut feeBps amountIn amountOut) :
    ∃ required, quoteInputAmount amountOut reserveIn reserveOut feeBps = .ok required ∧
      required ≤ amountIn := by
  obtain ⟨hinMax, houtMax⟩ := hquotable.amountIn_le
  have hlt := hquotable.lt_reserveOut hbuys
  have hreserveIn := hquotable.reserveIn_pos
  have hfee := hquotable.fee
  have hnumerator : 0 ≤ reserveIn * amountOut * bpsDenominator :=
    mul_nonneg (mul_nonneg hreserveIn.le hout.le) (by decide)
  have hdenominator : 0 < (reserveOut - amountOut) * (bpsDenominator - (feeBps : ℤ)) :=
    mul_pos (by omega) hfee
  have hrounded := (tdiv_roundUp_le_iff hnumerator hdenominator).mpr (covers_iff_cost.mp hbuys)
  refine ⟨_, ?_, hrounded⟩
  -- two factors of 128 bits stay within 256
  have hsquare : i128.max * i128.max ≤ u256.max := by decide
  have hproduct : reserveIn * amountOut ≤ reserveIn * amountOut * bpsDenominator :=
    le_mul_of_one_le_right (mul_nonneg hreserveIn.le hout.le) (by decide)
  have hscaled : reserveIn * amountOut * bpsDenominator ≤ u256.max := by
    calc reserveIn * amountOut * bpsDenominator = reserveIn * bpsDenominator * amountOut := by ring
      _ ≤ i128.max * i128.max :=
        mul_le_mul hquotable.scaled (by omega) hout.le (by decide)
      _ ≤ u256.max := hsquare
  have hcost : (reserveOut - amountOut) * (bpsDenominator - (feeBps : ℤ)) ≤ u256.max := by
    have hbps : bpsDenominator - (feeBps : ℤ) ≤ i128.max := by
      have hlow : bpsDenominator - (feeBps : ℤ) ≤ bpsDenominator := sub_le_self _ (Int.natCast_nonneg _)
      exact hlow.trans (by decide)
    exact (mul_le_mul (by omega) hbps hfee.le (by decide)).trans hsquare
  simp only [quoteInputAmount, feeFactor, bind_eq_ok, pure_eq_ok, failIf_eq_ok, okOr_eq_ok,
    Word.checkedMul_eq_some]
  have hmin : u256.min = 0 := rfl
  exact ⟨(), by omega, (), by omega, _, ⟨(), by omega, rfl⟩, _,
    ⟨⟨hmin ▸ mul_nonneg hreserveIn.le hout.le, hproduct.trans hscaled⟩, rfl⟩, _,
    ⟨⟨hmin ▸ hnumerator, hscaled⟩, rfl⟩, _, ⟨⟨hmin ▸ hdenominator.le, hcost⟩, rfl⟩, (),
    not_lt.mpr (hrounded.trans hinMax), rfl⟩

/-- **One hop.** The quotes are adjoint: an output can be priced within the input exactly when the input
is quoted at least that output. -/
theorem quoteInputAmount_adjoint
    (hquote : quoteOutputAmount amountIn reserveIn reserveOut feeBps = .ok out) (hout : 0 < amountOut) :
    (∃ required, quoteInputAmount amountOut reserveIn reserveOut feeBps = .ok required ∧
      required ≤ amountIn) ↔ amountOut ≤ out := by
  obtain ⟨hquotable, hcovers⟩ := le_quoteOutputAmount_iff hquote
  rw [hcovers]
  constructor
  · rintro ⟨required, hrequired, hle⟩
    exact ((quoteInputAmount_le_iff hrequired).2 amountIn).mp hle
  · exact exists_quoteInputAmount hquotable hout

/-- What an input buys before anything is rounded. -/
def exactQuote (amountIn reserveIn reserveOut : ℤ) (feeBps : ℕ) : ℚ :=
  amountIn * (bpsDenominator - feeBps) * reserveOut /
    (reserveIn * bpsDenominator + amountIn * (bpsDenominator - feeBps))

theorem le_exactQuote_iff (hin : 0 < amountIn) (hreserveIn : 0 < reserveIn)
    (hfee : 0 < bpsDenominator - (feeBps : ℤ)) :
    (amountOut : ℚ) ≤ exactQuote amountIn reserveIn reserveOut feeBps ↔
      Buys reserveIn reserveOut feeBps amountIn amountOut := by
  have hdenominator : 0 < reserveIn * bpsDenominator + amountIn * (bpsDenominator - (feeBps : ℤ)) :=
    add_pos (mul_pos hreserveIn (by decide)) (mul_pos hin hfee)
  have hdenominator' : (0 : ℚ) < reserveIn * bpsDenominator + amountIn * (bpsDenominator - feeBps) := by
    exact_mod_cast hdenominator
  rw [exactQuote, le_div_iff₀ hdenominator', Buys, Covers]
  exact_mod_cast Iff.rfl

/-- **The price** of an output is the least input whose exact quote reaches it. -/
theorem quoteInputAmount_isLeast
    (hquote : quoteInputAmount amountOut reserveIn reserveOut feeBps = .ok required) :
    IsLeast {amountIn : ℤ | 0 < amountIn ∧
      (amountOut : ℚ) ≤ exactQuote amountIn reserveIn reserveOut feeBps} required := by
  obtain ⟨hrequired, hcovers⟩ := quoteInputAmount_le_iff hquote
  obtain ⟨-, -, hreserveIn, hfee⟩ := quoteInputAmount_ok hquote
  have hfactor : 0 < bpsDenominator - (feeBps : ℤ) := sub_pos.mpr hfee
  constructor
  · exact ⟨hrequired, (le_exactQuote_iff hrequired hreserveIn hfactor).mpr ((hcovers _).mp le_rfl)⟩
  · rintro amountIn ⟨hin, hquoted⟩
    exact (hcovers amountIn).mpr ((le_exactQuote_iff hin hreserveIn hfactor).mp hquoted)

/-! ### Splitting an order -/

/-- Quotes one after the other: the whole of each input joins the one reserve, and its output leaves the
other. -/
def successiveQuotes (feeBps : ℕ) : ℤ → ℤ → List ℤ → Call QuoteError (List ℤ)
  | _, _, [] => pure []
  | reserveIn, reserveOut, amountIn :: inputs => do
      let amountOut ← quoteOutputAmount amountIn reserveIn reserveOut feeBps
      let outputs ← successiveQuotes feeBps (reserveIn + amountIn) (reserveOut - amountOut) inputs
      pure (amountOut :: outputs)

/-- What has been put in so far covers what has been taken out, in the pool the order started from. -/
theorem buys_of_successiveQuotes {inputs outputs : List ℤ} (hreserveIn : 0 < reserveIn)
    (hreserveOut : 0 ≤ reserveOut) (hin : 0 ≤ amountIn)
    (hbuys : Buys reserveIn reserveOut feeBps amountIn amountOut)
    (hquotes : successiveQuotes feeBps (reserveIn + amountIn) (reserveOut - amountOut) inputs =
      .ok outputs) :
    Buys reserveIn reserveOut feeBps (amountIn + inputs.sum) (amountOut + outputs.sum) := by
  induction inputs generalizing amountIn amountOut outputs with
  | nil =>
      obtain rfl := pure_eq_ok.mp hquotes
      simpa only [List.sum_nil, add_zero] using hbuys
  | cons next inputs ih =>
      simp only [successiveQuotes, bind_eq_ok, pure_eq_ok] at hquotes
      obtain ⟨nextOut, hquote, rest, hquotes, rfl⟩ := hquotes
      obtain ⟨hquotable, hcovers⟩ := le_quoteOutputAmount_iff hquote
      have hnext := hquotable.amountIn_pos
      have hboth : Buys reserveIn reserveOut feeBps (amountIn + next) (amountOut + nextOut) :=
        Covers.add hreserveIn hreserveOut (by decide) hquotable.fee.le
          (sub_le_self _ (Int.natCast_nonneg _)) hin hnext.le hbuys ((hcovers nextOut).mp le_rfl)
      rw [add_assoc, sub_sub] at hquotes
      rw [List.sum_cons, List.sum_cons, ← add_assoc, ← add_assoc]
      exact ih (by omega) hboth hquotes

/-- **Splitting an order** is never profitable. -/
theorem sum_successiveQuotes_le {inputs outputs : List ℤ}
    (hquotes : successiveQuotes feeBps reserveIn reserveOut inputs = .ok outputs)
    (hwhole : quoteOutputAmount inputs.sum reserveIn reserveOut feeBps = .ok out) :
    outputs.sum ≤ out := by
  obtain ⟨hquotable, hcovers⟩ := le_quoteOutputAmount_iff hwhole
  have hnothing : Buys reserveIn reserveOut feeBps 0 0 := by
    unfold Buys Covers
    simp
  rw [hcovers, ← zero_add inputs.sum, ← zero_add outputs.sum]
  refine buys_of_successiveQuotes hquotable.reserveIn_pos hquotable.reserveOut_pos.le le_rfl hnothing ?_
  rwa [add_zero, sub_zero]

theorem sum_successiveQuotes_le_of_three :
    successiveQuotes 30 100000 100000 [1000, 2000, 3000] = .ok [987, 1916, 2740] ∧
      quoteOutputAmount ([1000, 2000, 3000] : List ℤ).sum 100000 100000 30 = .ok 5644 ∧
      ([987, 1916, 2740] : List ℤ).sum ≤ 5644 := by
  have hquotes : successiveQuotes 30 100000 100000 [1000, 2000, 3000] = .ok [987, 1916, 2740] := by
    decide +kernel
  have hwhole : quoteOutputAmount ([1000, 2000, 3000] : List ℤ).sum 100000 100000 30 = .ok 5644 := by
    decide +kernel
  exact ⟨hquotes, hwhole, sum_successiveQuotes_le hquotes hwhole⟩

end CoralSwap
