import CoralSwap.Proof.Invariants
import CoralSwap.Proof.Volatility

/-!
# The bounds of the dynamic fee

`initialize` stores the parameters of the fee, and nothing but the accumulator, the mark and the stale
threshold is ever written again. The accumulator stays between zero and the cap of its update, so every
rate the pair computes lies between its bounds.
-/

namespace CoralSwap

open Host Host.Call

namespace FeeState

/-- The parameters are those `initialize` stores, and the accumulator is within its cap. -/
structure Bounded (fs : FeeState) : Prop where
  configured : ∃ volAccumulator lastFeeUpdate staleThreshold,
    fs = { initial with volAccumulator, lastFeeUpdate, staleThreshold }
  vol_nonneg : 0 ≤ fs.volAccumulator
  vol_le : fs.volAccumulator ≤ fs.maxVol

variable {fs fs' : FeeState}

theorem Bounded.write {volAccumulator : ℤ} (hbounded : Bounded fs) (hnonneg : 0 ≤ volAccumulator)
    (hle : volAccumulator ≤ fs.maxVol) (lastFeeUpdate staleThreshold : ℕ) :
    Bounded { fs with volAccumulator, lastFeeUpdate, staleThreshold } := by
  obtain ⟨_, _, _, rfl⟩ := hbounded.configured
  exact ⟨⟨_, _, _, rfl⟩, hnonneg, hle⟩

theorem bounded_initial : Bounded initial := by
  refine ⟨⟨_, _, _, rfl⟩, le_rfl, ?_⟩
  decide

theorem bounded_of_applyTimeDecay (hbounded : Bounded fs) (currentLedger : ℕ) :
    Bounded (fs.applyTimeDecay currentLedger) := by
  rcases applyTimeDecay_cases fs currentLedger with hsame | ⟨vol, hnonneg, hle, hdecayed⟩
  · rwa [hsame]
  · rw [hdecayed]
    exact hbounded.write hnonneg (hle.trans hbounded.vol_le) _ _

section Update

variable {Address : Type} {contract : Address} {env : Env contract}
variable {priceDeltaAbs tradeSize totalReserve : ℤ}

theorem bounded_of_decayStaleEma (hbounded : Bounded fs) (hdecay : decayStaleEma env fs = .ok fs') :
    Bounded fs' := by
  rcases decayStaleEma_ok hdecay with rfl | rfl
  · exact hbounded
  · exact bounded_of_applyTimeDecay hbounded env.sequence

theorem Bounded.maxVol_nonneg (hbounded : Bounded fs) : 0 ≤ fs.maxVol :=
  hbounded.vol_nonneg.trans hbounded.vol_le

theorem bounded_of_updateVolatility (hbounded : Bounded fs)
    (hupdate : updateVolatility env fs priceDeltaAbs tradeSize totalReserve = .ok fs') :
    Bounded fs' := by
  have hupdated := updated_of_updateVolatility hupdate
  have haverage := hupdated.average_nonneg hbounded.vol_nonneg
  have hramp : 0 < fs.rampUpMultiplier := by
    obtain ⟨_, _, _, rfl⟩ := hbounded.configured
    show 0 < initial.rampUpMultiplier
    decide
  rw [hupdated.returned, if_pos hramp]
  exact hbounded.write (le_min haverage hbounded.maxVol_nonneg) (min_le_right _ _) _ _

end Update

theorem le_computeFeeBps (fs : FeeState) : fs.minFeeBps ≤ fs.computeFeeBps := by
  have hbounds := fs.minFeeBps_le_maxFeeBps
  unfold computeFeeBps clamp
  split
  · omega
  · dsimp only
    omega

end FeeState

/-! ### Pairs -/

section Pair

variable {Address : Type} [DecidableEq Address] {contract : Address}
variable {env : Env contract} {w w' : World Address}

def FeeBounded (w : World Address) : Prop := ∀ fs, w.pair.feeState = some fs → fs.Bounded

omit [DecidableEq Address] in
theorem feeInvariant_bounded : FeeInvariant env FeeState.Bounded where
  initial := FeeState.bounded_initial
  decay _ _ hbounded hdecay := FeeState.bounded_of_decayStaleEma hbounded hdecay
  update _ _ _ _ _ hbounded hupdate := FeeState.bounded_of_updateVolatility hbounded hupdate
  threshold _ _ hbounded := hbounded.write hbounded.vol_nonneg hbounded.vol_le _ _

/-- **Bounded accumulators.** In every reachable pair the fee is configured as `initialize` left it. -/
theorem feeBounded_of_reachable (hreach : Reachable contract w) : FeeBounded w :=
  hreach.induction (fun _ _ _ hnone => by cases hnone)
    fun _ _ _ hbounded hexec => feeInvariant_bounded.exec hbounded hexec

end Pair

end CoralSwap
