import CoralSwap.Proof.TwapAverage

/-!
# What it takes to move the average

Whoever trades a pool's price away for a part of a window moves the average of that window in proportion to the
part, and by no more than the peak allows. The first interval of a window counts only from the window's start on.
-/

namespace CoralSwap

open Host Host.Call RingBuffer WeightedMean

variable {updates intervals : List PriceUpdate} {oldest : TwapSample} {target : ℕ}
variable {value : TwapSample → ℤ} {price : PriceUpdate → ℤ} {interpolated : ℤ}

/-- The updates whose intervals overlap a window that starts at `target`. -/
def overlapping (target : ℕ) (updates : List PriceUpdate) : List PriceUpdate :=
  updates.filter fun u => target < u.sequence

/-- The ledgers of the intervals that overlap a window with prices that satisfy `p`. -/
def ledgersOf (p : ℤ → Bool) (price : PriceUpdate → ℤ) (target : ℕ) (updates : List PriceUpdate) : ℕ :=
  weightOf p (pieces price (overlapping target updates))

theorem Spaced.sublist_overlapping {ledger : ℕ} (hspaced : Spaced ledger intervals) (htarget : target ≤ ledger)
    (hintervals : intervals <:+ updates) : intervals.Sublist (overlapping target updates) := by
  have hall : overlapping target intervals = intervals :=
    List.filter_eq_self.mpr fun u hu => decide_eq_true (htarget.trans_lt (hspaced.lt hu))
  rw [← hall]
  exact hintervals.sublist.filter _

/-- **The window in trimmed pieces.** Like the pieces themselves, with the weight each of them has at most. -/
theorem Accumulates.exists_trimmed (hvalue : Accumulates value price) (hspaced : Spaced oldest.ledger intervals)
    (hintervals : intervals <:+ updates) (hprice : ∀ u ∈ updates, 0 ≤ price u)
    (hfits : total (pieces price intervals) ≤ i128.max) (hstart : oldest.ledger ≤ target)
    (hreached : target ≤ ((recordedAfter oldest intervals).getLastD oldest).ledger) :
    ∃ cut later, later.Sublist (overlapping target updates) ∧
      Trims cut (pieces price later) ∧
        ((recordedAfter oldest intervals).getLastD oldest).ledger = target + weight cut ∧
          ∀ interpolated,
            interpolate target (bracket target oldest (recordedAfter oldest intervals)).1
                (bracket target oldest (recordedAfter oldest intervals)).2 value = .ok interpolated →
              i128.wrappingSub (value ((recordedAfter oldest intervals).getLastD oldest)) interpolated =
                total cut := by
  have hnonneg : ∀ u ∈ intervals, 0 ≤ price u := fun u hu => hprice u (hintervals.subset hu)
  unfold bracket
  rcases scan_cases oldest hspaced hstart hstart hreached with
    ⟨y, later, hsuffix, hlater, hledger, hlast, hscan⟩ |
      ⟨y, u, later, hsuffix, hlater, hbefore, hafter, hlast, hscan⟩
  · have hfitsLater := (total_le_of_suffix (hsuffix.map _) (pieces_nonneg hnonneg)).trans hfits
    rw [hscan, hlast]
    refine ⟨pieces price later, later, hlater.sublist_overlapping hledger.ge (hsuffix.trans hintervals),
      Trims.refl _, ?_, fun interpolated hinterpolate => ?_⟩
    · rw [hlater.last_ledger price, hledger]
    · have hsame : value y = interpolated := pure_eq_ok.mp ((if_pos rfl).symm.trans hinterpolate)
      have hmod := (hvalue.last_modEq hlater).sub_right (value y)
      rw [add_sub_cancel_left] at hmod
      rw [← hsame]
      refine Word.wrappingSub_of_modEq hmod (le_trans (by decide) (total_nonneg ?_)) hfitsLater
      exact pieces_nonneg fun v hv => hnonneg v (hsuffix.subset hv)
  · obtain ⟨-, -, hpos, hsequence, hrest⟩ := id hlater
    rw [hscan, hlast]
    refine ⟨(price u, u.sequence - target) :: pieces price later, u :: later, ?_, ?_, ?_, fun interpolated => ?_⟩
    · have hall : overlapping target (u :: later) = u :: later := by
        refine List.filter_eq_self.mpr fun v hv => decide_eq_true ?_
        rcases List.mem_cons.mp hv with rfl | hv
        · exact hafter
        · exact hafter.trans (hrest.lt hv)
      rw [← hall]
      exact (hsuffix.trans hintervals).sublist.filter _
    · refine .cons ⟨rfl, ?_⟩ (Trims.refl _)
      show u.sequence - target ≤ u.timeElapsed
      omega
    · rw [Spaced.last_ledger price hrest, weight_cons]
      show u.sequence + _ = _
      omega
    · exact hvalue.cut_eq hlater hafter hbefore (fun v hv => hnonneg v (hsuffix.subset hv))
        ((total_le_of_suffix (hsuffix.map _) (pieces_nonneg hnonneg)).trans hfits)

/-- How far an average over `window` ledgers may lie from a level: the ledgers on the other side of the level have
to carry the whole distance. -/
structure Resists (price : PriceUpdate → ℤ) (target window : ℕ) (updates : List PriceUpdate) (average : ℤ) :
    Prop where
  above : ∀ high peak, high ≤ peak → (∀ u ∈ overlapping target updates, price u ≤ peak) →
    (average - high) * window ≤ (peak - high) * ledgersOf (high < ·) price target updates
  below : ∀ low, 0 ≤ low →
    (low - average - 1) * window ≤ low * ledgersOf (· < low) price target updates

theorem mul_le_of_le_nonneg {distance bound : ℤ} {window elapsed : ℕ} (hwindow : window ≤ elapsed)
    (hbound : 0 ≤ bound) (hle : distance * elapsed ≤ bound) : distance * window ≤ bound := by
  rcases le_or_gt 0 distance with hnonneg | hneg
  · exact (mul_le_mul_of_nonneg_left (by exact_mod_cast hwindow) hnonneg).trans hle
  · exact (mul_nonpos_of_nonpos_of_nonneg hneg.le (Int.natCast_nonneg _)).trans hbound

theorem Accumulates.resists {window : ℕ} (hvalue : Accumulates value price)
    (hspaced : Spaced oldest.ledger intervals) (hintervals : intervals <:+ updates)
    (hprice : ∀ u ∈ updates, 0 ≤ price u)
    (hfits : (updates.map fun u => price u * (u.timeElapsed : ℤ)).sum ≤ i128.max)
    (hstart : oldest.ledger ≤ target)
    (hwindow : target + window ≤ ((recordedAfter oldest intervals).getLastD oldest).ledger) (hpos : 0 < window)
    (hinterpolate : interpolate target (bracket target oldest (recordedAfter oldest intervals)).1
      (bracket target oldest (recordedAfter oldest intervals)).2 value = .ok interpolated) :
    Resists price target window updates
      ((i128.wrappingSub (value ((recordedAfter oldest intervals).getLastD oldest)) interpolated).tdiv
        ((((recordedAfter oldest intervals).getLastD oldest).ledger - target : ℕ) : ℤ)) := by
  obtain ⟨cut, later, hlater, htrims, hweight, hgain⟩ := hvalue.exists_trimmed hspaced hintervals hprice
    (total_pieces_le hprice hintervals hfits) hstart (by omega)
  have helapsed : window ≤ weight cut := by omega
  have hvalues : ∀ part ∈ cut, ∃ u ∈ overlapping target updates, part.1 = price u := by
    intro part hpart
    obtain ⟨piece, hpiece, hsame⟩ := htrims.exists_mem hpart
    obtain ⟨u, hu, rfl⟩ := List.mem_map.mp hpiece
    exact ⟨u, hlater.subset hu, hsame⟩
  have hledgers : ∀ p, weightOf p cut ≤ ledgersOf p price target updates := fun p =>
    (htrims.weightOf_le p).trans (weightOf_le_of_sublist p (hlater.map _))
  have hnonneg : ∀ part ∈ cut, 0 ≤ part.1 := by
    intro part hpart
    obtain ⟨u, hu, heq⟩ := hvalues part hpart
    rw [heq]
    exact hprice u (List.mem_of_mem_filter hu)
  have haverage : (i128.wrappingSub (value ((recordedAfter oldest intervals).getLastD oldest)) interpolated).tdiv
      ((((recordedAfter oldest intervals).getLastD oldest).ledger - target : ℕ) : ℤ) = mean cut := by
    rw [hgain interpolated hinterpolate, hweight, Nat.add_sub_cancel_left]
    rfl
  rw [haverage]
  constructor
  · intro high peak hle hpeak
    have hbound : (0 : ℤ) ≤ (peak - high) * ledgersOf (high < ·) price target updates :=
      mul_nonneg (sub_nonneg.mpr hle) (Int.natCast_nonneg _)
    refine mul_le_of_le_nonneg helapsed hbound ?_
    calc (mean cut - high) * weight cut ≤ (peak - high) * weightOf (high < ·) cut := by
          refine mean_sub_le_of_outliers hnonneg (by omega) fun part hpart => ?_
          obtain ⟨u, hu, heq⟩ := hvalues part hpart
          rw [heq]
          exact hpeak u hu
      _ ≤ (peak - high) * ledgersOf (high < ·) price target updates :=
          mul_le_mul_of_nonneg_left (by exact_mod_cast hledgers _) (sub_nonneg.mpr hle)
  · intro low hlow
    have hbound : (0 : ℤ) ≤ low * ledgersOf (· < low) price target updates :=
      mul_nonneg hlow (Int.natCast_nonneg _)
    refine mul_le_of_le_nonneg helapsed hbound ?_
    calc (low - mean cut - 1) * weight cut ≤ low * weightOf (· < low) cut :=
          sub_mean_le_of_outliers hnonneg (by omega)
      _ ≤ low * ledgersOf (· < low) price target updates :=
          mul_le_mul_of_nonneg_left (by exact_mod_cast hledgers _) hlow

theorem window_le_of_averageTo_ok {latest : TwapSample} {window : ℕ} {interpolatedA interpolatedB : ℤ}
    {answer : ℤ × ℤ} (hok : averageTo latest target window interpolatedA interpolatedB = .ok answer) :
    target + window ≤ latest.ledger := by
  simp only [averageTo, bind_eq_ok, orTrap_eq_ok, Word.checkedAdd_eq_some, failIf_eq_ok] at hok
  obtain ⟨_, ⟨-, rfl⟩, -, hlate, -⟩ := hok
  omega

end CoralSwap
