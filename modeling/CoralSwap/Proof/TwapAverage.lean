import CoralSwap.Lib.WeightedMean
import CoralSwap.Proof.OraclePruning
import CoralSwap.Proof.TwapShift

/-!
# The average of a window

Where every update records the ledgers passed since the one before, the answer of `consult_twap` is the mean
of the prices in the window, each weighted with the ledgers it stood for. Neither the wrap of the
accumulators nor the interpolation at the window's start adds anything to the one rounding at the end.
-/

namespace CoralSwap

open Host Host.Call RingBuffer WeightedMean

/-- Updates that record the ledgers passed since the one before, the first of them since `ledger`. -/
def Spaced : ℕ → List PriceUpdate → Prop
  | _, [] => True
  | ledger, u :: updates =>
      ¬u.Idle ∧ (0 ≤ u.priceA ∧ 0 ≤ u.priceB) ∧ 0 < u.timeElapsed ∧ u.sequence = ledger + u.timeElapsed ∧
        Spaced u.sequence updates

variable {u : PriceUpdate} {updates later intervals : List PriceUpdate} {last oldest x : TwapSample}
  {rest : List TwapSample} {target ledger : ℕ}

theorem priceA_nonneg (hA : 0 < u.reserveA) (hB : 0 < u.reserveB) : 0 ≤ u.priceA :=
  Int.tdiv_nonneg hB.le hA.le

theorem priceB_nonneg (hA : 0 < u.reserveA) (hB : 0 < u.reserveB) : 0 ≤ u.priceB :=
  Int.tdiv_nonneg hA.le hB.le

theorem spaced_tail (hledgers : (u :: updates).Pairwise fun u v => u.sequence < v.sequence)
    (helapsed : (u :: updates).IsChain fun u v => v.timeElapsed = v.sequence - u.sequence)
    (hreserves : ∀ v ∈ updates, 0 < v.reserveA ∧ 0 < v.reserveB) : Spaced u.sequence updates := by
  induction updates generalizing u with
  | nil => trivial
  | cons v updates ih =>
      obtain ⟨hlt, hrest⟩ := List.pairwise_cons.mp hledgers
      obtain ⟨hgap, hchain⟩ := List.isChain_cons_cons.mp helapsed
      obtain ⟨hA, hB⟩ := hreserves v List.mem_cons_self
      have hv := hlt v List.mem_cons_self
      have hrecords : ¬v.Idle := by
        unfold PriceUpdate.Idle
        omega
      exact ⟨hrecords, ⟨priceA_nonneg hA hB, priceB_nonneg hA hB⟩, by omega, by omega,
        ih hrest hchain fun w hw => hreserves w (List.mem_cons_of_mem v hw)⟩

theorem Spaced.of_suffix (hspaced : Spaced last.ledger updates)
    (hsuffix : oldest :: rest <:+ last :: recordedAfter last updates) :
    ∃ intervals, intervals <:+ updates ∧ Spaced oldest.ledger intervals ∧
      rest = recordedAfter oldest intervals := by
  induction updates generalizing last with
  | nil =>
      rcases List.suffix_cons_iff.mp hsuffix with heq | hnil
      · obtain ⟨rfl, rfl⟩ := List.cons.inj heq
        exact ⟨[], List.suffix_rfl, trivial, rfl⟩
      · exact absurd (List.suffix_nil.mp hnil) (List.cons_ne_nil _ _)
  | cons u updates ih =>
      obtain ⟨hrecords, -, -, -, hrest⟩ := id hspaced
      rcases List.suffix_cons_iff.mp hsuffix with heq | hlater
      · obtain ⟨rfl, rfl⟩ := List.cons.inj heq
        exact ⟨u :: updates, List.suffix_rfl, hspaced, rfl⟩
      · rw [recordedAfter, if_neg hrecords] at hlater
        obtain ⟨intervals, hintervals, hspaced', hrest'⟩ := ih hrest hlater
        exact ⟨intervals, hintervals.trans (List.suffix_cons u updates), hspaced', hrest'⟩

theorem Spaced.lt (hspaced : Spaced ledger updates) (hu : u ∈ updates) : ledger < u.sequence := by
  induction updates generalizing ledger with
  | nil => exact absurd hu List.not_mem_nil
  | cons v updates ih =>
      obtain ⟨-, -, hpos, hsequence, hrest⟩ := hspaced
      rcases List.mem_cons.mp hu with rfl | hu
      · omega
      · have := ih hrest hu
        omega

/-! ### The bracket of a window -/

/-- The scan ends at a sample on the target, or between the two samples around it. -/
theorem scan_cases (start : TwapSample) (hspaced : Spaced x.ledger updates) {finish : TwapSample}
    (hfinish : finish.ledger ≤ target) (hx : x.ledger ≤ target)
    (hreached : target ≤ ((recordedAfter x updates).getLastD x).ledger) :
    (∃ y later, later <:+ updates ∧ Spaced y.ledger later ∧ y.ledger = target ∧
        (recordedAfter x updates).getLastD x = (recordedAfter y later).getLastD y ∧
        scan target (x :: recordedAfter x updates) start finish = (y, y)) ∨
      ∃ y u later, u :: later <:+ updates ∧ Spaced y.ledger (u :: later) ∧ y.ledger < target ∧
        target < u.sequence ∧
        (recordedAfter x updates).getLastD x =
          (recordedAfter (u.sampleAfter y) later).getLastD (u.sampleAfter y) ∧
        scan target (x :: recordedAfter x updates) start finish = (y, u.sampleAfter y) := by
  induction updates generalizing x start with
  | nil =>
      have hsame : x.ledger = target := le_antisymm hx hreached
      exact Or.inl ⟨x, [], List.suffix_rfl, trivial, hsame, rfl, by
        rw [recordedAfter, scan_found hsame.ge hfinish, if_pos hx]⟩
  | cons u updates ih =>
      obtain ⟨hrecords, -, -, -, hrest⟩ := id hspaced
      rcases hx.eq_or_lt with hsame | hbefore
      · exact Or.inl ⟨x, u :: updates, List.suffix_rfl, hspaced, hsame, rfl, by
          rw [scan_found hsame.ge hfinish, if_pos hx]⟩
      · rw [recordedAfter, if_neg hrecords, List.getLastD_cons] at hreached ⊢
        rw [scan_next hbefore]
        rcases lt_or_ge target u.sequence with hpast | hnext
        · refine Or.inr ⟨x, u, updates, List.suffix_rfl, hspaced, hbefore, hpast, rfl, ?_⟩
          rw [scan_found hpast.le hfinish]
          exact congrArg (fun first => (first, u.sampleAfter x)) (if_neg (not_le.mpr hpast))
        · rcases ih x hrest hnext hreached with
            ⟨y, later, hsuffix, hbracket⟩ | ⟨y, v, later, hsuffix, hbracket⟩
          · exact Or.inl ⟨y, later, hsuffix.trans (List.suffix_cons u updates), hbracket⟩
          · exact Or.inr ⟨y, v, later, hsuffix.trans (List.suffix_cons u updates), hbracket⟩

/-! ### Accumulated prices -/

section Accumulated

/-- A cumulative price of the samples, and the price it grows by. -/
structure Accumulates (value : TwapSample → ℤ) (price : PriceUpdate → ℤ) : Prop where
  value_sampleAfter : ∀ u last, value (u.sampleAfter last) =
    i128.wrappingAdd (value last) (i128.wrappingMul (price u) u.timeElapsed)

theorem accumulatesA : Accumulates TwapSample.priceA PriceUpdate.priceA := ⟨fun _ _ => rfl⟩

theorem accumulatesB : Accumulates TwapSample.priceB PriceUpdate.priceB := ⟨fun _ _ => rfl⟩

/-- The prices of some intervals, each with the ledgers it stood for. -/
def pieces (price : PriceUpdate → ℤ) (intervals : List PriceUpdate) : List (ℤ × ℕ) :=
  intervals.map fun u => (price u, u.timeElapsed)

variable {value : TwapSample → ℤ} {price : PriceUpdate → ℤ} {interpolated : ℤ}

theorem pieces_nonneg (hprice : ∀ u ∈ intervals, 0 ≤ price u) :
    ∀ piece ∈ pieces price intervals, 0 ≤ piece.1 := by
  intro piece hpiece
  obtain ⟨u, hu, rfl⟩ := List.mem_map.mp hpiece
  exact hprice u hu

@[simp]
theorem pieces_cons (u : PriceUpdate) (intervals : List PriceUpdate) :
    pieces price (u :: intervals) = (price u, u.timeElapsed) :: pieces price intervals := List.map_cons

theorem total_pieces_le (hprice : ∀ u ∈ intervals, 0 ≤ price u) (hsuffix : later <:+ intervals)
    (hfits : (intervals.map fun u => price u * (u.timeElapsed : ℤ)).sum ≤ i128.max) :
    total (pieces price later) ≤ i128.max := by
  have htotal : total (pieces price intervals) =
      (intervals.map fun u => price u * (u.timeElapsed : ℤ)).sum := by
    rw [total, pieces, List.map_map]
    rfl
  exact (total_le_of_suffix (hsuffix.map _) (pieces_nonneg hprice)).trans (htotal.trans_le hfits)

theorem Accumulates.sampleAfter_modEq (hvalue : Accumulates value price) (u : PriceUpdate) (last : TwapSample) :
    value (u.sampleAfter last) ≡ value last + price u * u.timeElapsed [ZMOD i128.size] := by
  rw [hvalue.value_sampleAfter]
  calc i128.wrappingAdd (value last) (i128.wrappingMul (price u) u.timeElapsed)
      ≡ value last + i128.wrappingMul (price u) u.timeElapsed [ZMOD i128.size] := Word.wrap_modEq _
    _ ≡ value last + price u * u.timeElapsed [ZMOD i128.size] := (Word.wrap_modEq _).add_left _

/-- The last sample carries, modulo the range, what the prices since add up to. -/
theorem Accumulates.last_modEq (hvalue : Accumulates value price) (hspaced : Spaced last.ledger updates) :
    value ((recordedAfter last updates).getLastD last) ≡ value last + total (pieces price updates)
      [ZMOD i128.size] := by
  induction updates generalizing last with
  | nil =>
      rw [pieces, List.map_nil, total_nil, add_zero]
      exact Int.ModEq.rfl
  | cons u updates ih =>
      obtain ⟨hrecords, -, -, -, hrest⟩ := hspaced
      rw [recordedAfter, if_neg hrecords, List.getLastD_cons]
      calc value ((recordedAfter (u.sampleAfter last) updates).getLastD (u.sampleAfter last))
          ≡ value (u.sampleAfter last) + total (pieces price updates) [ZMOD i128.size] := ih hrest
        _ ≡ value last + price u * u.timeElapsed + total (pieces price updates) [ZMOD i128.size] :=
          (hvalue.sampleAfter_modEq u last).add_right _
        _ = value last + total (pieces price (u :: updates)) := by
          rw [pieces_cons, total_cons, add_assoc]

theorem Spaced.last_ledger (price : PriceUpdate → ℤ) (hspaced : Spaced last.ledger updates) :
    ((recordedAfter last updates).getLastD last).ledger = last.ledger + weight (pieces price updates) := by
  induction updates generalizing last with
  | nil => rfl
  | cons u updates ih =>
      obtain ⟨hrecords, -, -, hsequence, hrest⟩ := hspaced
      rw [recordedAfter, if_neg hrecords, List.getLastD_cons, ih hrest, pieces_cons, weight_cons]
      show u.sequence + _ = _
      rw [hsequence, Nat.add_assoc]

/-- Between two consecutive samples the interpolation is exact. -/
theorem Accumulates.interpolate_modEq (hvalue : Accumulates value price)
    (hspaced : Spaced x.ledger (u :: later)) (hprice : 0 ≤ price u) (hfits : price u * u.timeElapsed ≤ i128.max)
    (hinterpolate : interpolate target x (u.sampleAfter x) value = .ok interpolated) :
    interpolated ≡ value x + price u * (target - x.ledger) [ZMOD i128.size] := by
  obtain ⟨-, -, hpos, hsequence, -⟩ := hspaced
  have hne : ¬(u.sampleAfter x).ledger = x.ledger := by
    show ¬u.sequence = x.ledger
    omega
  have hlength : ((u.sampleAfter x).ledger : ℤ) - x.ledger = u.timeElapsed := by
    show (u.sequence : ℤ) - x.ledger = u.timeElapsed
    omega
  have hdifference : i128.wrappingSub (value (u.sampleAfter x)) (value x) = price u * u.timeElapsed := by
    have hnonneg : 0 ≤ price u * u.timeElapsed := mul_nonneg hprice (Int.natCast_nonneg _)
    have hmod := (hvalue.sampleAfter_modEq u x).sub_right (value x)
    rw [add_sub_cancel_left] at hmod
    exact Word.wrappingSub_of_modEq hmod (le_trans (by decide) hnonneg) hfits
  have hexact : (price u * u.timeElapsed * (target - x.ledger)).tdiv u.timeElapsed =
      price u * (target - x.ledger) := by
    rw [mul_right_comm]
    exact Int.mul_tdiv_cancel _ (by omega)
  rw [interpolate, if_neg hne, hdifference, hlength] at hinterpolate
  simp only [bind_eq_ok, orTrap_eq_ok, Word.checkedMul_eq_some, Word.checkedDiv_eq_some,
    pure_eq_ok] at hinterpolate
  obtain ⟨_, ⟨-, rfl⟩, _, ⟨-, -, rfl⟩, rfl⟩ := hinterpolate
  rw [hexact]
  exact Word.wrap_modEq _

/-- What a cumulative price gains from a start inside an interval on. -/
theorem Accumulates.cut_eq (hvalue : Accumulates value price) (hspaced : Spaced x.ledger (u :: later))
    (hafter : target < u.sequence) (hbefore : x.ledger < target) (hprice : ∀ v ∈ u :: later, 0 ≤ price v)
    (hfits : total (pieces price (u :: later)) ≤ i128.max)
    (hinterpolate : interpolate target x (u.sampleAfter x) value = .ok interpolated) :
    i128.wrappingSub (value ((recordedAfter (u.sampleAfter x) later).getLastD (u.sampleAfter x)))
      interpolated = total ((price u, u.sequence - target) :: pieces price later) := by
  obtain ⟨-, -, -, hsequence, hrest⟩ := id hspaced
  have hu : 0 ≤ price u := hprice u List.mem_cons_self
  have hlater : 0 ≤ total (pieces price later) :=
    total_nonneg (pieces_nonneg fun v hv => hprice v (List.mem_cons_of_mem u hv))
  rw [pieces_cons, total_cons] at hfits
  dsimp only at hfits
  have hexact := hvalue.interpolate_modEq hspaced hu (by omega) hinterpolate
  have hlength : ((u.sequence - target : ℕ) : ℤ) = u.timeElapsed - (target - x.ledger) := by omega
  have hcut : price u * ((u.sequence - target : ℕ) : ℤ) ≤ price u * u.timeElapsed :=
    mul_le_mul_of_nonneg_left (by omega) hu
  have hcutNonneg : 0 ≤ price u * ((u.sequence - target : ℕ) : ℤ) := mul_nonneg hu (Int.natCast_nonneg _)
  have hgain : price u * ((u.sequence - target : ℕ) : ℤ) + total (pieces price later) ≤ i128.max := by omega
  rw [total_cons]
  refine Word.wrappingSub_of_modEq ?_ (le_trans (by decide) (add_nonneg hcutNonneg hlater)) hgain
  calc value ((recordedAfter (u.sampleAfter x) later).getLastD (u.sampleAfter x)) - interpolated
      ≡ value x + price u * u.timeElapsed + total (pieces price later) -
          (value x + price u * (target - x.ledger)) [ZMOD i128.size] :=
        ((hvalue.last_modEq hrest).trans ((hvalue.sampleAfter_modEq u x).add_right _)).sub hexact
    _ = price u * ((u.sequence - target : ℕ) : ℤ) + total (pieces price later) := by
        rw [hlength]
        ring

/-- **The window in pieces.** From the interpolated start to the last sample, a cumulative price gains what
the prices of the overlapping intervals add up to, the first of them cut at the start. -/
theorem Accumulates.exists_pieces (hvalue : Accumulates value price) (hspaced : Spaced oldest.ledger intervals)
    (hprice : ∀ u ∈ intervals, 0 ≤ price u) (hfits : total (pieces price intervals) ≤ i128.max)
    (hstart : oldest.ledger ≤ target)
    (hreached : target ≤ ((recordedAfter oldest intervals).getLastD oldest).ledger) :
    ∃ cut : List (ℤ × ℕ), (∀ piece ∈ cut, ∃ u ∈ intervals, target < u.sequence ∧ piece.1 = price u) ∧
      ((recordedAfter oldest intervals).getLastD oldest).ledger = target + weight cut ∧
      ∀ interpolated,
        interpolate target (bracket target oldest (recordedAfter oldest intervals)).1
            (bracket target oldest (recordedAfter oldest intervals)).2 value = .ok interpolated →
          i128.wrappingSub (value ((recordedAfter oldest intervals).getLastD oldest)) interpolated =
            total cut := by
  unfold bracket
  rcases scan_cases oldest hspaced hstart hstart hreached with
    ⟨y, later, hsuffix, hlater, hledger, hlast, hscan⟩ |
      ⟨y, u, later, hsuffix, hlater, hbefore, hafter, hlast, hscan⟩
  · have hlaterPrice : ∀ v ∈ later, 0 ≤ price v := fun v hv => hprice v (hsuffix.subset hv)
    rw [hscan, hlast]
    refine ⟨pieces price later, fun piece hpiece => ?_, ?_, fun interpolated hinterpolate => ?_⟩
    · obtain ⟨v, hv, rfl⟩ := List.mem_map.mp hpiece
      exact ⟨v, hsuffix.subset hv, hledger ▸ hlater.lt hv, rfl⟩
    · rw [hlater.last_ledger price, hledger]
    · have hsame : value y = interpolated := pure_eq_ok.mp ((if_pos rfl).symm.trans hinterpolate)
      have hmod := (hvalue.last_modEq hlater).sub_right (value y)
      rw [add_sub_cancel_left] at hmod
      rw [← hsame]
      exact Word.wrappingSub_of_modEq hmod (le_trans (by decide) (total_nonneg (pieces_nonneg hlaterPrice)))
        ((total_le_of_suffix (hsuffix.map _) (pieces_nonneg hprice)).trans hfits)
  · have hlaterPrice : ∀ v ∈ u :: later, 0 ≤ price v := fun v hv => hprice v (hsuffix.subset hv)
    rw [hscan, hlast]
    obtain ⟨-, -, hpos, hsequence, hrest⟩ := id hlater
    refine ⟨(price u, u.sequence - target) :: pieces price later, fun piece hpiece => ?_, ?_,
      fun interpolated hinterpolate => ?_⟩
    · rcases List.mem_cons.mp hpiece with rfl | hpiece
      · exact ⟨u, hsuffix.subset List.mem_cons_self, hafter, rfl⟩
      · obtain ⟨v, hv, rfl⟩ := List.mem_map.mp hpiece
        exact ⟨v, hsuffix.subset (List.mem_cons_of_mem u hv), hafter.trans (hrest.lt hv), rfl⟩
    · rw [Spaced.last_ledger price hrest, weight_cons]
      show u.sequence + _ = _
      omega
    · exact hvalue.cut_eq hlater hafter hbefore hlaterPrice
        ((total_le_of_suffix (hsuffix.map _) (pieces_nonneg hprice)).trans hfits) hinterpolate

/-- The mean of a window lies between two prices of intervals that overlap it. -/
theorem Accumulates.between (hvalue : Accumulates value price) (hspaced : Spaced oldest.ledger intervals)
    (hintervals : intervals <:+ updates) (hprice : ∀ u ∈ updates, 0 ≤ price u)
    (hfits : (updates.map fun u => price u * (u.timeElapsed : ℤ)).sum ≤ i128.max)
    (hstart : oldest.ledger ≤ target)
    (hreached : target < ((recordedAfter oldest intervals).getLastD oldest).ledger)
    (hinterpolate : interpolate target (bracket target oldest (recordedAfter oldest intervals)).1
      (bracket target oldest (recordedAfter oldest intervals)).2 value = .ok interpolated) :
    let latest := (recordedAfter oldest intervals).getLastD oldest
    let average := (i128.wrappingSub (value latest) interpolated).tdiv ((latest.ledger - target : ℕ) : ℤ)
    let overlapping := updates.filter fun u => target < u.sequence
    (∃ u ∈ overlapping, price u ≤ average) ∧ ∃ u ∈ overlapping, average ≤ price u := by
  intro latest average overlapping
  obtain ⟨cut, hcut, hweight, hgain⟩ := hvalue.exists_pieces hspaced
    (fun u hu => hprice u (hintervals.subset hu)) (total_pieces_le hprice hintervals hfits) hstart hreached.le
  have hoverlaps : ∀ u ∈ intervals, target < u.sequence → u ∈ overlapping := fun u hu hlater =>
    List.mem_filter.mpr ⟨hintervals.subset hu, decide_eq_true hlater⟩
  have hlength : latest.ledger - target = weight cut := Nat.sub_eq_of_eq_add' hweight
  have haverage : average = mean cut := by
    show (i128.wrappingSub (value latest) interpolated).tdiv ((latest.ledger - target : ℕ) : ℤ) = _
    rw [hgain interpolated hinterpolate, hlength]
    rfl
  have hnonneg : ∀ piece ∈ cut, 0 ≤ piece.1 := by
    intro piece hpiece
    obtain ⟨u, hu, -, heq⟩ := hcut piece hpiece
    rw [heq]
    exact hprice u (hintervals.subset hu)
  have hpositive : 0 < weight cut := hlength ▸ Nat.sub_pos_of_lt hreached
  rw [haverage]
  constructor
  · obtain ⟨piece, hpiece, hle⟩ := exists_le_mean hnonneg hpositive
    obtain ⟨u, hu, hlater, heq⟩ := hcut piece hpiece
    exact ⟨u, hoverlaps u hu hlater, heq ▸ hle⟩
  · obtain ⟨piece, hpiece, hle⟩ := exists_mean_le hnonneg hpositive
    obtain ⟨u, hu, hlater, heq⟩ := hcut piece hpiece
    exact ⟨u, hoverlaps u hu hlater, heq ▸ hle⟩

end Accumulated

/-- The live samples of spaced updates follow one another without a gap. -/
theorem exists_live (hledgers : (u :: updates).Pairwise fun u v => u.sequence < v.sequence)
    (hreserves : ∀ v ∈ u :: updates, 0 < v.reserveA ∧ 0 < v.reserveB) (hfirst : 0 < u.timeElapsed)
    (helapsed : (u :: updates).IsChain fun u v => v.timeElapsed = v.sequence - u.sequence) :
    ∃ oldest intervals, intervals <:+ updates ∧ Spaced oldest.ledger intervals ∧
      (oracleMachine.run .new (u :: updates)).toRingBuffer.Holds maxObservations
        (oldest :: recordedAfter oldest intervals) := by
  have hordered : (u :: updates).Pairwise fun u v => u.sequence ≤ v.sequence := hledgers.imp le_of_lt
  have hnonneg : ∀ v ∈ u :: updates, 0 ≤ v.reserveA ∧ 0 ≤ v.reserveB := fun v hv =>
    ⟨(hreserves v hv).1.le, (hreserves v hv).2.le⟩
  have hrecords : ¬u.Idle := by
    have hu := hreserves u List.mem_cons_self
    unfold PriceUpdate.Idle
    omega
  have hspaced : Spaced (u.sampleAfter ⟨0, 0, 0⟩).ledger updates :=
    spaced_tail hledgers helapsed fun v hv => hreserves v (List.mem_cons_of_mem u hv)
  have hrecorded : recorded (u :: updates) =
      u.sampleAfter ⟨0, 0, 0⟩ :: recordedAfter (u.sampleAfter ⟨0, 0, 0⟩) updates := if_neg hrecords
  have hholds := (run_refines new_refines hnonneg hordered fun _ _ x hx =>
    absurd hx List.not_mem_nil).2.holds
  change RingBuffer.Holds _ _ ((survivors (recorded (u :: updates))).rtake _) at hholds
  have hnonempty : (survivors (recorded (u :: updates))).rtake maxObservations ≠ [] := by
    rw [← List.length_pos_iff, length_rtake, Nat.lt_min]
    refine ⟨by decide, List.length_pos_iff.mpr (mt (survivors_eq_nil_iff _).mp ?_)⟩
    rw [hrecorded]
    exact List.cons_ne_nil _ _
  have hsuffix : (survivors (recorded (u :: updates))).rtake maxObservations <:+ recorded (u :: updates) := by
    have hsorted : (recorded (u :: updates)).Pairwise (·.ledger ≤ ·.ledger) := recorded_sorted hordered
    obtain ⟨expired, hsplit, -⟩ := exists_expired hsorted
    exact (rtake_suffix _ _).trans ⟨expired, hsplit.symm⟩
  obtain ⟨oldest, rest, hlive⟩ := List.exists_cons_of_ne_nil hnonempty
  rw [hlive, hrecorded] at hsuffix
  obtain ⟨intervals, hintervals, hspaced', rfl⟩ := hspaced.of_suffix hsuffix
  exact ⟨oldest, intervals, hintervals, hspaced', hlive ▸ hholds⟩

/-- **The average is an average.** Where every update records the ledgers passed since the one before and the
prices of all intervals add up within `i128`, an answered window averages the prices of the intervals that
overlap it, however the accumulators wrap; and shifting all cumulative prices changes no answer. -/
theorem consultTwap_average {sequence windowLedgers : ℕ} {a b : ℤ}
    (hledgers : updates.Pairwise fun u v => u.sequence < v.sequence)
    (hreserves : ∀ u ∈ updates, 0 < u.reserveA ∧ 0 < u.reserveB)
    (hfirst : ∀ u ∈ updates.head?, 0 < u.timeElapsed)
    (helapsed : updates.IsChain fun u v => v.timeElapsed = v.sequence - u.sequence)
    (hfitsA : (updates.tail.map fun u => u.priceA * (u.timeElapsed : ℤ)).sum ≤ i128.max)
    (hfitsB : (updates.tail.map fun u => u.priceB * (u.timeElapsed : ℤ)).sum ≤ i128.max)
    (hok : consultTwap sequence (oracleMachine.run .new updates) windowLedgers = .ok (a, b)) :
    let overlapping := updates.tail.filter fun u => sequence - windowLedgers < u.sequence
    ((∃ u ∈ overlapping, u.priceA ≤ a) ∧ ∃ u ∈ overlapping, a ≤ u.priceA) ∧
      ((∃ u ∈ overlapping, u.priceB ≤ b) ∧ ∃ u ∈ overlapping, b ≤ u.priceB) ∧
      ∀ shiftA shiftB,
        consultTwap sequence ((oracleMachine.run .new updates).shift shiftA shiftB) windowLedgers =
          .ok (a, b) := by
  intro overlapping
  obtain ⟨hpos, hmax⟩ := window_of_consultTwap_ok hok
  have hshift : ∀ shiftA shiftB, consultTwap sequence
      ((oracleMachine.run .new updates).shift shiftA shiftB) windowLedgers = .ok (a, b) :=
    fun shiftA shiftB => (consultTwap_shift _ _ _ _ _).trans hok
  cases updates with
  | nil =>
      have hnone : (oracleMachine.run .new []).toRingBuffer.Holds maxObservations [] := new_refines.holds
      rw [consultTwap_eq hnone hpos hmax] at hok
      cases hok
  | cons first updates =>
      obtain ⟨oldest, intervals, hintervals, hspaced, hholds⟩ :=
        exists_live hledgers hreserves (hfirst first rfl) helapsed
      rw [consultTwap_eq hholds hpos hmax] at hok
      obtain ⟨hstart, interpolatedA, interpolatedB, hA, hB, haverage⟩ := queryTwap_ok hok
      obtain ⟨hreached, rfl, rfl⟩ := averageTo_ok hpos haverage
      have hreservesRest : ∀ v ∈ updates, 0 < v.reserveA ∧ 0 < v.reserveB := fun v hv =>
        hreserves v (List.mem_cons_of_mem first hv)
      have hpriceA : ∀ v ∈ updates, 0 ≤ v.priceA := fun v hv =>
        priceA_nonneg (hreservesRest v hv).1 (hreservesRest v hv).2
      have hpriceB : ∀ v ∈ updates, 0 ≤ v.priceB := fun v hv =>
        priceB_nonneg (hreservesRest v hv).1 (hreservesRest v hv).2
      exact ⟨accumulatesA.between hspaced hintervals hpriceA hfitsA hstart hreached hA,
        accumulatesB.between hspaced hintervals hpriceB hfitsB hstart hreached hB, hshift⟩

/-- Updates whose accumulator wraps at the second of them. -/
def wrappedUpdates : List PriceUpdate :=
  [⟨5000, 1, 2 ^ 127 - 1, 1, by decide, by decide, by decide, by decide⟩,
    ⟨5100, 170, 510, 100, by decide, by decide, by decide, by decide⟩,
    ⟨5200, 180, 1260, 100, by decide, by decide, by decide, by decide⟩]

theorem consultTwap_average_wrapped :
    consultTwap 5200 ((oracleMachine.run .new wrappedUpdates).shift 9 (-4)) 150 = .ok (5, 0) :=
  (@consultTwap_average wrappedUpdates 5200 150 5 0 (by decide) (by decide) (by decide)
    (by decide) (by decide +kernel) (by decide +kernel) (by decide +kernel)).2.2 9 (-4)

end CoralSwap
