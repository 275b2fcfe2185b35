import CoralSwap.Proof.OracleRing

/-!
# Queries of the oracle

What `consult_twap` answers depends on the live samples only. A query scans them once for the two samples
around the start of its window.
-/

namespace CoralSwap

open Host Host.Call RingBuffer

/-- The scan of `consult_twap` over a list of samples. -/
def scan (target : ℕ) : List TwapSample → TwapSample → TwapSample → TwapSample × TwapSample
  | [], start, finish => (start, finish)
  | x :: rest, start, finish =>
      let start := if x.ledger ≤ target then x else start
      if target ≤ x.ledger ∧ finish.ledger ≤ target then (start, x) else scan target rest start finish

/-- The two samples around the start of a window. -/
def bracket (target : ℕ) (oldest : TwapSample) (rest : List TwapSample) : TwapSample × TwapSample :=
  scan target (oldest :: rest) oldest oldest

/-- The average from an interpolated start to the latest sample, if that is as late as the window asks. -/
def averageTo (latest : TwapSample) (target windowLedgers : ℕ) (interpolatedA interpolatedB : ℤ) :
    Call OracleError (ℤ × ℤ) := do
  let horizon ← orTrap (u64.checkedAdd target windowLedgers)
  failIf (latest.ledger < horizon) .windowTooShort
  let timeElapsed := latest.ledger - target
  if timeElapsed = 0 then pure (0, 0)
  else do
    let priceAAvg ← orTrap (i128.checkedDiv (i128.wrappingSub latest.priceA interpolatedA) timeElapsed)
    let priceBAvg ← orTrap (i128.checkedDiv (i128.wrappingSub latest.priceB interpolatedB) timeElapsed)
    pure (priceAAvg, priceBAvg)

/-- What `consult_twap` answers from its live samples, for a window of admitted length. -/
def queryTwap (target windowLedgers : ℕ) : List TwapSample → Call OracleError (ℤ × ℤ)
  | [] => fail .windowTooShort
  | oldest :: rest => do
      failIf (target < oldest.ledger) .windowTooShort
      let interpolatedA ←
        interpolate target (bracket target oldest rest).1 (bracket target oldest rest).2 TwapSample.priceA
      let interpolatedB ←
        interpolate target (bracket target oldest rest).1 (bracket target oldest rest).2 TwapSample.priceB
      averageTo (rest.getLastD oldest) target windowLedgers interpolatedA interpolatedB

variable {state : OracleState} {live : List TwapSample} {oldest start finish x : TwapSample}
  {rest : List TwapSample} {sequence target windowLedgers : ℕ}

theorem scanLoop_eq (hholds : state.toRingBuffer.Holds maxObservations live) {rounds index : ℕ}
    (hrounds : index + rounds = live.length) :
    scanLoop state target rounds index start finish = .ok (scan target (live.drop index) start finish) := by
  induction rounds generalizing index start with
  | zero =>
      rw [List.drop_eq_nil_of_le (by omega)]
      rfl
  | succ rounds ih =>
      have hindex : index < live.length := by omega
      have hsample : state.sample index = some live[index] :=
        (hholds.sample_eq index).trans (List.getElem?_eq_getElem hindex)
      rw [List.drop_eq_getElem_cons hindex, scanLoop, hsample, scan]
      by_cases hfound : target ≤ live[index].ledger ∧ finish.ledger ≤ target
      · rw [if_pos hfound]
        exact if_pos hfound
      · rw [if_neg hfound, ← ih (by omega)]
        exact if_neg hfound

theorem consultTwap_eq (hholds : state.toRingBuffer.Holds maxObservations live) (hpos : 0 < windowLedgers)
    (hmax : windowLedgers ≤ maxTwapWindow) :
    consultTwap sequence state windowLedgers = queryTwap (sequence - windowLedgers) windowLedgers live := by
  have hcount := hholds.count_eq
  have hlong : ¬maxTwapWindow < windowLedgers := not_lt.mpr hmax
  cases live with
  | nil =>
      have hempty : state.isEmpty = true := beq_iff_eq.mpr hcount
      rw [consultTwap, failIf, if_neg hpos.ne', failIf, if_neg hlong, failIf, if_pos hempty]
      rfl
  | cons oldest rest =>
      have hempty : ¬state.isEmpty = true := by
        rw [OracleState.isEmpty, beq_iff_eq, hcount, List.length_cons]
        omega
      have holdest : state.sample 0 = some oldest := hholds.sample_eq 0
      have hnewest : state.newest = some (rest.getLastD oldest) := by
        rw [newest_eq hholds, List.getLast?_cons, List.getLastD_eq_getLast?]
      have hscan : scanLoop state (sequence - windowLedgers) state.len 0 oldest oldest =
          .ok (bracket (sequence - windowLedgers) oldest rest) := by
        rw [OracleState.len, hcount]
        exact scanLoop_eq hholds (Nat.zero_add _)
      rw [consultTwap, failIf, if_neg hpos.ne', failIf, if_neg hlong, failIf, if_neg hempty]
      rw [holdest, hnewest]
      show (failIf _ _ >>= fun _ => scanLoop _ _ _ _ _ _ >>= _) = (failIf _ _ >>= _)
      rw [hscan]
      rfl

/-! ### The bracket -/

theorem scan_found (hreached : target ≤ x.ledger) (hfinish : finish.ledger ≤ target) :
    scan target (x :: rest) start finish = (if x.ledger ≤ target then x else start, x) :=
  if_pos ⟨hreached, hfinish⟩

theorem scan_next (hbefore : x.ledger < target) :
    scan target (x :: rest) start finish = scan target rest x finish := by
  have hnot : ¬(target ≤ x.ledger ∧ finish.ledger ≤ target) := fun hfound =>
    absurd hfound.1 (not_le.mpr hbefore)
  rw [scan, if_neg hnot, if_pos hbefore.le]

theorem scan_append {before after : List TwapSample} (hbefore : ∀ x ∈ before, x.ledger < target) :
    scan target (before ++ after) start finish =
      scan target after ((before.getLast?).getD start) finish := by
  induction before generalizing start with
  | nil => rfl
  | cons x before ih =>
      rw [List.cons_append, scan_next (hbefore x List.mem_cons_self), List.getLast?_cons, Option.getD_some]
      exact ih fun y hy => hbefore y (List.mem_cons_of_mem x hy)

/-- Where the scan meets a sample that is not before the target, it no longer matters where it began. -/
theorem scan_finish {finish' : TwapSample} (hreached : ∃ x ∈ live, target ≤ x.ledger)
    (hfinish : finish.ledger ≤ target) (hfinish' : finish'.ledger ≤ target) :
    scan target live start finish = scan target live start finish' := by
  induction live generalizing start with
  | nil =>
      obtain ⟨x, hx, -⟩ := hreached
      exact absurd hx List.not_mem_nil
  | cons x rest ih =>
      rcases le_or_gt target x.ledger with hfound | hbefore
      · rw [scan_found hfound hfinish, scan_found hfound hfinish']
      · have hlater : ∃ y ∈ rest, target ≤ y.ledger := by
          obtain ⟨y, hy, hle⟩ := hreached
          rcases List.mem_cons.mp hy with rfl | hy
          · exact absurd hle (not_le.mpr hbefore)
          · exact ⟨y, hy, hle⟩
        rw [scan_next hbefore, scan_next hbefore]
        exact ih hlater

/-- The bracket of a window that starts among some samples is not changed by older ones. -/
theorem bracket_append {older : List TwapSample} {x : TwapSample} (holder : ∀ y ∈ older, y.ledger < target)
    (hsplit : x :: live = older ++ oldest :: rest) (holdest : oldest.ledger ≤ target)
    (hx : x.ledger ≤ target) (hreached : ∃ y ∈ oldest :: rest, target ≤ y.ledger) :
    bracket target x live = bracket target oldest rest := by
  rw [bracket, hsplit, scan_append holder, scan_finish hreached hx holdest, scan, if_pos holdest, bracket, scan,
    if_pos holdest]

/-! ### The interpolation -/

/-- The interpolation between two samples stays in the range of `i128`. -/
def Interpolates (target : ℕ) (start finish : TwapSample) (price : TwapSample → ℤ) : Prop :=
  let scaled := i128.wrappingSub (price finish) (price start) * (target - start.ledger)
  let offset := scaled.tdiv (finish.ledger - start.ledger)
  finish.ledger = start.ledger ∨
    (i128.min ≤ scaled ∧ scaled ≤ i128.max) ∧ i128.min ≤ offset ∧ offset ≤ i128.max
  deriving Decidable

/-- Both prices can be interpolated at the start of a window. -/
def Interpolable (target : ℕ) (oldest : TwapSample) (rest : List TwapSample) : Prop :=
  Interpolates target (bracket target oldest rest).1 (bracket target oldest rest).2 TwapSample.priceA ∧
    Interpolates target (bracket target oldest rest).1 (bracket target oldest rest).2 TwapSample.priceB
  deriving Decidable

variable {price : TwapSample → ℤ} {latest : TwapSample} {interpolatedA interpolatedB : ℤ}

theorem exists_interpolate_ok (hrange : Interpolates target start finish price) :
    ∃ value, interpolate target start finish price = .ok value := by
  rw [interpolate]
  by_cases hsame : finish.ledger = start.ledger
  · exact ⟨_, if_pos hsame⟩
  · obtain ⟨hscaled, hoffset⟩ := hrange.resolve_left hsame
    have hlength : (finish.ledger : ℤ) - start.ledger ≠ 0 := by omega
    simp only [if_neg hsame, orTrap, bind, Except.bind, Word.checkedMul, Word.checked, if_pos hscaled,
      Word.checkedDiv, if_neg hlength, if_pos hoffset]
    exact ⟨_, rfl⟩

theorem interpolate_eq_trap (hrange : ¬Interpolates target start finish price) :
    interpolate target start finish price = .error .trap := by
  unfold Interpolates at hrange
  obtain ⟨hsame, hoverflow⟩ := not_or.mp hrange
  have hlength : (finish.ledger : ℤ) - start.ledger ≠ 0 := by omega
  rw [interpolate, if_neg hsame, Word.checkedMul, Word.checked]
  split
  · next hscaled =>
      have hoffset := mt (And.intro hscaled) hoverflow
      simp only [orTrap, bind, Except.bind, Word.checkedDiv, if_neg hlength, Word.checked, if_neg hoffset]
      rfl
  · rfl

/-! ### Refused windows -/

theorem averageTo_short_iff (hbound : (target : ℤ) + windowLedgers ≤ u64.max) :
    averageTo latest target windowLedgers interpolatedA interpolatedB = .error (.error .windowTooShort) ↔
      latest.ledger < target + windowLedgers := by
  have hadd : u64.checkedAdd target windowLedgers = some ((target : ℤ) + windowLedgers) := by
    have hlow : u64.min = 0 := rfl
    rw [Word.checkedAdd_eq_some]
    omega
  rw [averageTo, hadd]
  by_cases hshort : latest.ledger < target + windowLedgers
  · have hcast : (latest.ledger : ℤ) < target + windowLedgers := by exact_mod_cast hshort
    simp only [orTrap, bind, Except.bind, failIf, if_pos hcast]
    exact iff_of_true rfl hshort
  · have hcast : ¬(latest.ledger : ℤ) < target + windowLedgers := by exact_mod_cast hshort
    refine iff_of_false ?_ hshort
    simp only [orTrap, bind, Except.bind, failIf, if_neg hcast]
    split
    · simp [pure, Except.pure]
    · cases i128.checkedDiv (i128.wrappingSub latest.priceA interpolatedA) (latest.ledger - target : ℕ) with
      | none => simp [trap]
      | some a =>
          cases i128.checkedDiv (i128.wrappingSub latest.priceB interpolatedB) (latest.ledger - target : ℕ) with
          | none => simp [trap]
          | some b => simp [pure, Except.pure]

theorem queryTwap_eq_trap (holdest : oldest.ledger ≤ target) (hrange : ¬Interpolable target oldest rest) :
    queryTwap target windowLedgers (oldest :: rest) = .error .trap := by
  rw [queryTwap, failIf, if_neg (not_lt.mpr holdest)]
  rcases not_and_or.mp hrange with hA | hB
  · rw [interpolate_eq_trap hA]
    rfl
  · by_cases hA : Interpolates target (bracket target oldest rest).1 (bracket target oldest rest).2
        TwapSample.priceA
    · obtain ⟨value, hvalue⟩ := exists_interpolate_ok hA
      rw [hvalue, interpolate_eq_trap hB]
      rfl
    · rw [interpolate_eq_trap hA]
      rfl

/-- **Refused windows** start before the oldest sample, or end after the latest. -/
theorem queryTwap_short_iff (oldest : TwapSample) (rest : List TwapSample)
    (hbound : (target : ℤ) + windowLedgers ≤ u64.max) :
    queryTwap target windowLedgers (oldest :: rest) = .error (.error .windowTooShort) ↔
      target < oldest.ledger ∨
        Interpolable target oldest rest ∧ (rest.getLastD oldest).ledger < target + windowLedgers := by
  by_cases hearly : target < oldest.ledger
  · rw [queryTwap, failIf, if_pos hearly]
    exact iff_of_true rfl (Or.inl hearly)
  · by_cases hrange : Interpolable target oldest rest
    · obtain ⟨a, ha⟩ := exists_interpolate_ok hrange.1
      obtain ⟨b, hb⟩ := exists_interpolate_ok hrange.2
      rw [queryTwap, failIf, if_neg hearly]
      simp only [ha, hb]
      refine (averageTo_short_iff hbound).trans ?_
      exact ⟨fun hshort => Or.inr ⟨hrange, hshort⟩, fun hcases => (hcases.resolve_left hearly).2⟩
    · rw [queryTwap_eq_trap (not_lt.mp hearly) hrange]
      refine iff_of_false (fun heq => ?_) (not_or.mpr ⟨hearly, fun hboth => hrange hboth.1⟩)
      cases heq

/-! ### Answered windows -/

theorem averageTo_ok {a b : ℤ} (hpos : 0 < windowLedgers)
    (hok : averageTo latest target windowLedgers interpolatedA interpolatedB = .ok (a, b)) :
    target < latest.ledger ∧
      a = (i128.wrappingSub latest.priceA interpolatedA).tdiv ((latest.ledger - target : ℕ) : ℤ) ∧
      b = (i128.wrappingSub latest.priceB interpolatedB).tdiv ((latest.ledger - target : ℕ) : ℤ) := by
  simp only [averageTo, bind_eq_ok, orTrap_eq_ok, Word.checkedAdd_eq_some, failIf_eq_ok] at hok
  obtain ⟨_, ⟨-, rfl⟩, -, hlate, hok⟩ := hok
  have hreached : target < latest.ledger := by omega
  rw [if_neg (by omega)] at hok
  simp only [bind_eq_ok, orTrap_eq_ok, Word.checkedDiv_eq_some, pure_eq_ok, Prod.mk.injEq] at hok
  obtain ⟨_, ⟨-, -, rfl⟩, _, ⟨-, -, rfl⟩, rfl, rfl⟩ := hok
  exact ⟨hreached, rfl, rfl⟩

theorem queryTwap_ok {answer : ℤ × ℤ} (hok : queryTwap target windowLedgers (oldest :: rest) = .ok answer) :
    oldest.ledger ≤ target ∧ ∃ interpolatedA interpolatedB,
      interpolate target (bracket target oldest rest).1 (bracket target oldest rest).2 TwapSample.priceA =
          .ok interpolatedA ∧
        interpolate target (bracket target oldest rest).1 (bracket target oldest rest).2 TwapSample.priceB =
          .ok interpolatedB ∧
        averageTo (rest.getLastD oldest) target windowLedgers interpolatedA interpolatedB = .ok answer := by
  simp only [queryTwap, bind_eq_ok, failIf_eq_ok, exists_const] at hok
  obtain ⟨hstart, interpolatedA, hA, interpolatedB, hB, haverage⟩ := hok
  exact ⟨not_lt.mp hstart, interpolatedA, interpolatedB, hA, hB, haverage⟩

theorem window_of_consultTwap_ok {answer : ℤ × ℤ}
    (hok : consultTwap sequence state windowLedgers = .ok answer) :
    0 < windowLedgers ∧ windowLedgers ≤ maxTwapWindow := by
  simp only [consultTwap, bind_eq_ok, failIf_eq_ok] at hok
  obtain ⟨-, hpos, -, hmax, -⟩ := hok
  exact ⟨Nat.pos_of_ne_zero hpos, not_lt.mp hmax⟩

end CoralSwap
