import CoralSwap.Proof.TwapQueries

/-!
# What pruning hides

A sample that is too old to start a window can still be the one before its start. Queries of windows that
start between the last pruned sample and the oldest kept one are where pruning shows.
-/

namespace CoralSwap

open Host Host.Call RingBuffer

/-! ### The oracle without pruning -/

/-- `update_cumulative_prices` less the call of `prune_expired`. -/
def updateUnpruned (sequence : ℕ) (state : OracleState) (reserveA reserveB : ℤ) (timeElapsed : ℕ) :
    Call OracleError OracleState :=
  if reserveA = 0 ∨ reserveB = 0 ∨ timeElapsed = 0 then pure state
  else do
    let priceA ← orTrap (i128.checkedDiv reserveB reserveA)
    let priceB ← orTrap (i128.checkedDiv reserveA reserveB)
    let priceACumulative := i128.wrappingAdd state.priceACumulative (i128.wrappingMul priceA timeElapsed)
    let priceBCumulative := i128.wrappingAdd state.priceBCumulative (i128.wrappingMul priceB timeElapsed)
    { state with priceACumulative, priceBCumulative }.push ⟨sequence, priceACumulative, priceBCumulative⟩

def unprunedMachine : Machine OracleState PriceUpdate OracleError where
  exec state update :=
    updateUnpruned update.sequence state update.reserveA update.reserveB update.timeElapsed

variable {state : OracleState} {samples kept history : List TwapSample} {last x : TwapSample}
  {u : PriceUpdate} {updates : List PriceUpdate} {sequence target windowLedgers : ℕ}

theorem unpruned_update_holds
    (hholds : state.toRingBuffer.Holds maxObservations (history.rtake maxObservations))
    (hpriceA : state.priceACumulative = last.priceA) (hpriceB : state.priceBCumulative = last.priceB)
    (hA : 0 ≤ u.reserveA) (hB : 0 ≤ u.reserveB) (hrecords : ¬u.Idle) :
    ∃ state' : OracleState, unprunedMachine.exec state u = .ok state' ∧
      state'.toRingBuffer.Holds maxObservations ((history ++ [u.sampleAfter last]).rtake maxObservations) ∧
      state'.priceACumulative = (u.sampleAfter last).priceA ∧
      state'.priceBCumulative = (u.sampleAfter last).priceB := by
  have hidle : ¬(u.reserveA = 0 ∨ u.reserveB = 0 ∨ u.timeElapsed = 0) := hrecords
  obtain ⟨hdivA, hdivB⟩ := prices_ok hA hB hrecords
  set next := u.sampleAfter last with hnext
  set moved : OracleState := ⟨state.toRingBuffer, next.priceA, next.priceB⟩ with hmoved
  obtain ⟨ring, hpush, hring⟩ := push_ok moved hholds next
  refine ⟨{ moved with toRingBuffer := ring }, ?_, hring, rfl, rfl⟩
  show updateUnpruned _ _ _ _ _ = _
  rw [updateUnpruned, if_neg hidle, hdivA, hdivB]
  simp only [orTrap, bind, Except.bind, hpriceA, hpriceB]
  exact hpush

/-- Without pruning the ring holds the newest of all recorded samples. -/
theorem unpruned_run_holds (history : List TwapSample)
    (hholds : state.toRingBuffer.Holds maxObservations (history.rtake maxObservations))
    (hpriceA : state.priceACumulative = last.priceA) (hpriceB : state.priceBCumulative = last.priceB)
    (hreserves : ∀ u ∈ updates, 0 ≤ u.reserveA ∧ 0 ≤ u.reserveB) :
    (unprunedMachine.run state updates).toRingBuffer.Holds maxObservations
      ((history ++ recordedAfter last updates).rtake maxObservations) := by
  induction updates generalizing state history last with
  | nil =>
      rw [recordedAfter, List.append_nil]
      exact hholds
  | cons u updates ih =>
      have hrest : ∀ v ∈ updates, 0 ≤ v.reserveA ∧ 0 ≤ v.reserveB := fun v hv =>
        hreserves v (List.mem_cons_of_mem u hv)
      obtain ⟨hA, hB⟩ := hreserves u List.mem_cons_self
      rw [recordedAfter, Machine.run_cons]
      by_cases hidle : u.Idle
      · have hexec : unprunedMachine.exec state u = .ok state := if_pos hidle
        rw [if_pos hidle, Machine.step_of_exec_ok hexec]
        exact ih history hholds hpriceA hpriceB hrest
      · obtain ⟨state', hexec, hholds', hpriceA', hpriceB'⟩ :=
          unpruned_update_holds hholds hpriceA hpriceB hA hB hidle
        rw [if_neg hidle, Machine.step_of_exec_ok hexec, List.append_cons]
        exact ih _ hholds' hpriceA' hpriceB' hrest

/-! ### The samples kept -/

theorem length_recordedAfter_le (last : TwapSample) (updates : List PriceUpdate) :
    (recordedAfter last updates).length ≤ updates.length := by
  induction updates generalizing last with
  | nil => exact le_rfl
  | cons u updates ih =>
      rw [recordedAfter]
      split
      · exact (ih last).trans (Nat.le_succ _)
      · exact Nat.succ_le_succ (ih _)

/-- Every recorded sample stands at the ledger of its update. -/
theorem exists_update_of_recorded (hx : x ∈ recordedAfter last updates) :
    ∃ u ∈ updates, x.ledger = u.sequence := by
  induction updates generalizing last with
  | nil => exact absurd hx List.not_mem_nil
  | cons u updates ih =>
      rw [recordedAfter] at hx
      split at hx
      · obtain ⟨v, hv, hledger⟩ := ih hx
        exact ⟨v, List.mem_cons_of_mem u hv, hledger⟩
      · rcases List.mem_cons.mp hx with rfl | hx
        · exact ⟨u, List.mem_cons_self, rfl⟩
        · obtain ⟨v, hv, hledger⟩ := ih hx
          exact ⟨v, List.mem_cons_of_mem u hv, hledger⟩

theorem recorded_sorted (hledgers : updates.Pairwise fun u v => u.sequence ≤ v.sequence) :
    (recordedAfter last updates).Pairwise (·.ledger ≤ ·.ledger) := by
  induction updates generalizing last with
  | nil => exact List.Pairwise.nil
  | cons u updates ih =>
      obtain ⟨hfirst, hrest⟩ := List.pairwise_cons.mp hledgers
      rw [recordedAfter]
      split
      · exact ih hrest
      · refine List.pairwise_cons.mpr ⟨fun x hx => ?_, ih hrest⟩
        obtain ⟨v, hv, hledger⟩ := exists_update_of_recorded hx
        rw [hledger]
        exact hfirst v hv

/-- The survivors of samples in order are those within the longest window before the last. -/
theorem survivors_concat (hsorted : (samples ++ [x]).Pairwise (·.ledger ≤ ·.ledger)) :
    survivors (samples ++ [x]) = (samples ++ [x]).filter (·.survives x.ledger) := by
  rw [List.filter_append, List.filter_singleton, survives_self, cond_true, survivors, List.foldl_append]
  show remember (survivors samples) x = _
  rw [remember]
  congr 1
  induction samples using List.reverseRecOn generalizing x with
  | nil => rfl
  | append_singleton init y ih =>
      obtain ⟨hinit, -, hx⟩ := List.pairwise_append.mp hsorted
      have hy : y.ledger ≤ x.ledger :=
        hx y (List.mem_append_right init (List.mem_singleton_self y)) x (List.mem_singleton_self x)
      rw [survivors, List.foldl_append]
      show (remember (survivors init) y).filter _ = _
      rw [remember, ih hinit, List.filter_append, List.filter_append, List.filter_filter]
      congr 1
      refine List.filter_congr fun z _ => ?_
      -- what reaches the later sample reaches the earlier one
      rw [Bool.and_eq_left_iff_imp]
      intro hz
      rw [survives_iff] at hz ⊢
      omega

theorem ledger_le_of_mem {y : TwapSample} (hsorted : (x :: samples).Pairwise (·.ledger ≤ ·.ledger))
    (hy : y ∈ x :: samples) : x.ledger ≤ y.ledger := by
  rcases List.mem_cons.mp hy with rfl | hlater
  · exact le_rfl
  · exact (List.pairwise_cons.mp hsorted).1 y hlater

theorem getLastD_of_append {expired later : List TwapSample} {oldest : TwapSample}
    (hsplit : x :: samples = expired ++ oldest :: later) : later.getLastD oldest = samples.getLastD x := by
  have hsame := congrArg List.getLast? hsplit
  rw [List.getLast?_append_cons, List.getLast?_cons, List.getLast?_cons] at hsame
  rw [List.getLastD_eq_getLast?, List.getLastD_eq_getLast?]
  exact (Option.some.inj hsame).symm

/-- Pruning cuts the samples in two: those before the cut are older than all kept ones. -/
theorem exists_expired (hsorted : samples.Pairwise (·.ledger ≤ ·.ledger)) :
    ∃ expired, samples = expired ++ survivors samples ∧
      ∀ y ∈ expired, ∀ k ∈ survivors samples, y.ledger < k.ledger := by
  rcases List.eq_nil_or_concat' samples with rfl | ⟨init, x, rfl⟩
  · exact ⟨[], rfl, fun y hy => absurd hy List.not_mem_nil⟩
  · rw [survivors_concat hsorted, ← dropWhile_eq_filter (survives_mono hsorted x.ledger)]
    refine ⟨_, List.takeWhile_append_dropWhile.symm, fun y hy k hk => ?_⟩
    have hexpired := List.mem_takeWhile_imp hy
    rw [dropWhile_eq_filter (survives_mono hsorted x.ledger), List.mem_filter] at hk
    have hkept := survives_iff.mp hk.2
    have hgone : ¬((x.ledger : ℤ) ≤ y.ledger + maxTwapWindow) := by
      rw [← survives_iff]
      simpa using hexpired
    omega

/-! ### Queries with and without pruning -/

/-- A window for which pruning does not show. One that starts between the first sample and the oldest kept
one is refused for its end; one that starts after the last sample overflows either way or neither. -/
def Unobserved (target windowLedgers : ℕ) : List TwapSample → List TwapSample → Prop
  | first :: rest, oldest :: later =>
      (first.ledger ≤ target → target < oldest.ledger →
        Interpolable target first rest ∧ (rest.getLastD first).ledger < target + windowLedgers) ∧
      ((rest.getLastD first).ledger < target →
        (Interpolable target oldest later ↔ Interpolable target first rest))
  | _, _ => True

instance decidableUnobserved (target windowLedgers : ℕ) :
    ∀ samples kept, Decidable (Unobserved target windowLedgers samples kept)
  | [], _ => isTrue trivial
  | _ :: _, [] => isTrue trivial
  | _ :: _, _ :: _ => inferInstanceAs (Decidable (_ ∧ _))

/-- Two windows that both end too late are refused alike, unless only one interpolation overflows. -/
theorem queries_agree_iff {oldest first : TwapSample} {later rest : List TwapSample}
    (hwindow : (target : ℤ) + windowLedgers ≤ u64.max) (holdest : oldest.ledger ≤ target)
    (hfirst : first.ledger ≤ target) (hlater : (later.getLastD oldest).ledger < target + windowLedgers)
    (hrest : (rest.getLastD first).ledger < target + windowLedgers) :
    queryTwap target windowLedgers (oldest :: later) = queryTwap target windowLedgers (first :: rest) ↔
      (Interpolable target oldest later ↔ Interpolable target first rest) := by
  by_cases hkept : Interpolable target oldest later
  · rw [(queryTwap_short_iff _ _ hwindow).mpr (Or.inr ⟨hkept, hlater⟩), eq_comm,
      queryTwap_short_iff _ _ hwindow]
    constructor
    · intro hcases
      exact iff_of_true hkept (hcases.resolve_left (not_lt.mpr hfirst)).1
    · intro hiff
      exact Or.inr ⟨hiff.mp hkept, hrest⟩
  · rw [queryTwap_eq_trap holdest hkept, iff_false_left hkept]
    by_cases hall : Interpolable target first rest
    · rw [(queryTwap_short_iff _ _ hwindow).mpr (Or.inr ⟨hall, hrest⟩)]
      refine iff_of_false (fun heq => ?_) (not_not.mpr hall)
      cases heq
    · rw [queryTwap_eq_trap hfirst hall]
      exact iff_of_true rfl hall

/-- **Queries with and without pruning** agree in the windows for which pruning does not show. -/
theorem query_kept_iff {expired : List TwapSample} (hsorted : samples.Pairwise (·.ledger ≤ ·.ledger))
    (hsplit : samples = expired ++ kept) (hexpired : ∀ y ∈ expired, ∀ k ∈ kept, y.ledger < k.ledger)
    (hkept : samples ≠ [] → kept ≠ []) (hwindow : (target : ℤ) + windowLedgers ≤ u64.max) :
    queryTwap target windowLedgers kept = queryTwap target windowLedgers samples ↔
      Unobserved target windowLedgers samples kept := by
  cases samples with
  | nil =>
      obtain ⟨-, rfl⟩ := List.append_eq_nil_iff.mp hsplit.symm
      exact iff_of_true rfl trivial
  | cons first rest =>
      obtain ⟨oldest, later, rfl⟩ := List.exists_cons_of_ne_nil (hkept (List.cons_ne_nil first rest))
      have hlast : later.getLastD oldest = rest.getLastD first := getLastD_of_append hsplit
      set last := rest.getLastD first with hlastdef
      have hmem : last ∈ oldest :: later := by
        rw [← hlast]
        exact List.getLastD_mem_cons
      have hfirst : first.ledger ≤ oldest.ledger := by
        refine ledger_le_of_mem hsorted ?_
        rw [hsplit]
        exact List.mem_append_right expired List.mem_cons_self
      have holdest : oldest.ledger ≤ last.ledger := by
        rw [hsplit] at hsorted
        exact ledger_le_of_mem (List.pairwise_append.mp hsorted).2.1 hmem
      have hshort := queryTwap_short_iff first rest hwindow
      have hshortKept := queryTwap_short_iff oldest later hwindow
      rw [hlast] at hshortKept
      rw [Unobserved, ← hlastdef]
      rcases lt_or_ge target first.ledger with hearly | hlate
      · -- both refuse a window that starts before the first sample
        rw [hshort.mpr (Or.inl hearly), hshortKept.mpr (Or.inl (by omega))]
        exact iff_of_true rfl ⟨fun hle => absurd hle (by omega), fun hgt => absurd hgt (by omega)⟩
      rcases lt_or_ge target oldest.ledger with hbetween | hafter
      · -- pruning refuses it, whatever the pruned samples would have answered
        rw [hshortKept.mpr (Or.inl hbetween), eq_comm, hshort]
        constructor
        · intro hcases
          exact ⟨fun _ _ => hcases.resolve_left (by omega), fun hgt => absurd hgt (by omega)⟩
        · intro hunobserved
          exact Or.inr (hunobserved.1 hlate hbetween)
      rcases lt_or_ge last.ledger target with hbeyond | hreached
      · rw [and_iff_right fun _ hlt => absurd hlt (by omega), imp_iff_right hbeyond]
        have hend : last.ledger < target + windowLedgers := hbeyond.trans_le (Nat.le_add_right _ _)
        exact queries_agree_iff hwindow hafter hlate (hlast ▸ hend) hend
      · -- the bracket is among the kept samples
        have hbracket : bracket target first rest = bracket target oldest later :=
          bracket_append (fun y hy => (hexpired y hy oldest List.mem_cons_self).trans_le hafter) hsplit hafter
            hlate ⟨last, hmem, hreached⟩
        refine iff_of_true ?_ ⟨fun _ hlt => absurd hlt (by omega), fun hgt => absurd hgt (by omega)⟩
        rw [queryTwap, queryTwap, hbracket, hlast, failIf, failIf, if_neg (by omega), if_neg (by omega)]

/-- **Pruning is unobservable exactly** in the windows that start before the first recorded sample or among
the kept ones; those that start in between, or after the last sample, are refused with and without it
only if they end too late and no interpolation overflows. -/
theorem pruning_unobserved_iff (hledgers : updates.Pairwise fun u v => u.sequence ≤ v.sequence)
    (hreserves : ∀ u ∈ updates, 0 < u.reserveA ∧ 0 < u.reserveB) (hfew : updates.length ≤ maxObservations)
    (hsequence : (sequence : ℤ) ≤ u32.max) (hpos : 0 < windowLedgers)
    (hmax : windowLedgers ≤ maxTwapWindow) :
    consultTwap sequence (oracleMachine.run .new updates) windowLedgers =
        consultTwap sequence (unprunedMachine.run .new updates) windowLedgers ↔
      Unobserved (sequence - windowLedgers) windowLedgers (recorded updates)
        (survivors (recorded updates)) := by
  have hnonneg : ∀ u ∈ updates, 0 ≤ u.reserveA ∧ 0 ≤ u.reserveB := fun u hu =>
    ⟨(hreserves u hu).1.le, (hreserves u hu).2.le⟩
  have hsorted : (recorded updates).Pairwise (·.ledger ≤ ·.ledger) := recorded_sorted hledgers
  obtain ⟨expired, hsplit, hexpired⟩ := exists_expired hsorted
  have hfewRecorded : (recorded updates).length ≤ maxObservations :=
    (length_recordedAfter_le _ updates).trans hfew
  have hfewKept : (survivors (recorded updates)).length ≤ maxObservations := by
    have hlength := congrArg List.length hsplit
    rw [List.length_append] at hlength
    omega
  have hpruned := (run_refines new_refines hnonneg hledgers fun _ _ x hx =>
    absurd hx List.not_mem_nil).2.holds
  change RingBuffer.Holds _ _ ((survivors (recorded updates)).rtake _) at hpruned
  have hunpruned := unpruned_run_holds [] new_refines.holds new_refines.priceA_eq new_refines.priceB_eq
    hnonneg
  change RingBuffer.Holds _ _ ((recorded updates).rtake _) at hunpruned
  rw [rtake_of_length_le hfewKept] at hpruned
  rw [rtake_of_length_le hfewRecorded] at hunpruned
  rw [consultTwap_eq hpruned hpos hmax, consultTwap_eq hunpruned hpos hmax]
  refine query_kept_iff hsorted hsplit hexpired (mt (survivors_eq_nil_iff _).mp) ?_
  have hwindow : (maxTwapWindow : ℤ) = 86400 := rfl
  have hu32 : u32.max = 2 ^ 32 - 1 := rfl
  have hu64 : u64.max = 2 ^ 64 - 1 := rfl
  omega

/-- Samples so far apart that the first is pruned when the last is recorded. -/
def sparseUpdates : List PriceUpdate :=
  [⟨2000, 150, 450, 20, by decide, by decide, by decide, by decide⟩,
    ⟨92000, 150, 470, 90000, by decide, by decide, by decide, by decide⟩,
    ⟨102000, 160, 1120, 10000, by decide, by decide, by decide, by decide⟩]

theorem pruning_unobserved_recent :
    consultTwap 102000 (oracleMachine.run .new sparseUpdates) 5000 =
      consultTwap 102000 (unprunedMachine.run .new sparseUpdates) 5000 :=
  (@pruning_unobserved_iff sparseUpdates _ _ (by decide) (by decide) (by decide) (by decide)
    (by decide) (by decide)).mpr (by decide +kernel)

/-- The longest window starts after the pruned sample, and before the oldest one kept. -/
theorem pruning_refuses_longest_window :
    (sparseUpdates.Pairwise fun u v => u.sequence ≤ v.sequence) ∧
      (∀ u ∈ sparseUpdates, 0 < u.reserveA ∧ 0 < u.reserveB ∧ u.sequence ≤ 102000) ∧
      sparseUpdates.length ≤ maxObservations ∧
      consultTwap 102000 (oracleMachine.run .new sparseUpdates) maxTwapWindow =
        .error (.error .windowTooShort) ∧
      consultTwap 102000 (unprunedMachine.run .new sparseUpdates) maxTwapWindow = .ok (3, 0) := by
  decide +kernel

end CoralSwap
