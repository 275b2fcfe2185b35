import CoralSwap.Pair.Oracle

/-!
# The oracle's history

The ring of the oracle holds the newest samples of a history in which every new sample first prunes what
is older than the longest window.
-/

namespace CoralSwap

open Host Host.Call RingBuffer

/-! ### Histories -/

namespace PriceUpdate

def priceA (u : PriceUpdate) : ℤ := u.reserveB.tdiv u.reserveA

def priceB (u : PriceUpdate) : ℤ := u.reserveA.tdiv u.reserveB

/-- An update without a price or without elapsed time changes nothing. -/
def Idle (u : PriceUpdate) : Prop := u.reserveA = 0 ∨ u.reserveB = 0 ∨ u.timeElapsed = 0
  deriving Decidable

/-- The sample an update records when the accumulators stand where `last` left them. -/
def sampleAfter (u : PriceUpdate) (last : TwapSample) : TwapSample where
  ledger := u.sequence
  priceA := i128.wrappingAdd last.priceA (i128.wrappingMul u.priceA u.timeElapsed)
  priceB := i128.wrappingAdd last.priceB (i128.wrappingMul u.priceB u.timeElapsed)

end PriceUpdate

/-- The samples that a run of updates records, oldest first. -/
def recordedAfter (last : TwapSample) : List PriceUpdate → List TwapSample
  | [] => []
  | u :: updates =>
      if u.Idle then recordedAfter last updates
      else u.sampleAfter last :: recordedAfter (u.sampleAfter last) updates

def recorded (updates : List PriceUpdate) : List TwapSample := recordedAfter ⟨0, 0, 0⟩ updates

/-- A sample expires once the ledger is more than the longest window past it. -/
def TwapSample.survives (now : ℕ) (x : TwapSample) : Bool := now ≤ x.ledger + maxTwapWindow

/-- A new sample prunes what has expired at its ledger. -/
def remember (history : List TwapSample) (x : TwapSample) : List TwapSample :=
  history.filter (·.survives x.ledger) ++ [x]

/-- The samples that no later sample has pruned. -/
def survivors (samples : List TwapSample) : List TwapSample := samples.foldl remember []

/-- An oracle refines a history that ends in the sample `last`. -/
structure OracleState.Refines (state : OracleState) (history : List TwapSample) (last : TwapSample) :
    Prop where
  holds : state.toRingBuffer.Holds maxObservations (history.rtake maxObservations)
  sorted : history.Pairwise (·.ledger ≤ ·.ledger)
  ledger_le : ∀ x ∈ history, (x.ledger : ℤ) ≤ u32.max
  priceA_eq : state.priceACumulative = last.priceA
  priceB_eq : state.priceBCumulative = last.priceB
  last_eq : history = [] ∨ history.getLast? = some last

variable {state : OracleState} {history live : List TwapSample} {last x : TwapSample} {u : PriceUpdate}
  {updates : List PriceUpdate} {now : ℕ}

theorem survives_iff : x.survives now = true ↔ (now : ℤ) ≤ x.ledger + maxTwapWindow := by
  rw [TwapSample.survives, decide_eq_true_eq]
  omega

theorem survives_self (x : TwapSample) : x.survives x.ledger = true :=
  survives_iff.mpr (le_add_of_nonneg_right (Int.natCast_nonneg _))

theorem survives_mono (hsorted : history.Pairwise (·.ledger ≤ ·.ledger)) (now : ℕ) :
    history.Pairwise fun x y => x.survives now = true → y.survives now = true := by
  refine hsorted.imp fun {x y} hle hx => ?_
  rw [survives_iff] at hx ⊢
  omega

/-! ### One update -/

/-- One round of the pruning loop. -/
theorem pruneLoop_succ {rounds : ℕ} (holdest : state.oldest = some x) (hledger : (x.ledger : ℤ) ≤ u32.max) :
    OracleState.pruneLoop now (rounds + 1) state =
      if x.survives now = true then .ok state
      else OracleState.pruneLoop now rounds
        { state with toRingBuffer := state.dropOldest maxObservations } := by
  have hle : (x.ledger : ℤ) ≤ 2 ^ 32 - 1 := hledger
  have hlow : u64.min = 0 := rfl
  have hhigh : u64.max = 2 ^ 64 - 1 := rfl
  have hwindow : (maxTwapWindow : ℤ) = 86400 := rfl
  have hadd : u64.checkedAdd x.ledger maxTwapWindow = some ((x.ledger : ℤ) + maxTwapWindow) := by
    rw [Word.checkedAdd_eq_some]
    omega
  rw [OracleState.pruneLoop, holdest]
  simp only [hadd, survives_iff]
  rfl

/-- The pruning loop drops expired samples from the front and stops at the first that survives. -/
theorem pruneLoop_ok (now : ℕ) (hholds : state.toRingBuffer.Holds maxObservations live)
    (hledgers : ∀ x ∈ live, (x.ledger : ℤ) ≤ u32.max) :
    ∃ ring : RingBuffer TwapSample,
      OracleState.pruneLoop now live.length state = .ok { state with toRingBuffer := ring } ∧
        ring.Holds maxObservations (live.dropWhile fun x => !x.survives now) := by
  induction live generalizing state with
  | nil => exact ⟨state.toRingBuffer, rfl, hholds⟩
  | cons x live ih =>
      have holdest : state.oldest = some x := hholds.sample_eq 0
      rw [List.length_cons, pruneLoop_succ holdest (hledgers x List.mem_cons_self)]
      by_cases hsurvives : x.survives now = true
      · rw [if_pos hsurvives, List.dropWhile_cons_of_neg (by simp [hsurvives])]
        exact ⟨state.toRingBuffer, rfl, hholds⟩
      · rw [if_neg hsurvives, List.dropWhile_cons_of_pos (by simp [hsurvives])]
        exact ih hholds.dropOldest fun y hy => hledgers y (List.mem_cons_of_mem x hy)

theorem pruneExpired_ok (state : OracleState) (now : ℕ)
    (hholds : state.toRingBuffer.Holds maxObservations (history.rtake maxObservations))
    (hsorted : history.Pairwise (·.ledger ≤ ·.ledger)) (hledgers : ∀ x ∈ history, (x.ledger : ℤ) ≤ u32.max) :
    ∃ ring : RingBuffer TwapSample,
      state.pruneExpired now = .ok { state with toRingBuffer := ring } ∧
        ring.Holds maxObservations ((history.filter (·.survives now)).rtake maxObservations) := by
  have hmember : ∀ x ∈ history.rtake maxObservations, (x.ledger : ℤ) ≤ u32.max := fun x hx =>
    hledgers x ((rtake_suffix history maxObservations).subset hx)
  have hsuffix := hsorted.sublist (rtake_suffix history maxObservations).sublist
  obtain ⟨ring, hloop, hring⟩ := pruneLoop_ok now hholds hmember
  rw [← hholds.count_eq] at hloop
  rw [dropWhile_eq_filter (survives_mono hsuffix now), filter_rtake (survives_mono hsorted now)] at hring
  exact ⟨ring, hloop, hring⟩

theorem push_ok (state : OracleState)
    (hholds : state.toRingBuffer.Holds maxObservations (history.rtake maxObservations)) (x : TwapSample) :
    ∃ ring : RingBuffer TwapSample,
      state.push x = .ok { state with toRingBuffer := ring } ∧
        ring.Holds maxObservations ((history ++ [x]).rtake maxObservations) := by
  obtain ⟨ring, hpush, hring⟩ := hholds.push x
  rw [rtake_rtake_concat] at hring
  refine ⟨ring, ?_, hring⟩
  rw [OracleState.push, hpush]
  rfl

theorem checkedDiv_of_nonneg {a b : ℤ} (ha : 0 ≤ a) (hmax : a ≤ i128.max) (hb : 0 < b) :
    i128.checkedDiv a b = some (a.tdiv b) := by
  have hlow : i128.min ≤ a.tdiv b := le_trans (by decide) (Int.tdiv_nonneg ha hb.le)
  rw [Word.checkedDiv_eq_some]
  exact ⟨hb.ne', ⟨hlow, (Int.tdiv_le_self b ha).trans hmax⟩, rfl⟩

theorem prices_ok (hA : 0 ≤ u.reserveA) (hB : 0 ≤ u.reserveB) (hrecords : ¬u.Idle) :
    i128.checkedDiv u.reserveB u.reserveA = some u.priceA ∧
      i128.checkedDiv u.reserveA u.reserveB = some u.priceB := by
  unfold PriceUpdate.Idle at hrecords
  exact ⟨checkedDiv_of_nonneg hB u.reserveB_mem.2 (by omega),
    checkedDiv_of_nonneg hA u.reserveA_mem.2 (by omega)⟩

/-- **One update** is accepted, and the ring goes on to hold what is remembered after it. -/
theorem update_refines (hrefines : state.Refines history last) (hA : 0 ≤ u.reserveA) (hB : 0 ≤ u.reserveB)
    (hrecords : ¬u.Idle) (hlater : ∀ x ∈ history, x.ledger ≤ u.sequence) :
    ∃ state', oracleMachine.exec state u = .ok state' ∧
      state'.Refines (remember history (u.sampleAfter last)) (u.sampleAfter last) := by
  have hidle : ¬(u.reserveA = 0 ∨ u.reserveB = 0 ∨ u.timeElapsed = 0) := hrecords
  obtain ⟨hpriceA, hpriceB⟩ := prices_ok hA hB hrecords
  set next := u.sampleAfter last with hnext
  set moved : OracleState := ⟨state.toRingBuffer, next.priceA, next.priceB⟩ with hmoved
  obtain ⟨pruned, hprune, hpruned⟩ :=
    pruneExpired_ok moved u.sequence hrefines.holds hrefines.sorted hrefines.ledger_le
  obtain ⟨ring, hpush, hring⟩ := push_ok { moved with toRingBuffer := pruned } hpruned next
  refine ⟨{ moved with toRingBuffer := ring }, ?_, hring, ?_, ?_, rfl, rfl, Or.inr List.getLast?_concat⟩
  · show updateCumulativePrices _ _ _ _ _ = _
    rw [updateCumulativePrices, if_neg hidle, hpriceA, hpriceB]
    simp only [orTrap, bind, Except.bind, hrefines.priceA_eq, hrefines.priceB_eq]
    show (moved.pruneExpired u.sequence >>= fun pruned => pruned.push next) = _
    rw [hprune]
    exact hpush
  · rw [remember, List.pairwise_append]
    refine ⟨hrefines.sorted.filter _, List.pairwise_singleton _ _, fun x hx y hy => ?_⟩
    obtain rfl := List.mem_singleton.mp hy
    exact hlater x (List.mem_filter.mp hx).1
  · intro x hx
    rw [remember, List.mem_append, List.mem_singleton] at hx
    rcases hx with hold | rfl
    · exact hrefines.ledger_le x (List.mem_filter.mp hold).1
    · exact u.sequence_le

/-! ### Runs of updates -/

/-- **Runs of updates** are accepted call by call, and refine what they record. -/
theorem run_refines (hrefines : state.Refines history last)
    (hreserves : ∀ u ∈ updates, 0 ≤ u.reserveA ∧ 0 ≤ u.reserveB)
    (hledgers : updates.Pairwise fun u v => u.sequence ≤ v.sequence)
    (hlater : ∀ u ∈ updates, ∀ x ∈ history, x.ledger ≤ u.sequence) :
    oracleMachine.Along oracleMachine.Accepts state updates ∧
      (oracleMachine.run state updates).Refines ((recordedAfter last updates).foldl remember history)
        ((recordedAfter last updates).getLastD last) := by
  induction updates generalizing state history last with
  | nil => exact ⟨trivial, hrefines⟩
  | cons u updates ih =>
      obtain ⟨hfirst, hrest⟩ := List.pairwise_cons.mp hledgers
      have hreservesRest : ∀ v ∈ updates, 0 ≤ v.reserveA ∧ 0 ≤ v.reserveB := fun v hv =>
        hreserves v (List.mem_cons_of_mem u hv)
      obtain ⟨hA, hB⟩ := hreserves u List.mem_cons_self
      rw [recordedAfter, Machine.run_cons]
      by_cases hidle : u.Idle
      · have hexec : oracleMachine.exec state u = .ok state := if_pos hidle
        obtain ⟨haccepted, hrun⟩ := ih hrefines hreservesRest hrest fun v hv x hx =>
          hlater v (List.mem_cons_of_mem u hv) x hx
        rw [if_pos hidle, Machine.Along, Machine.step_of_exec_ok hexec]
        exact ⟨⟨⟨state, hexec⟩, haccepted⟩, hrun⟩
      · obtain ⟨state', hexec, hrefines'⟩ :=
          update_refines hrefines hA hB hidle (hlater u List.mem_cons_self)
        obtain ⟨haccepted, hrun⟩ := ih hrefines' hreservesRest hrest (by
          intro v hv x hx
          rw [remember, List.mem_append, List.mem_singleton] at hx
          rcases hx with hold | rfl
          · exact hlater v (List.mem_cons_of_mem u hv) x (List.mem_filter.mp hold).1
          · exact hfirst v hv)
        rw [if_neg hidle, Machine.Along, Machine.step_of_exec_ok hexec, List.foldl_cons, List.getLastD_cons]
        exact ⟨⟨⟨state', hexec⟩, haccepted⟩, hrun⟩

theorem new_refines : OracleState.new.Refines [] ⟨0, 0, 0⟩ where
  holds := Holds.empty (by decide)
  sorted := List.Pairwise.nil
  ledger_le := fun _ hx => absurd hx List.not_mem_nil
  priceA_eq := rfl
  priceB_eq := rfl
  last_eq := Or.inl rfl

theorem newest_eq (hholds : state.toRingBuffer.Holds maxObservations live) :
    state.newest = live.getLast? := by
  have hcount := hholds.count_eq
  rw [OracleState.newest, List.getLast?_eq_getElem?, ← hcount]
  cases hcase : state.count with
  | zero =>
      have hnil : live.length = 0 := hcount.symm.trans hcase
      rw [List.eq_nil_of_length_eq_zero hnil]
      rfl
  | succ count =>
      show state.sample count = live[count]?
      exact hholds.sample_eq count

theorem getLast?_rtake {n : ℕ} (hpos : 0 < n) : (history.rtake n).getLast? = history.getLast? := by
  rw [List.rtake, List.getLast?_drop]
  by_cases hle : history.length ≤ history.length - n
  · have hnil : history = [] := List.eq_nil_of_length_eq_zero (by omega)
    rw [if_pos hle, hnil, List.getLast?_nil]
  · rw [if_neg hle]

theorem survivors_eq_nil_iff (samples : List TwapSample) : survivors samples = [] ↔ samples = [] := by
  rcases List.eq_nil_or_concat' samples with rfl | ⟨init, x, rfl⟩
  · exact iff_of_true rfl rfl
  · refine iff_of_false ?_ (List.append_ne_nil_of_right_ne_nil _ (List.cons_ne_nil x []))
    rw [survivors, List.foldl_append]
    exact List.append_ne_nil_of_right_ne_nil _ (List.cons_ne_nil x [])

/-- **The ring refines a bounded history.** Updates with reserves that are not negative, at ledgers that do
not decrease, are all accepted; the live samples are the newest survivors of the recorded ones, every live
index is a slot, and the newest sample carries the accumulators. -/
theorem oracle_refines_history (hledgers : updates.Pairwise fun u v => u.sequence ≤ v.sequence)
    (hreserves : ∀ u ∈ updates, 0 ≤ u.reserveA ∧ 0 ≤ u.reserveB) :
    let state := oracleMachine.run .new updates
    let kept := (survivors (recorded updates)).rtake maxObservations
    oracleMachine.Along oracleMachine.Accepts .new updates ∧
      (∀ i, state.sample i = kept[i]?) ∧ state.len = kept.length ∧
      state.slots.length ≤ maxObservations ∧ state.head < maxObservations ∧
      (∀ i < state.len, (state.head + i) % maxObservations < state.slots.length) ∧
      state.newest.map (fun x => (x.priceA, x.priceB)) =
        if recorded updates = [] then none
        else some (state.priceACumulative, state.priceBCumulative) := by
  intro state kept
  obtain ⟨haccepted, hrefines⟩ := run_refines new_refines hreserves hledgers fun _ _ x hx =>
    absurd hx List.not_mem_nil
  change state.Refines (survivors (recorded updates)) _ at hrefines
  refine ⟨haccepted, hrefines.holds.sample_eq, hrefines.holds.count_eq, hrefines.holds.slots_le,
    hrefines.holds.head_lt, fun i hi => hrefines.holds.slot_lt hi, ?_⟩
  rw [newest_eq hrefines.holds, getLast?_rtake (by decide)]
  by_cases hnone : recorded updates = []
  · rw [if_pos hnone, (survivors_eq_nil_iff _).mpr hnone]
    rfl
  · have hlast := hrefines.last_eq.resolve_left (mt (survivors_eq_nil_iff _).mp hnone)
    rw [if_neg hnone, hlast, hrefines.priceA_eq, hrefines.priceB_eq]
    rfl

/-- The last of these updates prunes the sample of the first; the one between records none. -/
def lateUpdates : List PriceUpdate :=
  [⟨1000, 100, 200, 10, by decide, by decide, by decide, by decide⟩,
    ⟨88000, 300, 0, 87000, by decide, by decide, by decide, by decide⟩,
    ⟨89000, 400, 1200, 88000, by decide, by decide, by decide, by decide⟩]

theorem oracle_refines_history_late :
    (oracleMachine.run .new lateUpdates).sample 0 =
      ((survivors (recorded lateUpdates)).rtake maxObservations)[0]? :=
  (@oracle_refines_history lateUpdates (by decide) (by decide)).2.1 0

end CoralSwap
