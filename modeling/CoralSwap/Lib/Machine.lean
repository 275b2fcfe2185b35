import CoralSwap.Lib.Call

/-!
# Runs of calls

A machine executes one call at a time and rolls back the calls that fail. A run is a list of calls;
what holds along it is proved from what one accepted call does.
-/

namespace Host

structure Machine (σ ι ε : Type) where
  exec : σ → ι → Call ε σ

namespace Machine

variable {σ ι ε : Type} (m : Machine σ ι ε)

def step (s : σ) (i : ι) : σ := Call.commit (m.exec s i) s

def run (s : σ) (calls : List ι) : σ := calls.foldl m.step s

/-- `P` holds of every call of the run and of the state the call starts from. -/
def Along (P : σ → ι → Prop) : σ → List ι → Prop
  | _, [] => True
  | s, i :: rest => P s i ∧ Along P (m.step s i) rest

instance decidableAlong {P : σ → ι → Prop} [∀ s i, Decidable (P s i)] :
    ∀ s calls, Decidable (m.Along P s calls)
  | _, [] => isTrue trivial
  | s, i :: rest =>
      @instDecidableAnd _ _ _ (decidableAlong (m.step s i) rest)

def Accepts (s : σ) (i : ι) : Prop := ∃ s', m.exec s i = .ok s'

/-- Some call of the run, accepted in the state it starts from, satisfies `P`. -/
def Occurs (P : ι → Prop) : σ → List ι → Prop
  | _, [] => False
  | s, i :: rest => (P i ∧ m.Accepts s i) ∨ Occurs P (m.step s i) rest

/-- The calls of a run that are accepted, in their order. -/
def accepted : σ → List ι → List ι
  | _, [] => []
  | s, i :: rest =>
      match m.exec s i with
      | .ok s' => i :: accepted s' rest
      | .error _ => accepted s rest

/-- What the accepted calls of a run add up to, each at its amount in the state it starts from. -/
def total {M : Type*} [AddMonoid M] (amount : σ → ι → M) : σ → List ι → M
  | _, [] => 0
  | s, i :: rest =>
      match m.exec s i with
      | .ok s' => amount s i + total amount s' rest
      | .error _ => total amount s rest

/-- Two calls of a run, one before the other, each with the state it starts from. -/
def Precedes (s : σ) (calls : List ι) (earlier later : σ × ι) : Prop :=
  ∃ first middle last, calls = first ++ earlier.2 :: (middle ++ later.2 :: last) ∧
    earlier.1 = m.run s first ∧ later.1 = m.run (m.step earlier.1 earlier.2) middle

variable {m}

theorem step_of_exec_ok {s s' : σ} {i : ι} (hexec : m.exec s i = .ok s') : m.step s i = s' := by
  simp [step, hexec]

theorem exec_of_isOk {s : σ} {i : ι} (hok : (m.exec s i).isOk = true) :
    m.exec s i = .ok (m.step s i) := by
  cases hexec : m.exec s i with
  | ok s' => rw [step_of_exec_ok hexec]
  | error fault =>
      rw [hexec] at hok
      cases hok

theorem step_cases (s : σ) (i : ι) : m.exec s i = .ok (m.step s i) ∨ m.step s i = s := by
  cases hexec : m.exec s i with
  | ok s' => exact Or.inl (by simp [step, hexec])
  | error fault => exact Or.inr (by simp [step, hexec])

@[simp]
theorem run_nil (s : σ) : m.run s [] = s := rfl

@[simp]
theorem run_cons (s : σ) (i : ι) (rest : List ι) : m.run s (i :: rest) = m.run (m.step s i) rest :=
  rfl

/-- **Invariants.** What every accepted call that meets `P` preserves holds after a run of calls
that meet `P`. -/
theorem run_invariant {I : σ → Prop} {P : σ → ι → Prop}
    (hstep : ∀ s i s', I s → P s i → m.exec s i = .ok s' → I s') {s : σ} (hinv : I s)
    {calls : List ι} (hP : m.Along P s calls) : I (m.run s calls) := by
  induction calls generalizing s with
  | nil => exact hinv
  | cons i rest ih =>
      obtain ⟨hhead, htail⟩ := hP
      refine ih ?_ htail
      rcases step_cases (m := m) s i with hexec | hstay
      · exact hstep s i _ hinv hhead hexec
      · rw [hstay]
        exact hinv

theorem run_invariant_all {I : σ → Prop}
    (hstep : ∀ s i s', I s → m.exec s i = .ok s' → I s') {s : σ} (hinv : I s)
    (calls : List ι) : I (m.run s calls) := by
  induction calls generalizing s with
  | nil => exact hinv
  | cons i rest ih =>
      refine ih ?_
      rcases step_cases (m := m) s i with hexec | hstay
      · exact hstep s i _ hinv hexec
      · rw [hstay]
        exact hinv

/-- **Step properties.** What holds of every call that meets `P` in every state satisfying an
invariant of these calls holds all along the run. -/
theorem along_of_invariant {I : σ → Prop} {P Q : σ → ι → Prop}
    (hstep : ∀ s i s', I s → P s i → m.exec s i = .ok s' → I s')
    (hQ : ∀ s i, I s → P s i → Q s i) {s : σ} (hinv : I s) {calls : List ι}
    (hP : m.Along P s calls) : m.Along Q s calls := by
  induction calls generalizing s with
  | nil => trivial
  | cons i rest ih =>
      obtain ⟨hhead, htail⟩ := hP
      refine ⟨hQ s i hinv hhead, ih ?_ htail⟩
      rcases step_cases (m := m) s i with hexec | hstay
      · exact hstep s i _ hinv hhead hexec
      · rw [hstay]
        exact hinv

theorem Along.mono {P Q : σ → ι → Prop} (h : ∀ s i, P s i → Q s i) {s : σ} {calls : List ι}
    (hP : m.Along P s calls) : m.Along Q s calls :=
  along_of_invariant (I := fun _ => True) (fun _ _ _ _ _ _ => trivial)
    (fun s i _ hPi => h s i hPi) trivial hP

theorem along_of_forall_mem {P : ι → Prop} {calls : List ι} (hP : ∀ i ∈ calls, P i) (s : σ) :
    m.Along (fun _ i => P i) s calls := by
  induction calls generalizing s with
  | nil => trivial
  | cons i rest ih =>
      exact ⟨hP i List.mem_cons_self, ih (fun j hj => hP j (List.mem_cons_of_mem i hj)) _⟩

theorem Along.and {P Q : σ → ι → Prop} {s : σ} {calls : List ι} (hP : m.Along P s calls)
    (hQ : m.Along Q s calls) : m.Along (fun s i => P s i ∧ Q s i) s calls := by
  induction calls generalizing s with
  | nil => trivial
  | cons i rest ih => exact ⟨⟨hP.1, hQ.1⟩, ih hP.2 hQ.2⟩

/-- **Exact conditions.** If every call keeps `J` exactly when it meets `P`, and none restores it, then `J` holds
after a run exactly when it held before and `P` holds all along. -/
theorem run_iff_along {I J : σ → Prop} {P : σ → ι → Prop}
    (hinv : ∀ s i s', I s → m.exec s i = .ok s' → I s')
    (hstep : ∀ s i, I s → (J (m.step s i) ↔ J s ∧ P s i)) {s : σ} (hs : I s) (calls : List ι) :
    J (m.run s calls) ↔ J s ∧ m.Along P s calls := by
  induction calls generalizing s with
  | nil => exact (and_iff_left trivial).symm
  | cons i rest ih =>
      have hnext : I (m.step s i) := by
        rcases step_cases (m := m) s i with hexec | hstay
        · exact hinv s i _ hs hexec
        · rw [hstay]
          exact hs
      rw [run_cons, ih hnext, hstep s i hs]
      exact and_assoc

/-- **Projection.** If every call either is a step of a machine on part of the state, or leaves that
part alone when accepted, a run of the whole is a run of the part. -/
theorem run_project {τ κ δ : Type} {part : Machine τ κ δ} {f : σ → τ} {g : ι → Option κ}
    (hcall : ∀ s i j, g i = some j → f (m.step s i) = part.step (f s) j)
    (hrest : ∀ s i s', g i = none → m.exec s i = .ok s' → f s' = f s) (s : σ) (calls : List ι) :
    f (m.run s calls) = part.run (f s) (calls.filterMap g) := by
  induction calls generalizing s with
  | nil => rfl
  | cons i rest ih =>
      rw [run_cons, ih, List.filterMap_cons]
      cases hg : g i with
      | none =>
          rcases step_cases (m := m) s i with hexec | hstay
          · rw [hrest s i _ hg hexec]
          · rw [hstay]
      | some j => rw [hcall s i j hg, run_cons]

/-- **Projection under an invariant.** -/
theorem run_project_of_invariant {part : Machine τ κ δ} {f : σ → τ} {g : ι → Option κ} {I : σ → Prop}
    {P : ι → Prop} (hinv : ∀ s i s', I s → P i → m.exec s i = .ok s' → I s')
    (hcall : ∀ s i j, g i = some j → f (m.step s i) = part.step (f s) j)
    (hrest : ∀ s i s', I s → P i → g i = none → m.exec s i = .ok s' → f s' = f s) {s : σ} (hs : I s)
    {calls : List ι} (hcalls : ∀ i ∈ calls, P i) :
    f (m.run s calls) = part.run (f s) (calls.filterMap g) := by
  induction calls generalizing s with
  | nil => rfl
  | cons i rest ih =>
      have hP := hcalls i List.mem_cons_self
      have hnext : I (m.step s i) := by
        rcases step_cases (m := m) s i with hexec | hstay
        · exact hinv s i _ hs hP hexec
        · rw [hstay]
          exact hs
      rw [run_cons, ih hnext fun j hj => hcalls j (List.mem_cons_of_mem i hj), List.filterMap_cons]
      cases hg : g i with
      | none =>
          rcases step_cases (m := m) s i with hexec | hstay
          · rw [hrest s i _ hs hP hg hexec]
          · rw [hstay]
      | some j => rw [hcall s i j hg, run_cons]

/-- **Histories.** What every accepted call preserves of the state and of the calls accepted so far holds
after a run. -/
theorem run_accepted {I : σ → List ι → Prop}
    (hstep : ∀ s past i s', I s past → m.exec s i = .ok s' → I s' (past ++ [i])) {s : σ}
    {past : List ι} (hinv : I s past) (calls : List ι) :
    I (m.run s calls) (past ++ m.accepted s calls) := by
  induction calls generalizing s past with
  | nil => simpa [accepted] using hinv
  | cons i rest ih =>
      cases hexec : m.exec s i with
      | error fault =>
          have hstay : m.step s i = s := by simp [step, hexec]
          rw [run_cons, hstay]
          simpa [accepted, hexec] using ih hinv
      | ok s' =>
          rw [run_cons, step_of_exec_ok hexec]
          simpa [accepted, hexec] using ih (hstep s past i s' hinv hexec)

/-! ### What a run adds up to -/

section Totals

variable {M : Type*} {amount amount' : σ → ι → M} {s : σ} {calls : List ι}

/-- What every accepted call preserves, of the state and of what the calls so far add up to, holds after a
run. -/
theorem run_total [AddMonoid M] {I : σ → M → Prop} {P : σ → ι → Prop}
    (hstep : ∀ s sum i s', I s sum → P s i → m.exec s i = .ok s' → I s' (sum + amount s i)) {sum : M}
    (hinv : I s sum) (hP : m.Along P s calls) :
    I (m.run s calls) (sum + m.total amount s calls) := by
  induction calls generalizing s sum with
  | nil => simpa [total] using hinv
  | cons i rest ih =>
      obtain ⟨hhead, htail⟩ := hP
      cases hexec : m.exec s i with
      | error fault =>
          have hstay : m.step s i = s := by simp [step, hexec]
          rw [hstay] at htail
          rw [run_cons, hstay, total, hexec]
          exact ih hinv htail
      | ok s' =>
          rw [step_of_exec_ok hexec] at htail
          rw [run_cons, step_of_exec_ok hexec, total, hexec, ← add_assoc]
          exact ih (hstep s sum i s' hinv hhead hexec) htail

variable [AddCommMonoid M] [PartialOrder M] [IsOrderedAddMonoid M]

theorem total_le_total (hle : ∀ s i s', m.exec s i = .ok s' → amount s i ≤ amount' s i) (s : σ)
    (calls : List ι) : m.total amount s calls ≤ m.total amount' s calls := by
  induction calls generalizing s with
  | nil => exact le_rfl
  | cons i rest ih =>
      cases hexec : m.exec s i with
      | error fault =>
          rw [total, total, hexec]
          exact ih s
      | ok s' =>
          rw [total, total, hexec]
          exact add_le_add (hle s i s' hexec) (ih s')

theorem total_nonneg (hnonneg : ∀ s i, 0 ≤ amount s i) (s : σ) (calls : List ι) :
    0 ≤ m.total amount s calls := by
  induction calls generalizing s with
  | nil => exact le_rfl
  | cons i rest ih =>
      rw [total]
      split
      · exact add_nonneg (hnonneg s i) (ih _)
      · exact ih s

/-- Amounts that are not negative add up to nothing exactly when all of them are nothing. -/
theorem total_eq_zero_iff (hnonneg : ∀ s i, 0 ≤ amount s i) :
    m.total amount s calls = 0 ↔ m.Along (fun s i => m.Accepts s i → amount s i = 0) s calls := by
  induction calls generalizing s with
  | nil => exact iff_of_true rfl trivial
  | cons i rest ih =>
      cases hexec : m.exec s i with
      | error fault =>
          have hrejects : ¬m.Accepts s i := by
            rintro ⟨s', haccepts⟩
            cases hexec.symm.trans haccepts
          rw [total, hexec, Along, step, hexec, Call.commit_error]
          exact ih.trans (and_iff_right fun haccepts => absurd haccepts hrejects).symm
      | ok s' =>
          have haccepts : m.Accepts s i := ⟨s', hexec⟩
          rw [total, hexec, Along, step_of_exec_ok hexec, ← ih]
          show amount s i + m.total amount s' rest = 0 ↔ _
          rw [add_eq_zero_iff_of_nonneg (hnonneg s i) (total_nonneg hnonneg s' rest)]
          exact and_congr_left fun _ => ⟨fun hzero _ => hzero, fun hzero => hzero haccepts⟩

end Totals

theorem Precedes.mem {s : σ} {calls : List ι} {earlier later : σ × ι}
    (hcalls : m.Precedes s calls earlier later) : earlier.2 ∈ calls ∧ later.2 ∈ calls := by
  obtain ⟨first, middle, last, rfl, -⟩ := hcalls
  simp

/-- What the earlier of two calls establishes, and every call keeps, holds when the later one starts. -/
theorem Precedes.invariant {I : σ → Prop} (hstep : ∀ s i s', I s → m.exec s i = .ok s' → I s')
    {s : σ} {calls : List ι} {earlier later : σ × ι} (hcalls : m.Precedes s calls earlier later)
    (hinv : I (m.step earlier.1 earlier.2)) : I later.1 := by
  obtain ⟨first, middle, last, -, -, hlater⟩ := hcalls
  rw [hlater]
  exact run_invariant_all hstep hinv middle

/-- In a run in which no accepted call satisfies `P`, every call that does is rejected. -/
theorem along_of_not_occurs {P : ι → Prop} {s : σ} {calls : List ι} (hnone : ¬m.Occurs P s calls) :
    m.Along (fun s i => P i → ¬m.Accepts s i) s calls := by
  induction calls generalizing s with
  | nil => trivial
  | cons i rest ih =>
      constructor
      · intro hPi haccepts
        exact hnone (Or.inl ⟨hPi, haccepts⟩)
      · exact ih fun hlater => hnone (Or.inr hlater)

theorem occurs_append {P : ι → Prop} {s : σ} {first second : List ι}
    (hocc : m.Occurs P (m.run s first) second) : m.Occurs P s (first ++ second) := by
  induction first generalizing s with
  | nil => exact hocc
  | cons i rest ih => exact Or.inr (ih hocc)

/-- What an accepted call of some kind establishes, and every later call keeps, holds at the end of a
run in which such a call occurs. -/
theorem run_of_occurs {I R : σ → Prop} {P : σ → ι → Prop} {Q : ι → Prop}
    (hinv : ∀ s i s', I s → P s i → m.exec s i = .ok s' → I s')
    (hmake : ∀ s i s', I s → Q i → m.exec s i = .ok s' → R s')
    (hkeep : ∀ s i s', I s ∧ R s → P s i → m.exec s i = .ok s' → R s') {s : σ}
    (hs : I s) {calls : List ι} (hP : m.Along P s calls) (hocc : m.Occurs Q s calls) :
    R (m.run s calls) := by
  induction calls generalizing s with
  | nil => exact hocc.elim
  | cons i rest ih =>
      obtain ⟨hhead, htail⟩ := hP
      rcases hocc with ⟨hQ, s', hexec⟩ | hlater
      · rw [run_cons, step_of_exec_ok hexec]
        rw [step_of_exec_ok hexec] at htail
        refine (run_invariant (I := fun s => I s ∧ R s) ?_
          ⟨hinv s i s' hs hhead hexec, hmake s i s' hs hQ hexec⟩ htail).2
        intro s₁ j s₂ hboth hPj hexecj
        exact ⟨hinv s₁ j s₂ hboth.1 hPj hexecj, hkeep s₁ j s₂ hboth hPj hexecj⟩
      · refine ih ?_ htail hlater
        rcases step_cases (m := m) s i with hexec | hstay
        · exact hinv s i _ hs hhead hexec
        · rw [hstay]
          exact hs

theorem run_append (s : σ) (first second : List ι) :
    m.run s (first ++ second) = m.run (m.run s first) second := List.foldl_append

/-- A run that lowers a measure has a call that does. -/
theorem exists_lt_of_run_lt {α : Type*} [LinearOrder α] (measure : σ → α) {s : σ} {calls : List ι}
    (hlt : measure (m.run s calls) < measure s) :
    ∃ first i second, calls = first ++ i :: second ∧
      measure (m.run s (first ++ [i])) < measure (m.run s first) := by
  induction calls generalizing s with
  | nil => exact absurd hlt (lt_irrefl _)
  | cons i rest ih =>
      by_cases hhead : measure (m.step s i) < measure s
      · exact ⟨[], i, rest, rfl, hhead⟩
      · obtain ⟨first, j, second, rfl, hfalls⟩ := ih (hlt.trans_le (not_lt.mp hhead))
        exact ⟨i :: first, j, second, rfl, hfalls⟩

/-- **Origin.** What holds at the end of a run either held at its start and no accepted call has touched
it, or is the work of the last accepted call that has. -/
theorem exists_origin {I : σ → Prop} {Touches Makes : ι → Prop}
    (hmake : ∀ s i s', Touches i → m.exec s i = .ok s' → I s' → Makes i)
    (hkeep : ∀ s i s', ¬Touches i → m.exec s i = .ok s' → I s' → I s) {s : σ} {calls : List ι}
    (hend : I (m.run s calls)) :
    (I s ∧ ¬m.Occurs Touches s calls) ∨
      ∃ first i second, calls = first ++ i :: second ∧ Makes i ∧ m.Accepts (m.run s first) i ∧
        ¬m.Occurs Touches (m.run s (first ++ [i])) second := by
  induction calls generalizing s with
  | nil => exact Or.inl ⟨hend, id⟩
  | cons i rest ih =>
      rcases ih hend with ⟨hI, hnone⟩ | ⟨first, j, second, rfl, hmakes, haccepts, hnone⟩
      · cases hexec : m.exec s i with
        | error fault =>
            have hstay : m.step s i = s := by simp [step, hexec]
            refine Or.inl ⟨hstay ▸ hI, ?_⟩
            rintro (⟨-, s', haccepted⟩ | hlater)
            · rw [hexec] at haccepted
              cases haccepted
            · exact hnone hlater
        | ok s' =>
            have hstep : m.step s i = s' := step_of_exec_ok hexec
            rw [hstep] at hI
            by_cases htouches : Touches i
            · exact Or.inr ⟨[], i, rest, rfl, hmake s i s' htouches hexec hI, ⟨s', hexec⟩, hnone⟩
            · refine Or.inl ⟨hkeep s i s' htouches hexec hI, ?_⟩
              rintro (⟨htouches', -⟩ | hlater)
              · exact htouches htouches'
              · exact hnone hlater
      · exact Or.inr ⟨i :: first, j, second, rfl, hmakes, haccepts, hnone⟩

end Machine

end Host
