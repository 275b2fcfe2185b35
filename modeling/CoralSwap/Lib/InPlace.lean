import CoralSwap.Lib.Call

/-!
# Updates in place

A function that is lent a mutable reference writes to it while it runs, and a fault that ends it leaves
what has been written by then. An update is atomic when a fault leaves the state as the update found it.
It is so when every step that can fail only reads, and nothing that follows the first write can fail.
-/

namespace Host

abbrev Update (σ ε α : Type) := EStateM (Fault ε) σ α

namespace Update

variable {σ ε α β : Type}

/-- A step that does not touch the state. -/
def lift (call : Call ε α) : Update σ ε α := fun s =>
  match call with
  | .ok a => .ok a s
  | .error fault => .error fault s

/-- The state behind the reference once the update has ended, in whatever way. -/
def left (update : Update σ ε α) (s : σ) : σ :=
  match update.run s with
  | .ok _ s' => s'
  | .error _ s' => s'

/-- The update of a copy, as a call that returns it. -/
def byValue (update : Update σ ε Unit) (s : σ) : Call ε σ :=
  match update.run s with
  | .ok _ s' => .ok s'
  | .error fault _ => .error fault

/-! ### Runs -/

theorem byValue_lift_bind (call : Call ε α) (next : α → Update σ ε Unit) (s : σ) :
    byValue (lift call >>= next) s = call >>= fun a => byValue (next a) s := by
  cases call with
  | error fault => rfl
  | ok a => rfl

theorem byValue_bind {step : Update σ ε α} {next : α → Update σ ε Unit} {s s' : σ} {a : α}
    (hrun : step.run s = .ok a s') : byValue (step >>= next) s = byValue (next a) s' := by
  unfold byValue
  rw [EStateM.run_bind, hrun]

theorem byValue_modify (f : σ → σ) (s : σ) : byValue (modify f : Update σ ε Unit) s = .ok (f s) := rfl

theorem byValue_eq_ok {update : Update σ ε Unit} {s s' : σ} :
    byValue update s = .ok s' ↔ update.run s = .ok () s' := by
  unfold byValue
  cases update.run s with
  | ok u s'' => simp
  | error fault s'' => simp

/-! ### Atomic updates -/

def ReadOnly (step : Update σ ε α) : Prop := ∀ s, step.left s = s

def Total (step : Update σ ε α) : Prop := ∀ s, ∃ a s', step.run s = .ok a s'

def Atomic (update : Update σ ε α) : Prop :=
  ∀ s fault s', update.run s = .error fault s' → s' = s

theorem readOnly_lift (call : Call ε α) : ReadOnly (lift call : Update σ ε α) := by
  intro s
  cases call with
  | error fault => rfl
  | ok a => rfl

theorem readOnly_get : ReadOnly (get : Update σ ε σ) := fun _ => rfl

theorem total_modify (f : σ → σ) : Total (modify f : Update σ ε Unit) := fun s => ⟨(), f s, rfl⟩

theorem Total.bind {step : Update σ ε α} {next : α → Update σ ε β} (hstep : Total step)
    (hnext : ∀ a, Total (next a)) : Total (step >>= next) := by
  intro s
  obtain ⟨a, s', hrun⟩ := hstep s
  obtain ⟨b, s'', hrest⟩ := hnext a s'
  exact ⟨b, s'', by rw [EStateM.run_bind, hrun]; exact hrest⟩

theorem Total.atomic {update : Update σ ε α} (htotal : Total update) : Atomic update := by
  intro s fault s' hfault
  obtain ⟨a, s'', hrun⟩ := htotal s
  rw [hrun] at hfault
  cases hfault

theorem Atomic.bind {step : Update σ ε α} {next : α → Update σ ε β} (hstep : ReadOnly step)
    (hnext : ∀ a, Atomic (next a)) : Atomic (step >>= next) := by
  intro s fault s' hfault
  have hread := hstep s
  rw [EStateM.run_bind] at hfault
  unfold left at hread
  cases hrun : step.run s with
  | ok a read =>
      rw [hrun] at hfault hread
      obtain rfl : read = s := hread
      exact hnext a read fault s' hfault
  | error first read =>
      rw [hrun] at hfault hread
      obtain rfl : read = s := hread
      cases hfault
      rfl

/-- **Atomic updates.** An atomic update leaves what a failing call by value leaves after its rollback. -/
theorem Atomic.left_eq_commit {update : Update σ ε Unit} (hatomic : Atomic update) (s : σ) :
    update.left s = Call.commit (update.byValue s) s := by
  unfold left byValue
  cases hrun : update.run s with
  | ok u s' => rfl
  | error fault s' => exact hatomic s fault s' hrun

end Update

end Host
