import CoralSwap.Lib.Call
import CoralSwap.Lib.Word

/-!
# How a call can fail

A call is bounded by a set of faults when every fault it ends with is one of them. The bound of a call
is built along its steps: a step may fail if its own guard can, and the rest is bounded under what the
step has returned. A call bounded by no fault at all returns.
-/

namespace Host.Call

variable {ε δ α β : Type} {P Q : Fault ε → Prop}

/-- Every fault that ends the call satisfies `P`. -/
def FailsWith (P : Fault ε → Prop) (call : Call ε α) : Prop := ∀ fault, call = .error fault → P fault

namespace FailsWith

theorem mono {call : Call ε α} (hcall : FailsWith P call) (h : ∀ fault, P fault → Q fault) :
    FailsWith Q call := fun fault hfault => h fault (hcall fault hfault)

theorem ok (a : α) : FailsWith P (.ok a) := fun _ h => by cases h

theorem ret (a : α) : FailsWith P (pure a : Call ε α) := ok a

theorem fail {code : ε} (h : P (.error code)) : FailsWith P (Call.fail code : Call ε α) := by
  intro fault hfault
  cases hfault
  exact h

theorem trap (h : P .trap) : FailsWith P (Call.trap : Call ε α) := by
  intro fault hfault
  cases hfault
  exact h

theorem bind {call : Call ε α} {next : α → Call ε β} (hcall : FailsWith P call)
    (hnext : ∀ a, call = .ok a → FailsWith P (next a)) : FailsWith P (call >>= next) := by
  intro fault hfault
  cases hstep : call with
  | error first =>
      rw [hstep] at hfault
      cases hfault
      exact hcall fault hstep
  | ok a =>
      rw [hstep] at hfault
      exact hnext a hstep fault hfault

theorem failIf {c : Prop} [Decidable c] {code : ε} (h : c → P (.error code)) :
    FailsWith P (Call.failIf c code) := by
  unfold Call.failIf
  split
  · rename_i hc
    exact fail (h hc)
  · exact ok ()

theorem require {c : Prop} [Decidable c] (h : ¬c → P .trap) :
    FailsWith P (Call.require c : Call ε Unit) := by
  unfold Call.require
  split
  · exact ok ()
  · rename_i hc
    exact trap (h hc)

theorem okOr {value : Option α} {code : ε} (h : value = none → P (.error code)) :
    FailsWith P (Call.okOr value code) := by
  cases value with
  | none => exact fail (h rfl)
  | some a => exact ok a

theorem orTrap {value : Option α} (h : value = none → P .trap) :
    FailsWith P (Call.orTrap value : Call ε α) := by
  cases value with
  | none => exact trap (h rfl)
  | some a => exact ok a

theorem nested {call : Call δ α} (h : (∀ a, call ≠ .ok a) → P .trap) :
    FailsWith P (Call.nested call : Call ε α) := by
  cases call with
  | error fault => exact trap (h fun a => by simp)
  | ok a => exact ok a

/-- A checked operation fails where its result does not fit, and goes on with the exact result where it does. -/
theorem checked {w : Word} {value : ℤ} {code : ε} {next : ℤ → Call ε β}
    (hover : ¬(w.min ≤ value ∧ value ≤ w.max) → P (.error code))
    (hnext : w.min ≤ value ∧ value ≤ w.max → FailsWith P (next value)) :
    FailsWith P (Call.okOr (w.checked value) code >>= next) := by
  refine bind (okOr fun hnone => hover (Word.checked_eq_none.mp hnone)) fun result hresult => ?_
  obtain ⟨hfits, rfl⟩ := Word.checked_eq_some.mp (okOr_eq_ok.mp hresult)
  exact hnext hfits

/-- A call that cannot fail returns. -/
theorem returns {call : Call ε α} (hcall : FailsWith (fun _ => False) call) : ∃ a, call = .ok a := by
  cases hresult : call with
  | error fault => exact (hcall fault hresult).elim
  | ok a => exact ⟨a, rfl⟩

end FailsWith

end Host.Call
