import CoralSwap.Lib.Call
import CoralSwap.Lib.Word

/-!
# Arithmetic panics

A plain operator panics where its result leaves the machine word, and the host reports the panic as any
other trap. To tell the two apart, a program is read once more with the panics as an outcome of their
own. Where both readings agree no plain operator has panicked.
-/

namespace Host.Call

variable {ε α β : Type}

inductive Outcome (ε : Type) where
  | typed (code : ε)
  | arithmetic
  deriving DecidableEq, Repr

/-- A call none of whose operators is plain. -/
def typed (call : Call ε α) : Call (Outcome ε) α := mapCode .typed call

/-- The result of a plain operator. -/
def plain (value : Option ℤ) : Call (Outcome ε) ℤ := okOr value .arithmetic

/-- The call with the panics told apart ends as the other one, and no panic is what ends it. -/
def Agrees (call : Call (Outcome ε) α) (model : Call ε α) : Prop := call = typed model

namespace Agrees

variable {call : Call (Outcome ε) α} {model : Call ε α}

theorem ret (a : α) : Agrees (ε := ε) (pure a) (pure a) := rfl

theorem lift (model : Call ε α) : Agrees (typed model) model := rfl

theorem bind {next : α → Call (Outcome ε) β} {modelNext : α → Call ε β} (hcall : Agrees call model)
    (hnext : ∀ a, model = .ok a → Agrees (next a) (modelNext a)) :
    Agrees (call >>= next) (model >>= modelNext) := by
  unfold Agrees at *
  rw [hcall]
  rcases model with ⟨code | _⟩ | a
  · rfl
  · rfl
  · exact hnext a rfl

/-- An operator that traps in the model and stays in the word. -/
theorem operator {value : Option ℤ} (hvalue : value ≠ none) : Agrees (ε := ε) (plain value) (orTrap value) := by
  cases value with
  | none => exact absurd rfl hvalue
  | some v => rfl

/-- An operator that the model takes for total. -/
theorem total {value : Option ℤ} {v : ℤ} {next : ℤ → Call (Outcome ε) α} (hvalue : value = some v)
    (hnext : Agrees (next v) model) : Agrees (plain value >>= next) model := by
  rw [hvalue]
  exact hnext

theorem ne_arithmetic (h : Agrees call model) : call ≠ .error (.error .arithmetic) := by
  unfold Agrees at h
  rw [h]
  rcases model with ⟨code | _⟩ | a
  · exact fun heq => by cases heq
  · exact fun heq => by cases heq
  · exact fun heq => by cases heq

end Agrees

end Host.Call
