import Mathlib.Data.Finsupp.Weight

/-!
# Escrows

A custodian keeps what each account has staged with it. Only the account itself stages more or
takes everything back; what the custodian owes in total is the sum over the accounts.
-/

/-- What has been staged, account by account. Finitely many accounts have staged something. -/
structure Escrow (Account : Type*) where
  staged : Account →₀ ℕ

namespace Escrow

variable {Account : Type*}

/-- What one step of a custodian does to its escrow. -/
inductive Action (Account : Type*) where
  | stage (who : Account) (amount : ℕ)
  | withdraw (who : Account)
  | other

def empty : Escrow Account := ⟨0⟩

noncomputable def total (e : Escrow Account) : ℕ := e.staged.degree

noncomputable def apply (e : Escrow Account) : Action Account → Escrow Account
  | .stage who amount => ⟨e.staged + Finsupp.single who amount⟩
  | .withdraw who => ⟨e.staged.erase who⟩
  | .other => e

@[simp]
theorem total_empty : (empty : Escrow Account).total = 0 := map_zero _

@[simp]
theorem total_stage (e : Escrow Account) (who : Account) (amount : ℕ) :
    (e.apply (.stage who amount)).total = e.total + amount := by
  simp [apply, total]

theorem total_withdraw (e : Escrow Account) (who : Account) :
    (e.apply (.withdraw who)).total + e.staged who = e.total := by
  have hsplit := congrArg Finsupp.degree (Finsupp.erase_add_single who e.staged)
  rwa [map_add, Finsupp.degree_single] at hsplit

@[simp]
theorem staged_stage [DecidableEq Account] (e : Escrow Account) (who : Account) (amount : ℕ) :
    ⇑(e.apply (.stage who amount)).staged =
      Function.update e.staged who (e.staged who + amount) := by
  funext other
  by_cases hother : other = who
  · subst hother
    simp [apply]
  · simp [apply, hother]

@[simp]
theorem staged_withdraw [DecidableEq Account] (e : Escrow Account) (who : Account) :
    ⇑(e.apply (.withdraw who)).staged = Function.update e.staged who 0 := by
  funext other
  by_cases hother : other = who
  · subst hother
    simp [apply]
  · simp [apply, hother, Finsupp.erase_ne]

/-- An account's stage changes only by what the account itself does. -/
theorem staged_changes {e : Escrow Account} {action : Action Account} {who : Account}
    (hchange : (e.apply action).staged who ≠ e.staged who) :
    (∃ amount, action = .stage who amount ∧
        (e.apply action).staged who = e.staged who + amount) ∨
      (action = .withdraw who ∧ (e.apply action).staged who = 0) := by
  classical
  cases action with
  | stage other amount =>
      by_cases hother : who = other
      · subst hother
        exact Or.inl ⟨amount, rfl, by simp⟩
      · exact absurd (by simp [hother]) hchange
  | withdraw other =>
      by_cases hother : who = other
      · subst hother
        exact Or.inr ⟨rfl, by simp⟩
      · exact absurd (by simp [hother]) hchange
  | other => exact absurd rfl hchange

end Escrow
