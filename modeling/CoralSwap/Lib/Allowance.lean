import Mathlib.Tactic

/-!
# Allowances

An owner grants a spender an amount. Every spend has to be covered by what is left, which it is then
taken off, and an allowance of which nothing is left is removed. Amounts may be negative: such a spend
gives back.
-/

namespace Allowance

variable {G : Type*} [AddCommGroup G] [LinearOrder G]

/-- What a spend of `amount` leaves of an allowance of `left`. -/
def remaining (left amount : G) : Option G := if left - amount = 0 then none else some (left - amount)

/-- `left` is what is stored of an allowance of `granted` after `spent` of it. Whatever was spent, the
grant covers it. -/
structure Accounts (granted spent : G) (left : Option G) : Prop where
  left_eq : ∀ stored, left = some stored → stored = granted - spent
  covered : spent ≤ max granted 0

variable {granted spent stored amount : G}

theorem Accounts.grant (granted : G) : Accounts granted 0 (some granted) := by
  constructor
  · intro stored hstored
    rw [sub_zero]
    exact (Option.some.inj hstored).symm
  · exact le_max_right _ _

theorem Accounts.nothing (granted : G) : Accounts granted 0 none := by
  constructor
  · intro stored hstored
    cases hstored
  · exact le_max_right _ _

theorem Accounts.spend [IsOrderedAddMonoid G] (haccounts : Accounts granted spent (some stored))
    (hcovered : amount ≤ stored) : Accounts granted (spent + amount) (remaining stored amount) := by
  have hstored : stored = granted - spent := haccounts.left_eq stored rfl
  constructor
  · intro rest hrest
    unfold remaining at hrest
    split at hrest
    · cases hrest
    · rw [← Option.some.inj hrest, hstored, sub_sub]
  · rw [hstored] at hcovered
    rw [add_comm]
    exact (le_sub_iff_add_le.mp hcovered).trans (le_max_left _ _)

end Allowance
