import Mathlib.Algebra.BigOperators.Finprod
import Mathlib.Data.Finsupp.Weight

/-!
# Balances that add up

A ledger with finitely many holders whose balances are never negative and sum to its total. Writing
one balance changes the total by what is written less what it replaces. Where balances may be negative,
their sum still follows the total.
-/

namespace Ledger

variable {Account : Type*} {balance : Account → ℤ} {total value : ℤ} {who other : Account}

def AddsUp (balance : Account → ℤ) (total : ℤ) : Prop :=
  ∃ holdings : Account →₀ ℕ, (∀ who, balance who = holdings who) ∧ total = holdings.degree

namespace AddsUp

theorem zero : AddsUp (fun _ : Account => 0) 0 := by
  refine ⟨0, fun _ => rfl, ?_⟩
  rw [map_zero]
  rfl

theorem nonneg (h : AddsUp balance total) (who : Account) : 0 ≤ balance who := by
  obtain ⟨holdings, hbalance, -⟩ := h
  rw [hbalance]
  exact Int.natCast_nonneg _

theorem balance_le (h : AddsUp balance total) (who : Account) : balance who ≤ total := by
  obtain ⟨holdings, hbalance, rfl⟩ := h
  rw [hbalance]
  exact_mod_cast Finsupp.le_degree who holdings

theorem total_nonneg (h : AddsUp balance total) : 0 ≤ total := by
  obtain ⟨holdings, -, rfl⟩ := h
  exact Int.natCast_nonneg _

theorem write [DecidableEq Account] (h : AddsUp balance total) (who : Account) (hvalue : 0 ≤ value) :
    AddsUp (Function.update balance who value) (total - balance who + value) := by
  obtain ⟨holdings, hbalance, rfl⟩ := h
  refine ⟨holdings.erase who + Finsupp.single who value.toNat, fun other => ?_, ?_⟩
  · by_cases hother : other = who
    · subst hother
      simp [Int.toNat_of_nonneg hvalue]
    · simp [hother, hbalance other, Finsupp.erase_ne]
  · have hsplit := congrArg Finsupp.degree (Finsupp.erase_add_single who holdings)
    rw [map_add, Finsupp.degree_single] at hsplit
    rw [map_add, Finsupp.degree_single, hbalance]
    omega

/-- Two accounts together hold at most the total. -/
theorem add_balance_le (h : AddsUp balance total) (hne : who ≠ other) :
    balance who + balance other ≤ total := by
  classical
  have hrest := (h.write who (le_refl (0 : ℤ))).balance_le other
  rw [Function.update_of_ne hne.symm] at hrest
  omega

end AddsUp

/-! ### Signed balances -/

/-- Finitely many balances are not zero, and they sum to `total`. -/
structure SumsTo (balance : Account → ℤ) (total : ℤ) : Prop where
  finite : (Function.support balance).Finite
  sum : ∑ᶠ who, balance who = total

namespace SumsTo

theorem zero : SumsTo (fun _ : Account => 0) 0 := by
  refine ⟨?_, finsum_zero⟩
  rw [Function.support_fun_zero]
  exact Set.finite_empty

theorem add [DecidableEq Account] (h : SumsTo balance total) (who : Account) (amount : ℤ) :
    SumsTo (Function.update balance who (balance who + amount)) (total + amount) := by
  have hsplit : Function.update balance who (balance who + amount) =
      fun other => balance other + if other = who then amount else 0 := by
    funext other
    by_cases hother : other = who
    · subst hother
      simp
    · simp [hother]
  have hsingle : (Function.support fun other => if other = who then amount else 0).Finite := by
    refine (Set.finite_singleton who).subset fun other hother => ?_
    by_contra hne
    exact hother (if_neg hne)
  rw [hsplit]
  refine ⟨(h.finite.union hsingle).subset (Function.support_add _ _), ?_⟩
  rw [finsum_add_distrib h.finite hsingle, h.sum,
    finsum_eq_single _ who fun other hother => if_neg hother, if_pos rfl]

end SumsTo

end Ledger
