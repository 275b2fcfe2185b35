import CoralSwap.Lib.Ledger
import CoralSwap.Lib.Token

/-!
# Tokens with a supply

The balances of a token add up to its supply. Where the supply fits, nobody's balance can overflow: a
transfer goes through as soon as its sender can pay it.
-/

namespace Host.Token

variable {Address : Type} {t t' : Token Address} {src dst who other : Address} {amount : ℤ}

/-- The balances add up to a supply that fits. -/
def Supplied (t : Token Address) : Prop := ∃ supply ≤ i128.max, Ledger.AddsUp t.balance supply

theorem Supplied.add_balance_le (hsupplied : t.Supplied) (hne : who ≠ other) :
    t.balance who + t.balance other ≤ i128.max := by
  obtain ⟨supply, hfits, haddsUp⟩ := hsupplied
  exact (haddsUp.add_balance_le hne).trans hfits

variable [DecidableEq Address]

theorem moved_eq_update {balance : Address → ℤ} (hne : src ≠ dst) :
    moved balance src dst amount =
      Function.update (Function.update balance src (balance src - amount)) dst (balance dst + amount) := by
  funext who
  unfold moved
  rw [if_neg hne]
  by_cases hdst : who = dst
  · subst hdst
    rw [if_neg hne.symm, if_pos rfl, Function.update_self]
  · rw [if_neg hdst, Function.update_of_ne hdst]
    by_cases hsrc : who = src
    · subst hsrc
      rw [if_pos rfl, Function.update_self]
    · rw [if_neg hsrc, Function.update_of_ne hsrc]

theorem Supplied.transfer (hsupplied : t.Supplied) (htransfer : t.transfer src dst amount = some t') :
    t'.Supplied := by
  obtain ⟨supply, hfits, haddsUp⟩ := hsupplied
  obtain ⟨⟨hamount, hfunds, -⟩, hmoved⟩ := transfer_eq_some htransfer
  refine ⟨supply, hfits, ?_⟩
  by_cases hself : src = dst
  · have hsame : t'.balance = t.balance := by
      funext who
      rw [hmoved, moved, if_pos hself]
    rwa [hsame]
  · have hspent := haddsUp.write src (sub_nonneg.mpr hfunds)
    have hkept : Function.update t.balance src (t.balance src - amount) dst = t.balance dst :=
      Function.update_of_ne (Ne.symm hself) _ _
    have hreceived := hspent.write dst (add_nonneg (t.nonneg dst) hamount)
    have htotal : supply - t.balance src + (t.balance src - amount) -
        Function.update t.balance src (t.balance src - amount) dst + (t.balance dst + amount) = supply := by
      rw [hkept]
      ring
    rw [htotal] at hreceived
    rwa [hmoved, moved_eq_update hself]

theorem Supplied.moves {sends : Address → Prop} (hsupplied : t.Supplied) (hmoves : Moves sends t t') :
    t'.Supplied := by
  induction hmoves with
  | refl => exact hsupplied
  | tail _ hsent ih =>
      obtain ⟨src, dst, amount, -, htransfer⟩ := hsent
      exact ih.transfer htransfer

theorem supplied_issued {holder : Address} {supply : ℤ} (hsupply : 0 ≤ supply ∧ supply ≤ i128.max) :
    (issued holder supply hsupply).Supplied := by
  refine ⟨supply, hsupply.2, ?_⟩
  have haddsUp := Ledger.AddsUp.zero.write holder hsupply.1
  rw [sub_zero, zero_add] at haddsUp
  convert haddsUp using 1
  funext who
  exact (Function.update_apply (fun _ => 0) holder supply who).symm

/-- A sender that can pay is all a transfer needs. -/
theorem Supplied.exists_transfer (hsupplied : t.Supplied) (dst : Address) (hamount : 0 ≤ amount)
    (hfunds : amount ≤ t.balance src) : ∃ t', t.transfer src dst amount = some t' := by
  have hmovable : t.Movable src dst amount := by
    refine ⟨hamount, hfunds, fun hne => ?_⟩
    have htogether := hsupplied.add_balance_le hne
    omega
  exact ⟨_, dif_pos hmovable⟩

end Host.Token
