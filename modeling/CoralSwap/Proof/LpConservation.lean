import CoralSwap.Lib.Ledger
import CoralSwap.Proof.LpTokenEffects

/-!
# The balances sum to the supply

Amounts are signed, so balances and the supply may become negative. Every operation still writes to the
balances in all what it writes to the supply, a transfer to oneself included.
-/

namespace CoralSwap.LpToken

open Host Host.Call

variable {Address : Type} [DecidableEq Address]

def Conserved (t : LpToken Address) : Prop := Ledger.SumsTo t.balance t.totalSupply

variable {env : LpEnv Address} {t t' : LpToken Address} {who src dst : Address} {amount : ℤ}

theorem Conserved.issue (hconserved : Conserved t)
    (hbalance : t'.balance = Function.update t.balance who (t.balance who + amount))
    (hsupply : t'.totalSupply = t.totalSupply + amount) : Conserved t' := by
  unfold Conserved
  rw [hbalance, hsupply]
  exact Ledger.SumsTo.add hconserved who amount

/-- The receiver is credited on the balance the debit has left, which matters where it is the sender. -/
theorem Conserved.move (hconserved : Conserved t)
    (hbalance : t'.balance = Token.moved t.balance src dst amount)
    (hsupply : t'.totalSupply = t.totalSupply) : Conserved t' := by
  have hdebited := Ledger.SumsTo.add hconserved src (-amount)
  have hcredited := hdebited.add dst amount
  rw [← sub_eq_add_neg, moved_eq_update, neg_add_cancel_right] at hcredited
  unfold Conserved
  rwa [hbalance, hsupply]

theorem conserved_of_exec {op : Op Address} (hconserved : Conserved t)
    (hexec : exec t (env, op) = .ok t') : Conserved t' := by
  cases effect_of_exec hexec with
  | minted dst amount hop hadmin hcap hsupply hbalance => exact hconserved.issue hbalance hsupply
  | burned src amount hop hfunds hsupply hbalance =>
      rw [sub_eq_add_neg] at hsupply hbalance
      exact hconserved.issue hbalance hsupply
  | moved src dst amount hop hsign hfunds hsupply hbalance => exact hconserved.move hbalance hsupply
  | still hop hstill =>
      unfold Conserved
      rw [hstill.1, hstill.2]
      exact hconserved

theorem conserved_of_run (admin : Address) (calls : List (LpEnv Address × Op Address)) :
    Conserved (machine.run (fresh admin) calls) := by
  have hfresh : Conserved (fresh admin) := Ledger.SumsTo.zero
  refine Machine.run_invariant_all (m := machine) (I := Conserved) ?_ hfresh calls
  rintro t ⟨env, op⟩ t' hconserved hexec
  exact conserved_of_exec hconserved hexec

/-- **Conservation.** After every run, finitely many addresses have a balance, and the balances sum to the
supply. -/
theorem sum_balances_eq_totalSupply (admin : Address) (calls : List (LpEnv Address × Op Address)) :
    (Function.support (machine.run (fresh admin) calls).balance).Finite ∧
      ∑ᶠ who, (machine.run (fresh admin) calls).balance who =
        (machine.run (fresh admin) calls).totalSupply :=
  ⟨(conserved_of_run admin calls).finite, (conserved_of_run admin calls).sum⟩

end CoralSwap.LpToken
