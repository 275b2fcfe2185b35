import CoralSwap.Events.LpToken
import CoralSwap.Proof.LpTokenEffects

/-!
# The LP token's log is its ledger

Every accepted call publishes what it does to the balances, the supply, the pause flag and the admin, with
its sign and to the unit. So whoever reads the events from some point on has the token's ledger at every
later one. The allowances are not in the log: permits and spenders publish nothing of them.
-/

namespace CoralSwap

open Host Host.Call

variable {Address : Type} [DecidableEq Address]

namespace LpIndex

variable {t : LpToken Address} {src dst : Address} {amount : ℤ}

theorem credit_credit_ofToken :
    ((ofToken t).credit src (-amount)).credit dst amount =
      ofToken { t with balance := Token.moved t.balance src dst amount } := by
  rw [← LpToken.moved_eq_update, sub_eq_add_neg]
  rfl

/-- A transfer of nothing moves nothing, and says so by saying nothing. -/
theorem read_transferEvents :
    (LpToken.transferEvents src dst amount).foldl read (ofToken t) =
      ofToken { t with balance := Token.moved t.balance src dst amount } := by
  unfold LpToken.transferEvents
  by_cases hzero : amount = 0
  · rw [if_pos hzero, hzero, LpToken.moved_zero]
    rfl
  · rw [if_neg hzero]
    exact credit_credit_ofToken

theorem read_adminEvent {admin : Address} (hadmin : t.admin = some admin)
    (event : Address → LpTokenEvent Address) (index : LpIndex Address) :
    (t.adminEvent event).foldl read index = index.read (event admin) := by
  rw [LpToken.adminEvent, hadmin]
  rfl

theorem read_burn :
    (ofToken t).read (.burn src amount) =
      ofToken { t.writeBalance src (t.balance src - amount) with totalSupply := t.totalSupply - amount } := by
  rw [sub_eq_add_neg (t.balance src)]
  rfl

end LpIndex

namespace LpToken

open LpIndex

/-- What an accepted call publishes carries a reader from the token before it to the token after it. -/
theorem read_publish {env : LpEnv Address} {t t' : LpToken Address} {op : Op Address}
    {events : List (LpTokenEvent Address)} (hpublish : publish t (env, op) = .ok (t', events)) :
    events.foldl read (ofToken t) = ofToken t' := by
  cases op with
  | mint dst amount =>
      obtain ⟨hmint, rfl⟩ := publishing_eq_ok.mp hpublish
      obtain ⟨⟨admin, hadmin, -⟩, -, -, rfl⟩ := mint_ok hmint
      exact read_adminEvent hadmin _ _
  | burn src amount =>
      obtain ⟨hburn, rfl⟩ := publishing_eq_ok.mp hpublish
      obtain ⟨-, -, rfl⟩ := burn_ok hburn
      exact read_burn
  | burnFrom spender src amount =>
      obtain ⟨hburn, rfl⟩ := publishing_eq_ok.mp hpublish
      obtain ⟨-, -, -, allowance, rfl⟩ := burnFrom_ok hburn
      exact read_burn
  | transfer src dst amount =>
      obtain ⟨htransfer, rfl⟩ := publishing_eq_ok.mp hpublish
      obtain ⟨-, -, -, rfl⟩ := transfer_ok htransfer
      exact read_transferEvents
  | transferFrom spender src dst amount =>
      obtain ⟨htransfer, rfl⟩ := publishing_eq_ok.mp hpublish
      obtain ⟨-, -, -, -, allowance, rfl⟩ := transferFrom_ok htransfer
      exact read_transferEvents
  | approve owner spender amount expirationLedger =>
      obtain ⟨happrove, rfl⟩ := publishing_eq_ok.mp hpublish
      obtain ⟨-, -, allowance, rfl⟩ := approve_ok happrove
      rfl
  | permit owner spender amount deadline signature =>
      obtain ⟨hpermit, rfl⟩ := publishing_eq_ok.mp hpublish
      obtain ⟨-, -, allowance, nonce, rfl⟩ := permit_ok hpermit
      rfl
  | pause =>
      obtain ⟨hset, rfl⟩ := publishing_eq_ok.mp hpublish
      obtain ⟨⟨admin, hadmin, -⟩, rfl⟩ := setPaused_ok hset
      exact read_adminEvent hadmin _ _
  | unpause =>
      obtain ⟨hset, rfl⟩ := publishing_eq_ok.mp hpublish
      obtain ⟨⟨admin, hadmin, -⟩, rfl⟩ := setPaused_ok hset
      exact read_adminEvent hadmin _ _
  | adminTransfer newAdmin =>
      obtain ⟨hset, rfl⟩ := publishing_eq_ok.mp hpublish
      obtain ⟨⟨admin, hadmin, -⟩, rfl⟩ := adminTransfer_ok hset
      exact read_adminEvent hadmin _ _

/-- **The log is the ledger.** From any state on, the events of a run rebuild every balance, the supply, the
pause flag and the admin. -/
theorem log_rebuilds_ledger (t : LpToken Address) (calls : List (LpEnv Address × Op Address)) :
    (journal.log t calls).foldl read (ofToken t) = ofToken (machine.run t calls) := by
  refine Journal.replay_log ofToken (fun _ => True) (P := fun _ _ => True) (fun _ _ _ _ _ => trivial) ?_ trivial
    (Machine.along_of_forall_mem (fun _ _ => trivial) t)
  rintro t ⟨env, op⟩ t' events - - hpublish
  exact read_publish hpublish

end LpToken

end CoralSwap
