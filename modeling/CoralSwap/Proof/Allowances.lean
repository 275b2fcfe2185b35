import CoralSwap.Lib.Allowance
import CoralSwap.Proof.LpTokenEffects

/-!
# What a spender can take

An allowance bounds what its spender takes from the owner's balance, over any run in which it is not
granted anew: transfers and burns draw on one entry, and each keeps its expiration.
-/

namespace CoralSwap.LpToken

open Host Host.Call

variable {Address : Type} [DecidableEq Address]

/-- The amount of a call that draws on what `owner` allowed `spender`. -/
def Op.spends (owner spender : Address) : Op Address → Option ℤ
  | .transferFrom caller src _ amount => if caller = spender ∧ src = owner then some amount else none
  | .burnFrom caller src amount => if caller = spender ∧ src = owner then some amount else none
  | _ => none

/-- A call by which `owner` allows `spender` an amount until a ledger. -/
def Op.Grants (owner spender : Address) (amount : ℤ) (expiration : ℕ) : Op Address → Prop
  | .approve o s a e => o = owner ∧ s = spender ∧ a = amount ∧ e = expiration
  | .permit o s a e _ => o = owner ∧ s = spender ∧ a = amount ∧ e = expiration
  | _ => False

def Op.Regrants (owner spender : Address) (op : Op Address) : Prop :=
  ∃ amount expiration, op.Grants owner spender amount expiration

/-- What the accepted calls of a run draw on the allowance. -/
def spent (owner spender : Address) : LpToken Address → List (LpEnv Address × Op Address) → ℤ :=
  machine.total fun _ call => (call.2.spends owner spender).getD 0

/-- What the balance of `owner` loses, on balance, in the calls of a run that `spender` authorised. -/
def drawn (owner spender : Address) : LpToken Address → List (LpEnv Address × Op Address) → ℤ :=
  machine.total fun t call =>
    if (call.2.spends owner spender).isSome = true then
      t.balance owner - (machine.step t call).balance owner
    else 0

variable {env : LpEnv Address} {t t' : LpToken Address} {owner spender : Address} {amount : ℤ}

/-! ### One call -/

@[simp]
theorem writeAllowance_self (entry : Option AllowanceEntry) :
    (t.writeAllowance owner spender entry).allowance owner spender = entry := by
  simp [writeAllowance]

theorem writeAllowance_of_ne {caller src : Address} (hne : ¬(caller = spender ∧ src = owner))
    (entry : Option AllowanceEntry) :
    (t.writeAllowance src caller entry).allowance owner spender = t.allowance owner spender := by
  unfold writeAllowance
  by_cases howner : owner = src
  · subst howner
    have hspender : spender ≠ caller := by
      rintro rfl
      exact hne ⟨rfl, rfl⟩
    simp [hspender]
  · simp [howner]

/-- A spend finds a live entry that covers it, and leaves what remains until the same ledger. -/
theorem spendAllowance_remaining (hspend : spendAllowance env t owner spender amount = .ok t') :
    ∃ entry, t.allowance owner spender = some entry ∧ env.sequence < entry.expirationLedger ∧
      amount ≤ entry.amount ∧
      t' = t.writeAllowance owner spender
        ((Allowance.remaining entry.amount amount).map (⟨·, entry.expirationLedger⟩)) := by
  simp only [spendAllowance, bind_eq_ok, failIf_eq_ok, okOr_eq_ok, orTrap_eq_ok,
    Word.checkedSub_eq_some] at hspend
  obtain ⟨entry, hentry, -, hlive, -, hamount, _, ⟨-, rfl⟩, hspend⟩ := hspend
  refine ⟨entry, hentry, by omega, by omega, ?_⟩
  unfold Allowance.remaining
  split at hspend
  · rename_i hzero
    rw [if_pos hzero]
    exact (pure_eq_ok.mp hspend).symm
  · rename_i hpos
    rw [if_neg hpos]
    exact (pure_eq_ok.mp hspend).symm

/-- What an accepted call that draws on an allowance does to it and to the balance. -/
structure Spends (env : LpEnv Address) (t t' : LpToken Address) (owner spender : Address)
    (amount : ℤ) (entry : AllowanceEntry) : Prop where
  stored : t.allowance owner spender = some entry
  live : env.sequence < entry.expirationLedger
  covered : amount ≤ entry.amount
  left : t'.allowance owner spender =
    (Allowance.remaining entry.amount amount).map (⟨·, entry.expirationLedger⟩)
  lost : t.balance owner - t'.balance owner ≤ amount

theorem Spends.of_spent {spent : LpToken Address}
    (hspend : spendAllowance env t owner spender amount = .ok spent)
    (hallowance : t'.allowance = spent.allowance)
    (hlost : spent.balance owner - t'.balance owner ≤ amount) :
    ∃ entry, Spends env t t' owner spender amount entry := by
  obtain ⟨entry, hstored, hlive, hcovered, rfl⟩ := spendAllowance_remaining hspend
  refine ⟨entry, hstored, hlive, hcovered, ?_, hlost⟩
  rw [hallowance, writeAllowance_self]

theorem moved_lost_le (balance : Address → ℤ) (src dst : Address) (hsign : 0 ≤ amount) :
    balance src - Token.moved balance src dst amount src ≤ amount := by
  unfold Token.moved
  split_ifs with hself <;> omega

/-- What is left alone of the allowance of `spender` by a spend of another allowance. -/
theorem allowance_of_spent {caller src : Address} {spent : LpToken Address}
    (hne : ¬(caller = spender ∧ src = owner))
    (hspend : spendAllowance env t src caller amount = .ok spent) :
    spent.allowance owner spender = t.allowance owner spender := by
  obtain ⟨entry, -, -, -, rfl⟩ := spendAllowance_remaining hspend
  exact writeAllowance_of_ne hne _

theorem transferFrom_spends {dst : Address} (hne : spender ≠ owner)
    (htransfer : transferFrom env t spender owner dst amount = .ok t') :
    ∃ entry, Spends env t t' owner spender amount entry := by
  simp only [transferFrom, if_pos hne, bind_eq_ok, failIf_eq_ok, require_eq_ok] at htransfer
  obtain ⟨-, -, -, -, spent, hspend, hinternal⟩ := htransfer
  obtain ⟨hsign, -, rfl⟩ := transferInternal_ok hinternal
  exact Spends.of_spent hspend rfl (moved_lost_le _ _ _ hsign)

theorem burnFrom_spends (hburn : burnFrom env t spender owner amount = .ok t') :
    ∃ entry, Spends env t t' owner spender amount entry := by
  simp only [burnFrom, bind_eq_ok, failIf_eq_ok, require_eq_ok] at hburn
  obtain ⟨-, -, -, -, spent, hspend, hdebit⟩ := hburn
  obtain ⟨-, rfl⟩ := debitSupply_ok hdebit
  refine Spends.of_spent hspend rfl ?_
  simp [writeBalance]

theorem spends_of_exec {op : Op Address} (hne : spender ≠ owner)
    (hspends : op.spends owner spender = some amount) (hexec : exec t (env, op) = .ok t') :
    ∃ entry, Spends env t t' owner spender amount entry := by
  cases op with
  | transferFrom caller src dst moved =>
      obtain ⟨⟨rfl, rfl⟩, hamount⟩ := Option.ite_none_right_eq_some.mp hspends
      obtain rfl := Option.some.inj hamount
      exact transferFrom_spends hne hexec
  | burnFrom caller src burned =>
      obtain ⟨⟨rfl, rfl⟩, hamount⟩ := Option.ite_none_right_eq_some.mp hspends
      obtain rfl := Option.some.inj hamount
      exact burnFrom_spends hexec
  | _ => cases hspends

/-- An approval and a permit write one entry. -/
theorem writes_of_grant {op : Op Address} {expiration : ℕ}
    (hgrant : op.Grants owner spender amount expiration) (hexec : exec t (env, op) = .ok t') :
    ∃ entry, (entry = some ⟨amount, expiration⟩ ∨ entry = none) ∧
      t'.allowance = (t.writeAllowance owner spender entry).allowance := by
  cases op with
  | approve o s a e =>
      obtain ⟨rfl, rfl, rfl, rfl⟩ := hgrant
      simp only [exec, approve, bind_eq_ok, failIf_eq_ok, require_eq_ok] at hexec
      obtain ⟨-, -, -, -, hexec⟩ := hexec
      split at hexec
      · obtain rfl := pure_eq_ok.mp hexec
        exact ⟨none, .inr rfl, rfl⟩
      · obtain rfl := pure_eq_ok.mp hexec
        exact ⟨_, .inl rfl, rfl⟩
  | permit o s a e signature =>
      obtain ⟨rfl, rfl, rfl, rfl⟩ := hgrant
      simp only [exec, permit, bind_eq_ok, require_eq_ok, failIf_eq_ok, orTrap_eq_ok, pure_eq_ok] at hexec
      obtain ⟨-, -, -, -, -, -, _, -, rfl⟩ := hexec
      exact ⟨_, .inl rfl, rfl⟩
  | _ => exact hgrant.elim

/-- No other call touches the allowance, except one that grants it anew. -/
theorem allowance_of_exec {op : Op Address} (hspends : op.spends owner spender = none)
    (hregrants : ¬op.Regrants owner spender) (hexec : exec t (env, op) = .ok t') :
    t'.allowance owner spender = t.allowance owner spender := by
  cases op with
  | transferFrom caller src dst moved =>
      have hother : ¬(caller = spender ∧ src = owner) := by simpa [Op.spends] using hspends
      simp only [exec, transferFrom, bind_eq_ok, failIf_eq_ok, require_eq_ok] at hexec
      obtain ⟨-, -, -, -, hexec⟩ := hexec
      split at hexec
      · obtain ⟨spent, hspend, hinternal⟩ := bind_eq_ok.mp hexec
        obtain ⟨-, -, rfl⟩ := transferInternal_ok hinternal
        exact (allowance_of_spent hother hspend :)
      · obtain ⟨-, -, rfl⟩ := transferInternal_ok hexec
        rfl
  | burnFrom caller src burned =>
      have hother : ¬(caller = spender ∧ src = owner) := by simpa [Op.spends] using hspends
      simp only [exec, burnFrom, bind_eq_ok, failIf_eq_ok, require_eq_ok] at hexec
      obtain ⟨-, -, -, -, spent, hspend, hdebit⟩ := hexec
      obtain ⟨-, rfl⟩ := debitSupply_ok hdebit
      exact (allowance_of_spent hother hspend :)
  | approve o s a e =>
      have hother : ¬(s = spender ∧ o = owner) := by
        rintro ⟨rfl, rfl⟩
        exact hregrants ⟨a, e, rfl, rfl, rfl, rfl⟩
      have hgrants : (Op.approve o s a e).Grants o s a e := ⟨rfl, rfl, rfl, rfl⟩
      obtain ⟨entry, -, hwritten⟩ := writes_of_grant hgrants hexec
      rw [hwritten, writeAllowance_of_ne hother]
  | permit o s a e signature =>
      have hother : ¬(s = spender ∧ o = owner) := by
        rintro ⟨rfl, rfl⟩
        exact hregrants ⟨a, e, rfl, rfl, rfl, rfl⟩
      have hgrants : (Op.permit o s a e signature).Grants o s a e := ⟨rfl, rfl, rfl, rfl⟩
      obtain ⟨entry, -, hwritten⟩ := writes_of_grant hgrants hexec
      rw [hwritten, writeAllowance_of_ne hother]
  | mint dst minted =>
      obtain ⟨-, -, -, rfl⟩ := mint_ok hexec
      rfl
  | burn src burned =>
      obtain ⟨-, -, rfl⟩ := burn_ok hexec
      rfl
  | transfer src dst moved =>
      obtain ⟨-, -, -, rfl⟩ := transfer_ok hexec
      rfl
  | pause =>
      obtain ⟨-, rfl⟩ := setPaused_ok hexec
      rfl
  | unpause =>
      obtain ⟨-, rfl⟩ := setPaused_ok hexec
      rfl
  | adminTransfer newAdmin =>
      obtain ⟨-, rfl⟩ := adminTransfer_ok hexec
      rfl

/-- A grant stores what it allows, or nothing when it allows nothing. -/
theorem allowance_of_grant {op : Op Address} {expiration : ℕ}
    (hgrant : op.Grants owner spender amount expiration) (hexec : exec t (env, op) = .ok t') :
    t'.allowance owner spender = some ⟨amount, expiration⟩ ∨ t'.allowance owner spender = none := by
  obtain ⟨entry, hentry, hwritten⟩ := writes_of_grant hgrant hexec
  rw [hwritten, writeAllowance_self]
  exact hentry

/-! ### Runs -/

section Runs

variable {granted : ℤ} {expiration : ℕ} {calls : List (LpEnv Address × Op Address)}

/-- What is stored of the allowance, its expiration apart. -/
def allowed (t : LpToken Address) (owner spender : Address) : Option ℤ :=
  (t.allowance owner spender).map AllowanceEntry.amount

/-- The allowance after `spent` of it: it accounts for that, and expires when it was granted to. -/
structure Within (granted : ℤ) (expiration : ℕ) (owner spender : Address) (t : LpToken Address)
    (spent : ℤ) : Prop where
  accounts : Allowance.Accounts granted spent (allowed t owner spender)
  expires : ∀ entry, t.allowance owner spender = some entry → entry.expirationLedger = expiration

theorem within_of_grant {op : Op Address} (hgrant : op.Grants owner spender granted expiration)
    (hexec : exec t (env, op) = .ok t') : Within granted expiration owner spender t' 0 := by
  rcases allowance_of_grant hgrant hexec with hstored | hnone
  · constructor
    · rw [allowed, hstored]
      exact Allowance.Accounts.grant granted
    · intro entry hentry
      obtain rfl := Option.some.inj (hstored.symm.trans hentry)
      rfl
  · constructor
    · rw [allowed, hnone]
      exact Allowance.Accounts.nothing granted
    · intro entry hentry
      cases hnone.symm.trans hentry

omit [DecidableEq Address] in
theorem Within.spend {entry : AllowanceEntry} {spent : ℤ}
    (hwithin : Within granted expiration owner spender t spent)
    (hspends : Spends env t t' owner spender amount entry) :
    Within granted expiration owner spender t' (spent + amount) := by
  have hexpires := hwithin.expires entry hspends.stored
  have haccounts := hwithin.accounts
  rw [allowed, hspends.stored] at haccounts
  constructor
  · rw [allowed, hspends.left, Option.map_map]
    have hid : AllowanceEntry.amount ∘ (⟨·, entry.expirationLedger⟩) = id := rfl
    rw [hid, Option.map_id]
    exact haccounts.spend hspends.covered
  · intro later hlater
    rw [hspends.left] at hlater
    obtain ⟨_, -, rfl⟩ := Option.map_eq_some_iff.mp hlater
    exact hexpires

/-- One accepted call that does not grant the allowance anew. -/
theorem within_of_exec {op : Op Address} {spent : ℤ} (hne : spender ≠ owner)
    (hregrants : ¬op.Regrants owner spender)
    (hwithin : Within granted expiration owner spender t spent) (hexec : exec t (env, op) = .ok t') :
    Within granted expiration owner spender t' (spent + (op.spends owner spender).getD 0) := by
  cases hspends : op.spends owner spender with
  | none =>
      have hsame := allowance_of_exec hspends hregrants hexec
      rw [Option.getD_none, add_zero]
      constructor
      · rw [allowed, hsame]
        exact hwithin.accounts
      · rw [hsame]
        exact hwithin.expires
  | some amount =>
      obtain ⟨entry, hspend⟩ := spends_of_exec hne hspends hexec
      exact hwithin.spend hspend

/-- The owner never loses more than was spent. -/
theorem drawn_le_spent (hne : spender ≠ owner) (t : LpToken Address)
    (calls : List (LpEnv Address × Op Address)) :
    drawn owner spender t calls ≤ spent owner spender t calls := by
  refine Machine.total_le_total ?_ t calls
  rintro t ⟨env, op⟩ t' hexec
  cases hspends : op.spends owner spender with
  | none => exact le_of_eq (if_neg Bool.false_ne_true)
  | some amount =>
      obtain ⟨entry, hspend⟩ := spends_of_exec hne hspends hexec
      rw [if_pos (by rfl), Machine.step_of_exec_ok hexec]
      exact hspend.lost

/-- What a grant of `granted` until `expiration` promises the owner about a run. -/
structure AllowanceHolds (owner spender : Address) (granted : ℤ) (expiration : ℕ) (t : LpToken Address)
    (calls : List (LpEnv Address × Op Address)) : Prop where
  /-- The spender has taken at most what was granted. -/
  drawn_le : drawn owner spender t calls ≤ max granted 0
  /-- No call of the spender goes through once the allowance has expired. -/
  live : machine.Along (fun t call => (call.2.spends owner spender).isSome = true →
    machine.Accepts t call → call.1.sequence < expiration) t calls
  /-- What is stored is what was granted less what was spent. -/
  stored : ∀ entry, (machine.run t calls).allowance owner spender = some entry →
    entry.amount = granted - spent owner spender t calls

/-- **Allowances.** After an approval or a permit, as long as neither is repeated for the same owner and
spender, the spender is held to what was granted. -/
theorem allowanceHolds_of_grant {op : Op Address} (hne : spender ≠ owner)
    (hgrant : op.Grants owner spender granted expiration) (hexec : exec t (env, op) = .ok t')
    (hnone : ¬machine.Occurs (fun call => call.2.Regrants owner spender) t' calls) :
    AllowanceHolds owner spender granted expiration t' calls := by
  have halong := Machine.along_of_not_occurs hnone
  have hstart := within_of_grant hgrant hexec
  have hstep : ∀ s spent call s', Within granted expiration owner spender s spent →
      (call.2.Regrants owner spender → ¬machine.Accepts s call) → machine.exec s call = .ok s' →
      Within granted expiration owner spender s' (spent + (call.2.spends owner spender).getD 0) := by
    rintro s spent ⟨env, op⟩ s' hwithin hregrants hcall
    exact within_of_exec hne (fun hre => hregrants hre ⟨s', hcall⟩) hwithin hcall
  have hend : Within granted expiration owner spender (machine.run t' calls)
      (spent owner spender t' calls) := by
    have hrun := Machine.run_total hstep hstart halong
    rwa [zero_add] at hrun
  constructor
  · exact (drawn_le_spent hne t' calls).trans hend.accounts.covered
  · refine Machine.along_of_invariant
      (I := fun s => ∃ spent, Within granted expiration owner spender s spent) ?_ ?_ ⟨_, hstart⟩ halong
    · rintro s call s' ⟨spent, hwithin⟩ hregrants hcall
      exact ⟨_, hstep s spent call s' hwithin hregrants hcall⟩
    · rintro s ⟨env, op⟩ ⟨spent, hwithin⟩ _ hspends ⟨s', hcall⟩
      obtain ⟨amount, hamount⟩ := Option.isSome_iff_exists.mp hspends
      obtain ⟨entry, hspend⟩ := spends_of_exec hne hamount hcall
      exact hspend.live.trans_eq (hwithin.expires entry hspend.stored)
  · intro entry hentry
    refine hend.accounts.left_eq entry.amount ?_
    rw [allowed, hentry]
    rfl

/-- Address 1 holds 700 shares. -/
def heldToken : LpToken ℕ :=
  { fresh 0 with totalSupply := 700, balance := fun who => if who = 1 then 700 else 0 }

/-- It lets address 2 have 400 of them until ledger 9. -/
def approval : LpEnv ℕ × Op ℕ := (⟨5, fun who => who = 1, Crypto.rejecting ℕ⟩, .approve 1 2 400 9)

def spenderEnv (sequence : ℕ) : LpEnv ℕ := ⟨sequence, fun who => who = 2, Crypto.rejecting ℕ⟩

/-- Address 2 takes 300, in two ways, and tries once more when the allowance has expired. -/
def spenderCalls : List (LpEnv ℕ × Op ℕ) :=
  [(spenderEnv 6, .transferFrom 2 1 3 250), (spenderEnv 7, .burnFrom 2 1 50),
    (spenderEnv 9, .transferFrom 2 1 2 60)]

theorem allowanceHolds_of_approval :
    drawn 1 2 (machine.step heldToken approval) spenderCalls = 300 ∧
      AllowanceHolds 1 2 400 9 (machine.step heldToken approval) spenderCalls := by
  have hexec : exec heldToken approval = .ok (machine.step heldToken approval) := rfl
  have hgrant : approval.2.Grants 1 2 400 9 := ⟨rfl, rfl, rfl, rfl⟩
  refine ⟨by decide +kernel, allowanceHolds_of_grant (by decide) hgrant hexec ?_⟩
  rintro (⟨⟨_, _, h⟩, -⟩ | ⟨⟨_, _, h⟩, -⟩ | ⟨⟨_, _, h⟩, -⟩ | h) <;> exact h

end Runs

end CoralSwap.LpToken
