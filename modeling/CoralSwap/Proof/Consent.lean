import CoralSwap.Proof.Allowances

/-!
# Nobody's shares move without consent

A balance falls only in a call that its owner signed, or in one of a spender whose allowance goes back to the
owner: to an approval it signed, or to a permit that verified under its key. The one exception is the admin, who can
mint a negative amount.
-/

namespace CoralSwap.LpToken

open Host Host.Call

variable {Address : Type} [DecidableEq Address]
variable {env : LpEnv Address} {t t' : LpToken Address} {owner spender : Address} {amount : ℤ} {expiration : ℕ}

/-- A call by which `owner` lets `spender` have something until `expiration`, and which shows that it does: it
signed the call, or a permit with its next nonce. -/
def Consents (env : LpEnv Address) (t : LpToken Address) (owner spender : Address) (expiration : ℕ) :
    Op Address → Prop
  | .approve src dst _ ledger => src = owner ∧ dst = spender ∧ ledger = expiration ∧ env.auth owner = true
  | .permit src dst amount deadline signature =>
      src = owner ∧ dst = spender ∧ deadline = expiration ∧
        env.crypto.ed25519Verify ((env.crypto.toXdr owner).take 32)
          (permitDigest env.crypto owner spender amount (t.nonce owner) expiration) signature = true
  | _ => False

theorem consents_of_grant {op : Op Address} (hgrant : op.Grants owner spender amount expiration)
    (hexec : exec t (env, op) = .ok t') : Consents env t owner spender expiration op := by
  cases op with
  | approve src dst granted ledger =>
      obtain ⟨rfl, rfl, -, rfl⟩ := hgrant
      exact ⟨rfl, rfl, rfl, (approve_ok hexec).1⟩
  | permit src dst granted deadline signature =>
      obtain ⟨rfl, rfl, -, rfl⟩ := hgrant
      simp only [exec, permit, bind_eq_ok, require_eq_ok] at hexec
      obtain ⟨-, -, -, -, -, hverify, -⟩ := hexec
      exact ⟨rfl, rfl, rfl, hverify⟩
  | _ => exact hgrant.elim

/-! ### Where an allowance comes from -/

/-- There is an allowance that expires at `expiration`. -/
def AllowedUntil (owner spender : Address) (expiration : ℕ) (t : LpToken Address) : Prop :=
  ∃ entry, t.allowance owner spender = some entry ∧ entry.expirationLedger = expiration

omit [DecidableEq Address] in
theorem AllowedUntil.of_eq (heq : t'.allowance owner spender = t.allowance owner spender)
    (hallowed : AllowedUntil owner spender expiration t') : AllowedUntil owner spender expiration t := by
  obtain ⟨entry, hentry, hexpires⟩ := hallowed
  exact ⟨entry, heq.symm.trans hentry, hexpires⟩

theorem grants_of_regrant {op : Op Address} (hregrants : op.Regrants owner spender)
    (hexec : exec t (env, op) = .ok t') (hallowed : AllowedUntil owner spender expiration t') :
    ∃ amount, op.Grants owner spender amount expiration := by
  obtain ⟨amount, ledger, hgrant⟩ := hregrants
  obtain ⟨entry, hentry, hexpires⟩ := hallowed
  rcases allowance_of_grant hgrant hexec with hstored | hnone
  · obtain rfl := Option.some.inj (hentry.symm.trans hstored)
    obtain rfl : ledger = expiration := hexpires
    exact ⟨amount, hgrant⟩
  · cases hentry.symm.trans hnone

/-- Spending from an allowance leaves its expiration. -/
theorem allowedUntil_of_exec (hne : spender ≠ owner) {op : Op Address} (hkept : ¬op.Regrants owner spender)
    (hexec : exec t (env, op) = .ok t') (hallowed : AllowedUntil owner spender expiration t') :
    AllowedUntil owner spender expiration t := by
  cases hspends : op.spends owner spender with
  | none => exact hallowed.of_eq (allowance_of_exec hspends hkept hexec)
  | some amount =>
      obtain ⟨entry, hspent⟩ := spends_of_exec hne hspends hexec
      obtain ⟨left, hleft, hexpires⟩ := hallowed
      rw [hspent.left, Option.map_eq_some_iff] at hleft
      obtain ⟨_, -, rfl⟩ := hleft
      exact ⟨entry, hspent.stored, hexpires⟩

/-- What a spender may take at the end of a run, if it could take nothing before it, it may take by the consent
of the owner, given in the run and not withdrawn since. -/
structure ConsentedIn (owner spender : Address) (expiration : ℕ) (t : LpToken Address)
    (calls : List (LpEnv Address × Op Address)) : Prop where
  given : ∃ first env grant second, calls = first ++ (env, grant) :: second ∧
    machine.Accepts (machine.run t first) (env, grant) ∧
      Consents env (machine.run t first) owner spender expiration grant ∧
        ¬machine.Occurs (fun call => call.2.Regrants owner spender) (machine.run t (first ++ [(env, grant)])) second

theorem consentedIn_of_allowed (hne : spender ≠ owner) (hnone : t.allowance owner spender = none)
    {calls : List (LpEnv Address × Op Address)}
    (hallowed : AllowedUntil owner spender expiration (machine.run t calls)) :
    ConsentedIn owner spender expiration t calls := by
  have hmake : ∀ s (call : LpEnv Address × Op Address) s', call.2.Regrants owner spender →
      machine.exec s call = .ok s' → AllowedUntil owner spender expiration s' →
        ∃ amount, call.2.Grants owner spender amount expiration :=
    fun _ _ _ hregrants hexec hend => grants_of_regrant hregrants hexec hend
  have hkeep : ∀ s (call : LpEnv Address × Op Address) s', ¬call.2.Regrants owner spender →
      machine.exec s call = .ok s' → AllowedUntil owner spender expiration s' →
        AllowedUntil owner spender expiration s :=
    fun _ _ _ hkept hexec hend => allowedUntil_of_exec hne hkept hexec hend
  rcases Machine.exists_origin hmake hkeep hallowed with
    ⟨⟨entry, hentry, -⟩, -⟩ | ⟨first, ⟨env, grant⟩, second, rfl, ⟨amount, hgrant⟩, haccepts, hlast⟩
  · cases hnone.symm.trans hentry
  · obtain ⟨after, hexec⟩ := haccepts
    exact ⟨first, env, grant, second, rfl, ⟨after, hexec⟩, consents_of_grant hgrant hexec, hlast⟩

/-! ### Falling balances -/

/-- A spender took `amount` by a call it signed, from an allowance that covers it and has not expired. -/
structure Drawn (env : LpEnv Address) (t : LpToken Address) (owner spender : Address) (amount : ℤ)
    (expiration : ℕ) (op : Op Address) : Prop where
  spends : op.spends owner spender = some amount
  signed : env.auth spender = true
  live : env.sequence < expiration
  covered : ∃ entry, t.allowance owner spender = some entry ∧ entry.expirationLedger = expiration ∧
    amount ≤ entry.amount

/-- How a call may lower the balance of `owner`. -/
inductive Lowers (env : LpEnv Address) (t : LpToken Address) (owner : Address) (op : Op Address) : Prop where
  | signed (hauth : env.auth owner = true)
  | drawn {spender : Address} {amount : ℤ} {expiration : ℕ} (hne : spender ≠ owner)
      (hdrawn : Drawn env t owner spender amount expiration op)
  | minted {amount : ℤ} (hop : op = .mint owner amount) (hnegative : amount < 0)
      (hadmin : ∃ admin, t.admin = some admin ∧ env.auth admin = true)

theorem Drawn.of_spends {op : Op Address} {entry : AllowanceEntry} (hop : op.spends owner spender = some amount)
    (hauth : env.auth spender = true) (hspends : Spends env t t' owner spender amount entry) :
    Drawn env t owner spender amount entry.expirationLedger op :=
  ⟨hop, hauth, hspends.live, entry, hspends.stored, rfl, hspends.covered⟩

theorem src_of_moved_lt {balance : Address → ℤ} {src dst : Address} (hsign : 0 ≤ amount)
    (hfalls : Token.moved balance src dst amount owner < balance owner) : src = owner := by
  by_contra hne
  have hmoved : balance owner ≤ Token.moved balance src dst amount owner := Token.le_moved hsign (Ne.symm hne)
  omega

theorem eq_of_update_lt {balance : Address → ℤ} {dst : Address} {value : ℤ}
    (hfalls : Function.update balance dst value owner < balance owner) : dst = owner ∧ value < balance owner := by
  by_cases howner : owner = dst
  · subst howner
    rw [Function.update_self] at hfalls
    exact ⟨rfl, hfalls⟩
  · rw [Function.update_of_ne howner] at hfalls
    exact absurd hfalls (lt_irrefl _)

theorem lowers_of_exec {op : Op Address} (hexec : exec t (env, op) = .ok t')
    (hfalls : t'.balance owner < t.balance owner) : Lowers env t owner op := by
  cases op with
  | mint dst amount =>
      obtain ⟨hadmin, -, -, rfl⟩ := mint_ok hexec
      obtain ⟨rfl, hnegative⟩ := eq_of_update_lt hfalls
      exact .minted rfl (by omega) hadmin
  | burn src amount =>
      obtain ⟨hauth, -, rfl⟩ := burn_ok hexec
      obtain ⟨rfl, -⟩ := eq_of_update_lt hfalls
      exact .signed hauth
  | burnFrom spender src amount =>
      have hauth : env.auth spender = true := by
        simp only [exec, burnFrom, bind_eq_ok, require_eq_ok] at hexec
        obtain ⟨-, -, -, hauth, -⟩ := hexec
        exact hauth
      obtain ⟨entry, hspends⟩ := burnFrom_spends hexec
      obtain ⟨-, -, -, allowance, rfl⟩ := burnFrom_ok hexec
      obtain ⟨rfl, -⟩ := eq_of_update_lt hfalls
      by_cases hself : spender = src
      · exact .signed (hself ▸ hauth)
      · exact .drawn hself (.of_spends (by simp [Op.spends]) hauth hspends)
  | transfer src dst amount =>
      obtain ⟨hauth, hsign, -, rfl⟩ := transfer_ok hexec
      obtain rfl := src_of_moved_lt hsign hfalls
      exact .signed hauth
  | transferFrom spender src dst amount =>
      have hauth : env.auth spender = true := by
        simp only [exec, transferFrom, bind_eq_ok, require_eq_ok] at hexec
        obtain ⟨-, -, -, hauth, -⟩ := hexec
        exact hauth
      have htransfer := hexec
      obtain ⟨-, hsign, -, -, allowance, rfl⟩ := transferFrom_ok hexec
      obtain rfl := src_of_moved_lt hsign hfalls
      by_cases hself : spender = src
      · exact .signed (hself ▸ hauth)
      · obtain ⟨entry, hspends⟩ := transferFrom_spends hself htransfer
        exact .drawn hself (.of_spends (by simp [Op.spends]) hauth hspends)
  | approve src spender amount expirationLedger =>
      obtain ⟨-, -, allowance, rfl⟩ := approve_ok hexec
      exact absurd hfalls (lt_irrefl _)
  | permit src spender amount deadline signature =>
      obtain ⟨-, -, allowance, nonce, rfl⟩ := permit_ok hexec
      exact absurd hfalls (lt_irrefl _)
  | pause =>
      obtain ⟨-, rfl⟩ := setPaused_ok hexec
      exact absurd hfalls (lt_irrefl _)
  | unpause =>
      obtain ⟨-, rfl⟩ := setPaused_ok hexec
      exact absurd hfalls (lt_irrefl _)
  | adminTransfer newAdmin =>
      obtain ⟨-, rfl⟩ := adminTransfer_ok hexec
      exact absurd hfalls (lt_irrefl _)

/-- **Consent.** In a run from a token on which `owner` allows nothing, every call that lowers the balance of
`owner` was signed by `owner`, or draws on what `owner` consented to earlier in the run and has not granted anew
since, or is the admin minting a negative amount. -/
theorem balance_falls_by_consent (hnone : ∀ spender, t.allowance owner spender = none)
    (past : List (LpEnv Address × Op Address)) (env : LpEnv Address) (op : Op Address)
    (hfalls : (machine.run t (past ++ [(env, op)])).balance owner < (machine.run t past).balance owner) :
    env.auth owner = true ∨
      (∃ spender amount expiration, Drawn env (machine.run t past) owner spender amount expiration op ∧
        ConsentedIn owner spender expiration t past) ∨
      ∃ amount < 0, op = .mint owner amount ∧
        ∃ admin, (machine.run t past).admin = some admin ∧ env.auth admin = true := by
  rw [Machine.run_append, Machine.run_cons, Machine.run_nil] at hfalls
  rcases Machine.step_cases (m := machine) (machine.run t past) (env, op) with hexec | hstay
  · cases lowers_of_exec hexec hfalls with
    | signed hauth => exact Or.inl hauth
    | drawn hne hdrawn =>
        obtain ⟨entry, hentry, hexpires, -⟩ := hdrawn.covered
        exact Or.inr (Or.inl ⟨_, _, _, hdrawn, consentedIn_of_allowed hne (hnone _) ⟨entry, hentry, hexpires⟩⟩)
    | minted hop hnegative hadmin => exact Or.inr (Or.inr ⟨_, hnegative, hop, hadmin⟩)
  · rw [hstay] at hfalls
    exact absurd hfalls (lt_irrefl _)

end CoralSwap.LpToken
