import CoralSwap.Lib.Token
import CoralSwap.LpToken

/-!
# What an accepted LP token call does

One lemma per operation: what it checked, and the storage it leaves. The supply and the balances
follow from these alone.
-/

namespace CoralSwap.LpToken

open Host Host.Call

variable {Address : Type} [DecidableEq Address] {env : LpEnv Address} {t t' : LpToken Address}
variable {src dst owner spender who : Address} {amount : ℤ}

omit [DecidableEq Address] in
theorem requireAdmin_ok {admin : Address} :
    requireAdmin env t = .ok admin ↔ t.admin = some admin ∧ env.auth admin = true := by
  simp only [requireAdmin, bind_eq_ok, okOr_eq_ok, require_eq_ok, pure_eq_ok, exists_const]
  constructor
  · rintro ⟨_, hadmin, hauth, rfl⟩
    exact ⟨hadmin, hauth⟩
  · rintro ⟨hadmin, hauth⟩
    exact ⟨admin, hadmin, hauth, rfl⟩

theorem moved_eq_update (balance : Address → ℤ) (src dst : Address) (amount : ℤ) :
    Function.update (Function.update balance src (balance src - amount)) dst
        (Function.update balance src (balance src - amount) dst + amount) =
      Token.moved balance src dst amount := by
  funext who
  unfold Token.moved
  by_cases hself : src = dst
  · subst hself
    by_cases hwho : who = src
    · subst hwho
      simp
    · simp [hwho]
  · by_cases hdst : who = dst
    · subst hdst
      simp [hself, Ne.symm hself]
    · by_cases hsrc : who = src
      · subst hsrc
        simp [hself]
      · simp [hself, hdst, hsrc]

theorem moved_zero (balance : Address → ℤ) (src dst : Address) :
    Token.moved balance src dst 0 = balance := by
  funext who
  unfold Token.moved
  split_ifs with hself hsrc hdst
  · rfl
  · rw [hsrc]
    omega
  · rw [hdst]
    omega
  · rfl

theorem transferInternal_ok (htransfer : transferInternal t src dst amount = .ok t') :
    0 ≤ amount ∧ (0 < amount → amount ≤ t.balance src) ∧
      t' = { t with balance := Token.moved t.balance src dst amount } := by
  simp only [transferInternal, bind_eq_ok, failIf_eq_ok] at htransfer
  obtain ⟨-, hsign, htransfer⟩ := htransfer
  split at htransfer
  · rename_i hzero
    simp only [pure_eq_ok] at htransfer
    subst htransfer
    refine ⟨by omega, by omega, ?_⟩
    rw [hzero, moved_zero]
  · simp only [bind_eq_ok, failIf_eq_ok, orTrap_eq_ok, okOr_eq_ok, pure_eq_ok,
      Word.checkedSub_eq_some, Word.checkedAdd_eq_some] at htransfer
    obtain ⟨-, hfunds, _, ⟨-, rfl⟩, _, ⟨-, rfl⟩, rfl⟩ := htransfer
    refine ⟨by omega, fun _ => by omega, ?_⟩
    rw [← moved_eq_update]
    rfl

/-- Nobody but `owner` and those it allowed to may move the shares of `owner`. -/
def Agreed (env : LpEnv Address) (t : LpToken Address) (owner : Address) : Prop :=
  env.auth owner = true ∨ ∃ spender, (t.allowance owner spender).isSome = true

/-- `t'` has the allowances of `t`, except perhaps those `owner` granted. -/
def AllowancesOfOthers (t t' : LpToken Address) (owner : Address) : Prop :=
  ∀ other, other ≠ owner → t'.allowance other = t.allowance other

theorem spendAllowance_ok (hspend : spendAllowance env t owner spender amount = .ok t') :
    (∃ entry, t.allowance owner spender = some entry ∧ env.sequence < entry.expirationLedger ∧
        amount ≤ entry.amount) ∧
      AllowancesOfOthers t t' owner ∧ ∃ allowance, t' = { t with allowance } := by
  simp only [spendAllowance, bind_eq_ok, failIf_eq_ok, okOr_eq_ok, orTrap_eq_ok] at hspend
  obtain ⟨entry, hentry, -, hlive, -, hamount, _, -, hspend⟩ := hspend
  refine ⟨⟨entry, hentry, by omega, by omega⟩, ?_⟩
  split at hspend <;>
  · simp only [pure_eq_ok] at hspend
    subst hspend
    exact ⟨fun other hother => Function.update_of_ne hother _ _, _, rfl⟩

theorem debitSupply_ok (hdebit : debitSupply t src amount = .ok t') :
    amount ≤ t.balance src ∧
      t' = { t.writeBalance src (t.balance src - amount) with
        totalSupply := t.totalSupply - amount } := by
  simp only [debitSupply, bind_eq_ok, failIf_eq_ok, okOr_eq_ok, orTrap_eq_ok, pure_eq_ok,
    Word.checkedSub_eq_some] at hdebit
  obtain ⟨-, hfunds, _, ⟨-, rfl⟩, _, ⟨-, rfl⟩, rfl⟩ := hdebit
  exact ⟨by omega, rfl⟩

theorem mint_ok (hmint : mint env t dst amount = .ok t') :
    (∃ admin, t.admin = some admin ∧ env.auth admin = true) ∧ amount ≤ maxMintPerCall ∧
      t.totalSupply + amount ≤ maxTotalSupply ∧
      t' = { t.writeBalance dst (t.balance dst + amount) with
        totalSupply := t.totalSupply + amount } := by
  simp only [mint, bind_eq_ok, failIf_eq_ok, okOr_eq_ok, pure_eq_ok, Word.checkedAdd_eq_some,
    requireAdmin_ok] at hmint
  obtain ⟨-, -, admin, hadmin, -, hcall, _, ⟨-, rfl⟩, _, ⟨-, rfl⟩, -, hcap, rfl⟩ := hmint
  exact ⟨⟨admin, hadmin⟩, by omega, by omega, rfl⟩

theorem burn_ok (hburn : burn env t src amount = .ok t') :
    env.auth src = true ∧ amount ≤ t.balance src ∧
      t' = { t.writeBalance src (t.balance src - amount) with
        totalSupply := t.totalSupply - amount } := by
  simp only [burn, bind_eq_ok, failIf_eq_ok, require_eq_ok] at hburn
  obtain ⟨-, -, -, hauth, hdebit⟩ := hburn
  exact ⟨hauth, debitSupply_ok hdebit⟩

theorem burnFrom_ok (hburn : burnFrom env t spender src amount = .ok t') :
    (∃ entry, t.allowance src spender = some entry) ∧ amount ≤ t.balance src ∧
      AllowancesOfOthers t t' src ∧
      ∃ allowance, t' = { t.writeBalance src (t.balance src - amount) with
        totalSupply := t.totalSupply - amount, allowance } := by
  simp only [burnFrom, bind_eq_ok, failIf_eq_ok, require_eq_ok] at hburn
  obtain ⟨-, -, -, -, _, hspend, hdebit⟩ := hburn
  obtain ⟨⟨entry, hentry, -⟩, hothers, allowance, rfl⟩ := spendAllowance_ok hspend
  obtain ⟨hfunds, rfl⟩ := debitSupply_ok hdebit
  exact ⟨⟨entry, hentry⟩, hfunds, hothers, allowance, rfl⟩

theorem transfer_ok (htransfer : transfer env t src dst amount = .ok t') :
    env.auth src = true ∧ 0 ≤ amount ∧ (0 < amount → amount ≤ t.balance src) ∧
      t' = { t with balance := Token.moved t.balance src dst amount } := by
  simp only [transfer, bind_eq_ok, failIf_eq_ok, require_eq_ok] at htransfer
  obtain ⟨-, -, -, hauth, hinternal⟩ := htransfer
  exact ⟨hauth, transferInternal_ok hinternal⟩

theorem transferFrom_ok (htransfer : transferFrom env t spender src dst amount = .ok t') :
    Agreed env t src ∧ 0 ≤ amount ∧ (0 < amount → amount ≤ t.balance src) ∧
      AllowancesOfOthers t t' src ∧
      ∃ allowance, t' = { t with balance := Token.moved t.balance src dst amount, allowance } := by
  simp only [transferFrom, bind_eq_ok, failIf_eq_ok, require_eq_ok] at htransfer
  obtain ⟨-, -, -, hauth, htransfer⟩ := htransfer
  split at htransfer
  · simp only [bind_eq_ok] at htransfer
    obtain ⟨spent, hspend, hinternal⟩ := htransfer
    obtain ⟨⟨entry, hentry, -⟩, hothers, allowance, rfl⟩ := spendAllowance_ok hspend
    obtain ⟨hsign, hfunds, rfl⟩ := transferInternal_ok hinternal
    exact ⟨Or.inr ⟨spender, by rw [hentry]; rfl⟩, hsign, hfunds, hothers, allowance, rfl⟩
  · rename_i hself
    obtain rfl := not_not.mp hself
    obtain ⟨hsign, hfunds, rfl⟩ := transferInternal_ok htransfer
    exact ⟨Or.inl hauth, hsign, hfunds, fun _ _ => rfl, t.allowance, rfl⟩

/-! ### The calls that move nothing -/

def Still (t t' : LpToken Address) : Prop :=
  t'.totalSupply = t.totalSupply ∧ t'.balance = t.balance

theorem approve_ok {expirationLedger : ℕ}
    (happrove : approve env t owner spender amount expirationLedger = .ok t') :
    env.auth owner = true ∧ AllowancesOfOthers t t' owner ∧ ∃ allowance, t' = { t with allowance } := by
  simp only [approve, bind_eq_ok, require_eq_ok, failIf_eq_ok] at happrove
  obtain ⟨-, hauth, -, -, happrove⟩ := happrove
  refine ⟨hauth, ?_⟩
  split at happrove <;>
  · simp only [pure_eq_ok] at happrove
    subst happrove
    exact ⟨fun other hother => Function.update_of_ne hother _ _, _, rfl⟩

/-- The host verifies some signature under the key read from `owner`. -/
def Signs (env : LpEnv Address) (owner : Address) : Prop :=
  ∃ digest signature,
    env.crypto.ed25519Verify ((env.crypto.toXdr owner).take 32) digest signature = true

theorem permit_ok {deadline : ℕ} {signature : List UInt8}
    (hpermit : permit env t owner spender amount deadline signature = .ok t') :
    Signs env owner ∧ AllowancesOfOthers t t' owner ∧
      ∃ allowance nonce, t' = { t with allowance, nonce } := by
  simp only [permit, bind_eq_ok, require_eq_ok, failIf_eq_ok, orTrap_eq_ok, pure_eq_ok] at hpermit
  obtain ⟨-, -, -, -, -, hverify, _, -, rfl⟩ := hpermit
  exact ⟨⟨_, _, hverify⟩, fun other hother => Function.update_of_ne hother _ _, _, _, rfl⟩

omit [DecidableEq Address] in
theorem setPaused_ok {paused : Bool} (hset : setPaused env t paused = .ok t') :
    (∃ admin, t.admin = some admin ∧ env.auth admin = true) ∧ t' = { t with paused } := by
  simp only [setPaused, bind_eq_ok, requireAdmin_ok, pure_eq_ok] at hset
  obtain ⟨admin, hadmin, rfl⟩ := hset
  exact ⟨⟨admin, hadmin⟩, rfl⟩

omit [DecidableEq Address] in
theorem adminTransfer_ok {newAdmin : Address} (hset : adminTransfer env t newAdmin = .ok t') :
    (∃ admin, t.admin = some admin ∧ env.auth admin = true) ∧
      t' = { t with admin := some newAdmin } := by
  simp only [adminTransfer, bind_eq_ok, requireAdmin_ok, pure_eq_ok] at hset
  obtain ⟨admin, hadmin, rfl⟩ := hset
  exact ⟨⟨admin, hadmin⟩, rfl⟩

/-! ### All calls at once -/

def burnedAmount : Op Address → Option ℤ
  | .burn _ amount => some amount
  | .burnFrom _ _ amount => some amount
  | _ => none

/-- What an accepted call does to the supply and the balances: it mints under the admin's signature,
burns, moves shares between two addresses, or does neither. -/
inductive Effect (env : LpEnv Address) (t : LpToken Address) (op : Op Address) (t' : LpToken Address) :
    Prop where
  | minted (dst : Address) (amount : ℤ) (hop : op = .mint dst amount)
      (hadmin : ∃ admin, t.admin = some admin ∧ env.auth admin = true)
      (hcap : t'.totalSupply ≤ maxTotalSupply)
      (hsupply : t'.totalSupply = t.totalSupply + amount)
      (hbalance : t'.balance = Function.update t.balance dst (t.balance dst + amount))
  | burned (src : Address) (amount : ℤ) (hop : burnedAmount op = some amount)
      (hfunds : amount ≤ t.balance src)
      (hsupply : t'.totalSupply = t.totalSupply - amount)
      (hbalance : t'.balance = Function.update t.balance src (t.balance src - amount))
      (hagreed : Agreed env t src)
  | moved (src dst : Address) (amount : ℤ) (hop : burnedAmount op = none) (hsign : 0 ≤ amount)
      (hfunds : 0 < amount → amount ≤ t.balance src)
      (hsupply : t'.totalSupply = t.totalSupply)
      (hbalance : t'.balance = Token.moved t.balance src dst amount)
      (hagreed : Agreed env t src)
  | still (hop : burnedAmount op = none) (hstill : Still t t')

theorem effect_of_exec {op : Op Address} (hexec : exec t (env, op) = .ok t') :
    Effect env t op t' := by
  cases op with
  | mint dst amount =>
      obtain ⟨hadmin, -, hcap, rfl⟩ := mint_ok hexec
      exact .minted dst amount rfl hadmin hcap rfl rfl
  | burn src amount =>
      obtain ⟨hauth, hfunds, rfl⟩ := burn_ok hexec
      exact .burned src amount rfl hfunds rfl rfl (Or.inl hauth)
  | burnFrom spender src amount =>
      obtain ⟨⟨entry, hentry⟩, hfunds, -, allowance, rfl⟩ := burnFrom_ok hexec
      exact .burned src amount rfl hfunds rfl rfl (Or.inr ⟨spender, by rw [hentry]; rfl⟩)
  | transfer src dst amount =>
      obtain ⟨hauth, hsign, hfunds, rfl⟩ := transfer_ok hexec
      exact .moved src dst amount rfl hsign hfunds rfl rfl (Or.inl hauth)
  | transferFrom spender src dst amount =>
      obtain ⟨hagreed, hsign, hfunds, -, allowance, rfl⟩ := transferFrom_ok hexec
      exact .moved src dst amount rfl hsign hfunds rfl rfl hagreed
  | approve owner spender amount expirationLedger =>
      obtain ⟨-, -, allowance, rfl⟩ := approve_ok hexec
      exact .still rfl ⟨rfl, rfl⟩
  | permit owner spender amount deadline signature =>
      obtain ⟨-, -, allowance, nonce, rfl⟩ := permit_ok hexec
      exact .still rfl ⟨rfl, rfl⟩
  | pause =>
      obtain ⟨-, rfl⟩ := setPaused_ok hexec
      exact .still rfl ⟨rfl, rfl⟩
  | unpause =>
      obtain ⟨-, rfl⟩ := setPaused_ok hexec
      exact .still rfl ⟨rfl, rfl⟩
  | adminTransfer newAdmin =>
      obtain ⟨-, rfl⟩ := adminTransfer_ok hexec
      exact .still rfl ⟨rfl, rfl⟩

/-- What an accepted call leaves alone: the admin unless it signed, and the allowances of everyone who
neither agreed nor signed. -/
structure Frame (env : LpEnv Address) (t t' : LpToken Address) : Prop where
  admin : ∀ admin, t.admin = some admin → env.auth admin ≠ true → t'.admin = some admin
  allowance : ∀ who, ¬Agreed env t who → ¬Signs env who → t'.allowance who = t.allowance who

omit [DecidableEq Address] in
theorem Frame.of_eq (hadmin : t'.admin = t.admin) (hallowance : t'.allowance = t.allowance) :
    Frame env t t' := by
  constructor
  · intro admin hstored _
    exact hadmin.trans hstored
  · intro who _ _
    rw [hallowance]

omit [DecidableEq Address] in
theorem Frame.of_others (hadmin : t'.admin = t.admin) (hothers : AllowancesOfOthers t t' owner)
    (howner : Agreed env t owner ∨ Signs env owner) : Frame env t t' := by
  constructor
  · intro admin hstored _
    exact hadmin.trans hstored
  · intro who hagreed hsigns
    refine hothers who ?_
    rintro rfl
    exact howner.elim hagreed hsigns

theorem frame_of_exec {op : Op Address} (hexec : exec t (env, op) = .ok t') : Frame env t t' := by
  cases op with
  | mint dst amount =>
      obtain ⟨-, -, -, rfl⟩ := mint_ok hexec
      exact .of_eq rfl rfl
  | burn src amount =>
      obtain ⟨-, -, rfl⟩ := burn_ok hexec
      exact .of_eq rfl rfl
  | burnFrom spender src amount =>
      obtain ⟨⟨entry, hentry⟩, -, hothers, allowance, rfl⟩ := burnFrom_ok hexec
      exact .of_others rfl hothers (Or.inl (Or.inr ⟨spender, by rw [hentry]; rfl⟩))
  | transfer src dst amount =>
      obtain ⟨-, -, -, rfl⟩ := transfer_ok hexec
      exact .of_eq rfl rfl
  | transferFrom spender src dst amount =>
      obtain ⟨hagreed, -, -, hothers, allowance, rfl⟩ := transferFrom_ok hexec
      exact .of_others rfl hothers (Or.inl hagreed)
  | approve owner spender amount expirationLedger =>
      obtain ⟨hauth, hothers, allowance, rfl⟩ := approve_ok hexec
      exact .of_others rfl hothers (Or.inl (Or.inl hauth))
  | permit owner spender amount deadline signature =>
      obtain ⟨hsigned, hothers, allowance, nonce, rfl⟩ := permit_ok hexec
      exact .of_others rfl hothers (Or.inr hsigned)
  | pause =>
      obtain ⟨-, rfl⟩ := setPaused_ok hexec
      exact .of_eq rfl rfl
  | unpause =>
      obtain ⟨-, rfl⟩ := setPaused_ok hexec
      exact .of_eq rfl rfl
  | adminTransfer newAdmin =>
      obtain ⟨⟨signer, hsigner, hsigned⟩, rfl⟩ := adminTransfer_ok hexec
      constructor
      · intro admin hadmin hauth
        obtain rfl : signer = admin := Option.some.inj (hsigner.symm.trans hadmin)
        exact absurd hsigned hauth
      · intro who _ _
        rfl

end CoralSwap.LpToken
