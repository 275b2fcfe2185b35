import CoralSwap.Proof.LpSupply
import CoralSwap.Proof.PairEffects

/-!
# What outsiders can do to the pair's shares

Between the pair's calls, and while a flash loan's receiver runs, third parties may call the LP token.
They cannot take shares from the pair, nor issue the first ones, except by a burn of a negative
amount. A permit would need a signature under the pair's address, which is a contract without a key.
-/

namespace CoralSwap

open Host Host.Call

variable {Address : Type} [DecidableEq Address] {contract : Address}

namespace LpToken

variable {env : LpEnv Address} {t t' : LpToken Address} {who : Address}

/-- `who` administers the token, and has allowed nobody to spend its shares. -/
structure Held (who : Address) (t : LpToken Address) : Prop where
  admin : t.admin = some who
  unspendable : ∀ spender, t.allowance who spender = none

structure Unissued (t : LpToken Address) : Prop where
  totalSupply : t.totalSupply = 0
  balance : ∀ who, t.balance who = 0

/-- A call that comes without the authorisation of `who` and on which `who` signs nothing. -/
structure Outside (who : Address) (env : LpEnv Address) : Prop where
  auth : env.auth who = false
  signs : ¬Signs env who

omit [DecidableEq Address] in
theorem Held.of_eq (hheld : Held who t) (hadmin : t'.admin = t.admin)
    (hallowance : t'.allowance = t.allowance) : Held who t' :=
  ⟨hadmin.trans hheld.admin, by rw [hallowance]; exact hheld.unspendable⟩

omit [DecidableEq Address] in
theorem not_agreed_of_outside (houtside : Outside who env) (hheld : Held who t) :
    ¬Agreed env t who := by
  rintro (hauth | ⟨spender, hallowed⟩)
  · rw [houtside.auth] at hauth
    cases hauth
  · rw [hheld.unspendable spender] at hallowed
    cases hallowed

omit [DecidableEq Address] in
theorem not_signed_of_outside (houtside : Outside who env) (hheld : Held who t) :
    ¬∃ admin, t.admin = some admin ∧ env.auth admin = true := by
  rintro ⟨admin, hadmin, hsigned⟩
  obtain rfl : admin = who := Option.some.inj (hadmin.symm.trans hheld.admin)
  rw [houtside.auth] at hsigned
  cases hsigned

theorem held_of_exec {op : Op Address} (houtside : Outside who env) (hheld : Held who t)
    (hexec : exec t (env, op) = .ok t') : Held who t' := by
  have hagreed := not_agreed_of_outside houtside hheld
  have hframe := frame_of_exec hexec
  refine ⟨hframe.admin who hheld.admin (Bool.eq_false_iff.mp houtside.auth), ?_⟩
  rw [hframe.allowance who hagreed houtside.signs]
  exact hheld.unspendable

theorem balance_le_of_exec {op : Op Address} (houtside : Outside who env) (hheld : Held who t)
    (hexec : exec t (env, op) = .ok t') : t.balance who ≤ t'.balance who := by
  have hagreed := not_agreed_of_outside houtside hheld
  cases effect_of_exec hexec with
  | minted dst amount hop hsigned => exact absurd hsigned (not_signed_of_outside houtside hheld)
  | burned src amount hop hfunds hsupply hbalance hsource =>
      have hne : who ≠ src := by
        rintro rfl
        exact hagreed hsource
      rw [hbalance, Function.update_of_ne hne]
  | moved src dst amount hop hsign hfunds hsupply hbalance hsource =>
      have hne : who ≠ src := by
        rintro rfl
        exact hagreed hsource
      rw [hbalance]
      exact Token.le_moved hsign hne
  | still hop hstill => rw [hstill.2]

/-- Where no shares exist, only the admin issues some, or a burn of a negative amount does. -/
theorem unissued_of_exec {op : Op Address} (houtside : Outside who env) (hheld : Held who t)
    (hburns : ¬BurnsNegative t (env, op)) (hunissued : Unissued t)
    (hexec : exec t (env, op) = .ok t') : Unissued t' := by
  cases effect_of_exec hexec with
  | minted dst amount hop hsigned => exact absurd hsigned (not_signed_of_outside houtside hheld)
  | burned src amount hop hfunds hsupply hbalance =>
      have hsign : 0 ≤ amount := by
        by_contra hneg
        exact hburns ⟨⟨amount, hop, by omega⟩, t', hexec⟩
      have hzero : amount = 0 := by
        rw [hunissued.balance] at hfunds
        omega
      subst hzero
      refine ⟨by rw [hsupply, hunissued.totalSupply, sub_zero], fun other => ?_⟩
      rw [hbalance, sub_zero, Function.update_eq_self]
      exact hunissued.balance other
  | moved src dst amount hop hsign hfunds hsupply hbalance =>
      have hzero : amount = 0 := by
        rw [hunissued.balance] at hfunds
        omega
      subst hzero
      refine ⟨by rw [hsupply, hunissued.totalSupply], fun other => ?_⟩
      rw [hbalance, moved_zero]
      exact hunissued.balance other
  | still hop hstill =>
      exact ⟨hstill.1.trans hunissued.totalSupply, by rw [hstill.2]; exact hunissued.balance⟩

end LpToken

/-! ### The LP token's part in what outsiders do -/

def External.toLpCall (contract : Address) :
    External Address → Option (LpEnv Address × LpToken.Op Address)
  | .lpCall env op => if env.auth contract = false then some (env, op) else none
  | _ => none

/-- What third parties do during a call: the call itself, or what the receiver of a flash loan does
when it is called. -/
def outsideActions : PairCall contract → List (External Address)
  | (_, .external action) => [action]
  | (_, .flashLoan _ _ _ _ callback) => callback.actions
  | _ => []

def outsideLpCalls (call : PairCall contract) : List (LpEnv Address × LpToken.Op Address) :=
  (outsideActions call).filterMap (External.toLpCall contract)

/-- The LP token sees the LP calls among the actions and nothing else. -/
theorem lp_run_eq (w : World Address) (actions : List (External Address)) :
    ((externalMachine contract).run w actions).lp =
      LpToken.machine.run w.lp (actions.filterMap (External.toLpCall contract)) := by
  refine Machine.run_project (m := externalMachine contract) (f := World.lp) ?_ ?_ w actions
  · intro w action call hcall
    cases action with
    | transferA => cases hcall
    | transferB => cases hcall
    | lpCall env op =>
        simp only [External.toLpCall] at hcall
        split at hcall
        · rename_i hauth
          obtain rfl := Option.some.inj hcall
          simp only [Machine.step, externalMachine, External.exec, LpToken.machine, require, if_pos hauth]
          cases hexec : w.lp.exec (env, op) <;> rfl
        · cases hcall
  · intro w action w' hnone hexec
    cases external_ok hexec with
    | movedA => rfl
    | movedB => rfl
    | calledLp hauth => simp [External.toLpCall, hauth] at hnone

omit [DecidableEq Address] in
theorem auth_of_mem_lpCalls {actions : List (External Address)}
    {call : LpEnv Address × LpToken.Op Address}
    (hcall : call ∈ actions.filterMap (External.toLpCall contract)) : call.1.auth contract = false := by
  obtain ⟨action, -, haction⟩ := List.mem_filterMap.mp hcall
  cases action with
  | transferA => cases haction
  | transferB => cases haction
  | lpCall env op =>
      simp only [External.toLpCall] at haction
      split at haction
      · rename_i hauth
        obtain rfl := Option.some.inj haction
        exact hauth
      · cases haction

end CoralSwap
