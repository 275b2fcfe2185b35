import CoralSwap.Proof.LpTokenEffects

/-!
# The integrity of the LP supply

Shares should come from nowhere but the admin's mints. Transfers and the calls that move nothing
keep this, and so do burns, except that a burn of a negative amount is a mint nobody signed.
-/

namespace CoralSwap.LpToken

open Host Host.Call

variable {Address : Type} [DecidableEq Address]

def AdminMints (t : LpToken Address) (call : LpEnv Address × Op Address) (dst : Address) : Prop :=
  (∃ amount, call.2 = .mint dst amount) ∧ machine.Accepts t call ∧
    ∃ admin, t.admin = some admin ∧ call.1.auth admin = true

structure SupplySound (t : LpToken Address) (call : LpEnv Address × Op Address) : Prop where
  /-- The supply grows only by a mint of the admin. -/
  supply : t.totalSupply < (machine.step t call).totalSupply → ∃ dst, AdminMints t call dst
  /-- The supply stays within the cap that mints enforce. -/
  cap : (machine.step t call).totalSupply ≤ maxTotalSupply
  /-- A balance grows only by a mint of the admin to it, or by what another balance loses. -/
  balance : ∀ who, t.balance who < (machine.step t call).balance who →
    AdminMints t call who ∨ ∃ other, other ≠ who ∧
      t.balance other - (machine.step t call).balance other =
        (machine.step t call).balance who - t.balance who

/-- A burn of a negative amount that is not rejected. -/
def BurnsNegative (t : LpToken Address) (call : LpEnv Address × Op Address) : Prop :=
  (∃ amount, burnedAmount call.2 = some amount ∧ amount < 0) ∧ machine.Accepts t call

variable {t t' : LpToken Address} {call : LpEnv Address × Op Address}

/-! ### One call -/

theorem balance_moved_increase {src dst who : Address} {amount : ℤ} (hsign : 0 ≤ amount)
    {balance : Address → ℤ} (hgrow : balance who < Token.moved balance src dst amount who) :
    src ≠ who ∧ balance src - Token.moved balance src dst amount src =
      Token.moved balance src dst amount who - balance who := by
  have hself : src ≠ dst := by
    rintro rfl
    simp [Token.moved] at hgrow
  have hsrc : who ≠ src := by
    rintro rfl
    simp only [Token.moved, if_neg hself, if_true] at hgrow
    omega
  have hdst : who = dst := by
    by_contra hdst
    simp [Token.moved, hself, hsrc, hdst] at hgrow
  subst hdst
  refine ⟨hself, ?_⟩
  simp only [Token.moved, if_neg hself, if_neg hsrc, if_true]
  omega

theorem supplySound_of_not_burnsNegative (hcap : t.totalSupply ≤ maxTotalSupply)
    (hcall : ¬BurnsNegative t call) : SupplySound t call := by
  obtain ⟨env, op⟩ := call
  rcases Machine.step_cases (m := machine) t (env, op) with hexec | hstay
  swap
  · exact ⟨by simp [hstay], by rw [hstay]; exact hcap, by simp [hstay]⟩
  have haccepts : machine.Accepts t (env, op) := ⟨_, hexec⟩
  cases effect_of_exec hexec with
  | minted dst amount hop hadmin hcap' hsupply hbalance =>
      have hmints : AdminMints t (env, op) dst := ⟨⟨amount, hop⟩, haccepts, hadmin⟩
      refine ⟨fun _ => ⟨dst, hmints⟩, hcap', ?_⟩
      intro who hgrow
      rw [hbalance] at hgrow
      by_cases hwho : who = dst
      · subst hwho
        exact Or.inl hmints
      · simp [hwho] at hgrow
  | burned src amount hop hfunds hsupply hbalance =>
      have hamount : 0 ≤ amount := by
        by_contra hneg
        exact hcall ⟨⟨amount, hop, by omega⟩, haccepts⟩
      refine ⟨by omega, by omega, ?_⟩
      intro who hgrow
      rw [hbalance] at hgrow
      by_cases hwho : who = src
      · subst hwho
        simp only [Function.update_self] at hgrow
        omega
      · simp [hwho] at hgrow
  | moved src dst amount _ hsign hfunds hsupply hbalance =>
      refine ⟨by omega, by omega, ?_⟩
      intro who hgrow
      rw [hbalance] at hgrow ⊢
      exact Or.inr ⟨src, balance_moved_increase hsign hgrow⟩
  | still _ hstill =>
      obtain ⟨hsupply, hbalance⟩ := hstill
      exact ⟨by omega, by omega, by simp [hbalance]⟩

theorem not_supplySound_of_burnsNegative (hcall : BurnsNegative t call) : ¬SupplySound t call := by
  obtain ⟨env, op⟩ := call
  obtain ⟨⟨amount, hop, hneg⟩, t', hexec⟩ := hcall
  intro hsound
  have hmint : ∀ dst, ¬AdminMints t (env, op) dst := by
    rintro dst ⟨⟨minted, hmint⟩, -⟩
    cases hmint
    simp [burnedAmount] at hop
  have hgrow : t.totalSupply < t'.totalSupply := by
    cases effect_of_exec hexec with
    | minted dst minted hmint =>
        subst hmint
        simp [burnedAmount] at hop
    | burned src burned hburned hfunds hsupply =>
        obtain rfl : burned = amount := Option.some.inj (hburned.symm.trans hop)
        omega
    | moved src dst moved hmoved => cases hmoved.symm.trans hop
    | still hstill => cases hstill.symm.trans hop
  rw [← Machine.step_of_exec_ok (m := machine) hexec] at hgrow
  obtain ⟨dst, hmints⟩ := hsound.supply hgrow
  exact hmint dst hmints

theorem totalSupply_le_of_exec {env : LpEnv Address} {op : Op Address} {admin : Address}
    (hadmin : t.admin = some admin) (hauth : env.auth admin = false)
    (hcall : ¬BurnsNegative t (env, op)) (hexec : exec t (env, op) = .ok t') :
    t'.totalSupply ≤ t.totalSupply := by
  cases effect_of_exec hexec with
  | minted dst amount hop hsigned =>
      obtain ⟨signer, hsigner, hsigned⟩ := hsigned
      obtain rfl : signer = admin := Option.some.inj (hsigner.symm.trans hadmin)
      rw [hauth] at hsigned
      cases hsigned
  | burned src amount hop hfunds hsupply =>
      have hamount : 0 ≤ amount := by
        by_contra hneg
        exact hcall ⟨⟨amount, hop, by omega⟩, t', hexec⟩
      omega
  | moved src dst amount hop hsign hfunds hsupply => exact hsupply.le
  | still hop hstill => exact hstill.1.le

/-! ### Runs -/

theorem totalSupply_le_of_run {admin : Address} (hadmin : t.admin = some admin)
    {calls : List (LpEnv Address × Op Address)} (hauth : ∀ call ∈ calls, call.1.auth admin = false)
    (hcalls : machine.Along (fun t call => ¬BurnsNegative t call) t calls) :
    (machine.run t calls).totalSupply ≤ t.totalSupply := by
  have halong := (Machine.along_of_forall_mem (m := machine) hauth t).and hcalls
  refine (Machine.run_invariant (m := machine)
    (I := fun t' => t'.admin = some admin ∧ t'.totalSupply ≤ t.totalSupply) ?_ ⟨hadmin, le_rfl⟩
    halong).2
  rintro t₁ ⟨env, op⟩ t₂ ⟨hadmin₁, hle⟩ ⟨hauth₁, hburns⟩ hexec
  exact ⟨(frame_of_exec hexec).admin admin hadmin₁ (Bool.eq_false_iff.mp hauth₁),
    (totalSupply_le_of_exec hadmin₁ hauth₁ hburns hexec).trans hle⟩

/-- **Supply integrity.** Along any run of a fresh token, every call does to the supply and the
balances what it should exactly when no negative burn of the run goes through. -/
theorem supplySound_along_iff (admin : Address) (calls : List (LpEnv Address × Op Address)) :
    machine.Along SupplySound (fresh admin) calls ↔
      machine.Along (fun t call => ¬BurnsNegative t call) (fresh admin) calls := by
  constructor
  · exact Machine.Along.mono fun t call hsound hcall => not_supplySound_of_burnsNegative hcall hsound
  · refine Machine.along_of_invariant (I := fun t => t.totalSupply ≤ maxTotalSupply) ?_ ?_ ?_
    · intro t call t' hcap hcall hexec
      have hsound := supplySound_of_not_burnsNegative hcap hcall
      rw [← Machine.step_of_exec_ok (m := machine) hexec]
      exact hsound.cap
    · intro t call hcap hcall
      exact supplySound_of_not_burnsNegative hcap hcall
    · show (0 : ℤ) ≤ maxTotalSupply
      decide

theorem supplySound_fails_on_negative_burn :
    ¬∀ (admin : ℕ) (calls : List (LpEnv ℕ × Op ℕ)), machine.Along SupplySound (fresh admin) calls := by
  intro hsound
  let env : LpEnv ℕ := ⟨0, fun who => who = 1, Crypto.rejecting ℕ⟩
  have hcall := (hsound 0 [(env, .burn 1 (-5))]).1
  obtain ⟨dst, ⟨amount, hmint⟩, -⟩ := hcall.supply (by decide)
  cases hmint

end CoralSwap.LpToken
