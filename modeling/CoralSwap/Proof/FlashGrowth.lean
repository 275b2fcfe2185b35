import CoralSwap.Proof.Solvency

/-!
# What a flash loan leaves in the pair

A loan is repaid when the balances reach the reserves plus the fees, whatever the balances were before
it. The balances grow by the fees if they did not exceed the reserves. Where one did, a receiver who
can repay can also repay less and keep the difference.
-/

namespace CoralSwap

open Host Host.Call

variable {Address : Type} [DecidableEq Address] {contract : Address}

/-! ### The two tokens during a callback -/

namespace External

def transfer (isA : Bool) (src dst : Address) (amount : ℤ) : External Address :=
  if isA then .transferA src dst amount else .transferB src dst amount

/-- The transfer of the side's token that an action asks for. -/
def sideTransfer (isA : Bool) : External Address → Option (Address × Address × ℤ)
  | .transferA src dst amount => if isA then some (src, dst, amount) else none
  | .transferB src dst amount => if isA then none else some (src, dst, amount)
  | .lpCall .. => none

omit [DecidableEq Address] in
theorem sideTransfer_transfer (isA : Bool) (src dst : Address) (amount : ℤ) :
    (transfer isA src dst amount).sideTransfer isA = some (src, dst, amount) ∧
      (transfer isA src dst amount).sideTransfer (!isA) = none := by
  cases isA <;> exact ⟨rfl, rfl⟩

omit [DecidableEq Address] in
theorem sideTransfer_not {isA : Bool} {action : External Address}
    (hside : action.sideTransfer isA ≠ none) : action.sideTransfer (!isA) = none := by
  cases action <;> cases isA <;> simp_all [sideTransfer]

end External

/-- What an action makes of a side's token. -/
def tokenAfter (contract : Address) (isA : Bool) (t : Token Address) (action : External Address) :
    Token Address :=
  match action.sideTransfer isA with
  | some (src, dst, amount) => if src = contract then t else (t.transfer src dst amount).getD t
  | none => t

theorem tokenAfter_of_none {isA : Bool} {t : Token Address} {action : External Address}
    (hnone : action.sideTransfer isA = none) : tokenAfter contract isA t action = t := by
  simp [tokenAfter, hnone]

theorem step_transferA (w : World Address) (src dst : Address) (amount : ℤ) :
    (externalMachine contract).step w (.transferA src dst amount) =
      { w with tokenA :=
          if src = contract then w.tokenA else (w.tokenA.transfer src dst amount).getD w.tokenA } := by
  by_cases hsrc : src = contract
  · simp [Machine.step, externalMachine, External.exec, require, hsrc, trap, bind, Except.bind]
  · cases htransfer : w.tokenA.transfer src dst amount <;>
      simp [Machine.step, externalMachine, External.exec, require, orTrap, trap, hsrc, htransfer, bind,
        Except.bind, pure, Except.pure]

theorem step_transferB (w : World Address) (src dst : Address) (amount : ℤ) :
    (externalMachine contract).step w (.transferB src dst amount) =
      { w with tokenB :=
          if src = contract then w.tokenB else (w.tokenB.transfer src dst amount).getD w.tokenB } := by
  by_cases hsrc : src = contract
  · simp [Machine.step, externalMachine, External.exec, require, hsrc, trap, bind, Except.bind]
  · cases htransfer : w.tokenB.transfer src dst amount <;>
      simp [Machine.step, externalMachine, External.exec, require, orTrap, trap, hsrc, htransfer, bind,
        Except.bind, pure, Except.pure]

theorem token_step_lpCall (isA : Bool) (w : World Address) (env : LpEnv Address)
    (op : LpToken.Op Address) :
    ((externalMachine contract).step w (.lpCall env op)).token isA = w.token isA := by
  rcases Machine.step_cases (m := externalMachine contract) w (.lpCall env op) with hexec | hstay
  · simp only [externalMachine, External.exec, bind_eq_ok, pure_eq_ok] at hexec
    obtain ⟨-, -, lp, -, hresult⟩ := hexec
    rw [externalMachine, ← hresult]
    rfl
  · rw [hstay]

/-- **Step.** The two tokens evolve side by side: neither depends on the other. -/
theorem token_step (isA : Bool) (w : World Address) (action : External Address) :
    ((externalMachine contract).step w action).token isA =
      tokenAfter contract isA (w.token isA) action := by
  cases action with
  | transferA src dst amount =>
      rw [step_transferA]
      cases isA <;> rfl
  | transferB src dst amount =>
      rw [step_transferB]
      cases isA <;> rfl
  | lpCall env op =>
      rw [token_step_lpCall]
      exact (tokenAfter_of_none rfl).symm

theorem token_run (isA : Bool) (w : World Address) (actions : List (External Address)) :
    ((externalMachine contract).run w actions).token isA =
      actions.foldl (tokenAfter contract isA) (w.token isA) := by
  induction actions generalizing w with
  | nil => rfl
  | cons action rest ih => rw [Machine.run_cons, ih, token_step, List.foldl_cons]

/-! ### Repaying less -/

/-- What is left of a callback once it no longer touches the side's token. -/
theorem foldl_without_side (isA : Bool) (actions : List (External Address)) (t u : Token Address) :
    (actions.filter fun action => action.sideTransfer isA = none).foldl (tokenAfter contract isA) t =
        t ∧
      (actions.filter fun action => action.sideTransfer isA = none).foldl
          (tokenAfter contract (!isA)) u = actions.foldl (tokenAfter contract (!isA)) u := by
  induction actions generalizing u with
  | nil => exact ⟨rfl, rfl⟩
  | cons action rest ih =>
      by_cases hside : action.sideTransfer isA = none
      · rw [List.filter_cons_of_pos (by simpa using hside), List.foldl_cons, List.foldl_cons,
          List.foldl_cons, tokenAfter_of_none hside]
        exact ih _
      · rw [List.filter_cons_of_neg (by simpa using hside), List.foldl_cons,
          tokenAfter_of_none (External.sideTransfer_not hside)]
        exact ih u

/-- The last transfer to the pair can be any part of what it was. -/
theorem exists_part {isA : Bool} {t : Token Address} {action : External Address} {target : ℤ}
    (hlow : t.balance contract ≤ target)
    (hhigh : target < (tokenAfter contract isA t action).balance contract) :
    ∃ part : External Address, part.sideTransfer (!isA) = none ∧
      (tokenAfter contract isA t part).balance contract = target := by
  unfold tokenAfter at hhigh
  split at hhigh
  swap
  · omega
  split at hhigh
  · omega
  rename_i src dst amount hside hsrc
  cases htransfer : t.transfer src dst amount with
  | none =>
      rw [htransfer, Option.getD_none] at hhigh
      omega
  | some after =>
      rw [htransfer, Option.getD_some] at hhigh
      obtain ⟨⟨hamount, hfunds, -⟩, hmoved⟩ := Token.transfer_eq_some htransfer
      have hdst : dst = contract := by
        by_contra hdst
        simp only [hmoved, Token.moved, Ne.symm hsrc, Ne.symm hdst, if_false, ite_self] at hhigh
        omega
      subst hdst
      rw [Token.balance_dst_of_transfer htransfer hsrc] at hhigh
      have hbound := after.bounded dst
      rw [Token.balance_dst_of_transfer htransfer hsrc] at hbound
      have hmovable : t.Movable src dst (target - t.balance dst) :=
        ⟨by omega, by omega, fun _ => by omega⟩
      obtain ⟨hpart, hother⟩ :=
        External.sideTransfer_transfer isA src dst (target - t.balance dst)
      refine ⟨.transfer isA src dst (target - t.balance dst), hother, ?_⟩
      simp only [tokenAfter, hpart, if_neg hsrc]
      have hsome : ∃ shortened, t.transfer src dst (target - t.balance dst) = some shortened := by
        simp [Token.transfer, hmovable]
      obtain ⟨shortened, hshortened⟩ := hsome
      rw [hshortened, Option.getD_some, Token.balance_dst_of_transfer hshortened hsrc]
      omega

/-- **Repaying less.** Any balance between the first and the last of a callback is the last of another
one, which does to the other token what the first does. -/
theorem exists_trimmed (isA : Bool) {t : Token Address} {actions : List (External Address)}
    {target : ℤ} (hlow : t.balance contract ≤ target)
    (hhigh : target ≤ (actions.foldl (tokenAfter contract isA) t).balance contract) :
    ∃ trimmed : List (External Address),
      (trimmed.foldl (tokenAfter contract isA) t).balance contract = target ∧
        ∀ u, trimmed.foldl (tokenAfter contract (!isA)) u =
          actions.foldl (tokenAfter contract (!isA)) u := by
  induction actions generalizing t with
  | nil => exact ⟨[], le_antisymm hlow hhigh, fun _ => rfl⟩
  | cons action rest ih =>
      rw [List.foldl_cons] at hhigh
      by_cases hnext : (tokenAfter contract isA t action).balance contract ≤ target
      · obtain ⟨trimmed, hbalance, hother⟩ := ih hnext hhigh
        exact ⟨action :: trimmed, hbalance, fun u => hother _⟩
      · -- the action overshoots: its part that does not, then the rest without this token
        obtain ⟨part, hpart, hbalance⟩ := exists_part hlow (not_le.mp hnext)
        have hside : action.sideTransfer (!isA) = none := by
          refine External.sideTransfer_not fun hnone => ?_
          rw [tokenAfter_of_none hnone] at hnext
          exact hnext hlow
        refine ⟨part :: rest.filter fun action => action.sideTransfer isA = none, ?_, fun u => ?_⟩
        · rw [List.foldl_cons, (foldl_without_side isA rest _ t).1, hbalance]
        · rw [List.foldl_cons, List.foldl_cons, tokenAfter_of_none hpart, tokenAfter_of_none hside]
          exact (foldl_without_side isA rest t u).2

/-! ### When a loan is accepted -/

/-- The rate of the flash fee. -/
def loanFeeBps (w : World Address) : ℕ :=
  (w.pair.feeState.map FeeState.baselineFeeBps).getD flashFeeFloorBps

/-- What a loan checks and does before it calls the receiver. -/
structure LoanGranted (contract : Address) (w : World Address) (receiver : Address)
    (amountA amountB : ℤ) (dataLen : ℕ) (state : PairStorage Address) (feeA feeB : ℤ)
    (lentA lentB : Token Address) : Prop where
  unfrozen : w.pair.frozen = false
  payload : dataLen ≤ maxPayloadSize
  nonneg : 0 ≤ amountA ∧ 0 ≤ amountB
  pairState : w.pair.pairState = some state
  covered : amountA ≤ state.reserveA ∧ amountB ≤ state.reserveB
  product : i128.min ≤ state.reserveA * state.reserveB ∧ state.reserveA * state.reserveB ≤ i128.max
  unlocked : w.pair.locked = false
  feeA : flashFee amountA (loanFeeBps w) = .ok feeA
  feeB : flashFee amountB (loanFeeBps w) = .ok feeB
  lendA : lend w.tokenA contract receiver amountA = .ok lentA
  lendB : lend w.tokenB contract receiver amountB = .ok lentB

/-- The checks of one side after the callback. -/
def SideRepaid (amount reserve fee balance : ℤ) : Prop :=
  0 < amount → (i128.min ≤ reserve + fee ∧ reserve + fee ≤ i128.max) ∧ reserve + fee ≤ balance

structure LoanRepaid (state : PairStorage Address) (amountA amountB feeA feeB balanceA balanceB : ℤ) :
    Prop where
  sideA : SideRepaid amountA state.reserveA feeA balanceA
  sideB : SideRepaid amountB state.reserveB feeB balanceB
  product : i128.min ≤ balanceA * balanceB ∧ balanceA * balanceB ≤ i128.max
  invariant : state.reserveA * state.reserveB ≤ balanceA * balanceB

omit [DecidableEq Address] in
theorem checkRepaid_eq_ok {amount reserve fee balance : ℤ} {u : Unit} :
    checkRepaid amount reserve fee balance = .ok u ↔ SideRepaid amount reserve fee balance := by
  unfold checkRepaid SideRepaid
  by_cases hborrowed : 0 < amount
  · simp [hborrowed, and_assoc]
  · simp [hborrowed]

/-- The world a receiver is called in. -/
def lentWorld (w : World Address) (lentA lentB : Token Address) : World Address :=
  { w with tokenA := lentA, tokenB := lentB, pair := { w.pair with locked := true } }

def settledWorld (state : PairStorage Address) (called : World Address) (contract : Address) :
    World Address :=
  (called.setPairState
    { state with
      reserveA := called.tokenA.balance contract, reserveB := called.tokenB.balance contract
      kLast := called.tokenA.balance contract * called.tokenB.balance contract }).releaseLock

/-- **A loan is accepted** exactly when it is granted, the receiver reports success, and the balances
left repay the loan. -/
theorem flashLoan_eq_ok_iff {env : Env contract} {w w' : World Address} {receiver : Address}
    {amountA amountB : ℤ} {dataLen : ℕ} {callback : Callback Address}
    (hborrowed : ¬(amountA = 0 ∧ amountB = 0)) :
    flashLoan env w receiver amountA amountB dataLen callback = .ok w' ↔
      ∃ state feeA feeB lentA lentB called,
        LoanGranted contract w receiver amountA amountB dataLen state feeA feeB lentA lentB ∧
          called = (externalMachine contract).run (lentWorld w lentA lentB) callback.actions ∧
          callback.succeeds = true ∧
          LoanRepaid state amountA amountB feeA feeB (called.tokenA.balance contract)
            (called.tokenB.balance contract) ∧
          w' = settledWorld state called contract := by
  simp only [flashLoan, executeFlashLoan, if_neg hborrowed, bind_eq_ok, failIf_eq_ok, okOr_eq_ok,
    pure_eq_ok, Word.checkedMul_eq_some, World.ensureNotFrozen_eq_ok, World.getPairState_eq_ok,
    World.acquireLock_eq_ok, checkRepaid_eq_ok, exists_const, and_assoc, exists_and_left,
    exists_eq_left', not_or, not_lt, Bool.not_eq_false]
  constructor
  · rintro ⟨hfrozen, hpayload, hamountA, hamountB, state, hstate, hleA, hleB, hlow, hhigh, hunlocked,
      feeA, hfeeA, feeB, hfeeB, lentA, hlentA, lentB, hlentB, hsucceeds, hrepaidA, hrepaidB, hplow,
      hphigh, hproduct, hresult⟩
    exact ⟨state, feeA, feeB, lentA, lentB,
      ⟨hfrozen, hpayload, ⟨hamountA, hamountB⟩, hstate, ⟨hleA, hleB⟩, ⟨hlow, hhigh⟩, hunlocked, hfeeA,
        hfeeB, hlentA, hlentB⟩,
      _, rfl, hsucceeds, ⟨hrepaidA, hrepaidB, ⟨hplow, hphigh⟩, hproduct⟩, hresult.symm⟩
  · rintro ⟨state, feeA, feeB, lentA, lentB, hgranted, _, rfl, hsucceeds, hrepaid, rfl⟩
    exact ⟨hgranted.unfrozen, hgranted.payload, hgranted.nonneg.1, hgranted.nonneg.2, state,
      hgranted.pairState, hgranted.covered.1, hgranted.covered.2, hgranted.product.1,
      hgranted.product.2, hgranted.unlocked, feeA, hgranted.feeA, feeB, hgranted.feeB, lentA,
      hgranted.lendA, lentB, hgranted.lendB, hsucceeds, hrepaid.sideA, hrepaid.sideB,
      hrepaid.product.1, hrepaid.product.2, hrepaid.invariant, rfl⟩

/-! ### Growth -/

/-- The pair ends with what it held and the fee of each side, which is zero for a side that is not
borrowed. -/
structure LoanGrows (contract : Address) (w w' : World Address) (amountA amountB : ℤ) : Prop where
  sideA : ∀ fee, flashFee amountA (loanFeeBps w) = .ok fee →
    w.tokenA.balance contract + fee ≤ w'.tokenA.balance contract
  sideB : ∀ fee, flashFee amountB (loanFeeBps w) = .ok fee →
    w.tokenB.balance contract + fee ≤ w'.tokenB.balance contract

/-- What the pair holds of a borrowed token is not more than its reserve. -/
structure NoSurplus (contract : Address) (w : World Address) (amountA amountB : ℤ) : Prop where
  sideA : 0 < amountA → w.tokenA.balance contract ≤ w.reserveA
  sideB : 0 < amountB → w.tokenB.balance contract ≤ w.reserveB

section Growth

variable {w w' : World Address} {receiver : Address} {amountA amountB : ℤ}

omit [DecidableEq Address] in
theorem flashFee_nonneg {amount fee : ℤ} {feeBps : ℕ} (hfee : flashFee amount feeBps = .ok fee) :
    0 ≤ fee := by
  unfold flashFee at hfee
  split at hfee
  · simp only [computeFlashFee, bind_eq_ok] at hfee
    obtain ⟨-, -, hfee⟩ := hfee
    split at hfee
    · exact (pure_eq_ok.mp hfee).le
    · simp only [bind_eq_ok, pure_eq_ok] at hfee
      obtain ⟨product, -, rfl⟩ := hfee
      exact zero_le_one.trans (le_max_right _ _)
  · exact (pure_eq_ok.mp hfee).le

theorem flashFee_of_not_borrowed {amount fee : ℤ} {feeBps : ℕ} (hamount : ¬0 < amount)
    (hfee : flashFee amount feeBps = .ok fee) : fee = 0 := by
  rw [flashFee, if_neg hamount] at hfee
  exact (pure_eq_ok.mp hfee).symm

theorem balance_of_lend {t t' : Token Address} {amount : ℤ} (hreceiver : receiver ≠ contract)
    (hamount : 0 < amount) (hlend : lend t contract receiver amount = .ok t') :
    t'.balance contract = t.balance contract - amount := by
  rw [lend, if_pos hamount, orTrap_eq_ok] at hlend
  exact Token.balance_src_of_transfer hlend hreceiver.symm

theorem eq_of_lend {t t' : Token Address} {amount : ℤ} (hamount : ¬0 < amount)
    (hlend : lend t contract receiver amount = .ok t') : t' = t := by
  rw [lend, if_neg hamount] at hlend
  exact (pure_eq_ok.mp hlend).symm

/-- A side that is not borrowed never loses; a borrowed one ends with its reserve and the fee. -/
theorem sideGrows {t lent final : Token Address} {amount reserve fee : ℤ} {feeBps : ℕ}
    (hfee : flashFee amount feeBps = .ok fee)
    (hlend : lend t contract receiver amount = .ok lent)
    (hframe : lent.balance contract ≤ final.balance contract)
    (hrepaid : SideRepaid amount reserve fee (final.balance contract))
    (hsurplus : 0 < amount → t.balance contract ≤ reserve) :
    t.balance contract + fee ≤ final.balance contract := by
  by_cases hamount : 0 < amount
  · have hheld := hsurplus hamount
    have hpaid := (hrepaid hamount).2
    omega
  · rw [flashFee_of_not_borrowed hamount hfee]
    rw [eq_of_lend hamount hlend] at hframe
    omega

theorem loanGrows_of_noSurplus {env : Env contract} {dataLen : ℕ} {callback : Callback Address}
    (hsurplus : NoSurplus contract w amountA amountB)
    (hloan : flashLoan env w receiver amountA amountB dataLen callback = .ok w') :
    LoanGrows contract w w' amountA amountB := by
  by_cases hborrowed : amountA = 0 ∧ amountB = 0
  · obtain ⟨rfl, rfl⟩ := hborrowed
    obtain rfl : w' = w := by
      simp only [flashLoan, executeFlashLoan, bind_eq_ok, and_self, if_true, pure_eq_ok] at hloan
      obtain ⟨-, -, -, -, -, -, _, -, hresult⟩ := hloan
      exact hresult.symm
    constructor <;>
    · intro fee hfee
      rw [flashFee_of_not_borrowed (lt_irrefl _) hfee, add_zero]
  obtain ⟨state, feeA, feeB, lentA, lentB, called, hgranted, hcalled, -, hrepaid, rfl⟩ :=
    (flashLoan_eq_ok_iff hborrowed).mp hloan
  have hframe := outsideFrame_of_run contract (lentWorld w lentA lentB) callback.actions
  rw [← hcalled] at hframe
  constructor
  · intro fee hfee
    obtain rfl : fee = feeA := Except.ok.inj (hfee.symm.trans hgranted.feeA)
    refine sideGrows hfee hgranted.lendA hframe.balanceA hrepaid.sideA fun hamount => ?_
    rw [← World.reserveA_of_pairState hgranted.pairState]
    exact hsurplus.sideA hamount
  · intro fee hfee
    obtain rfl : fee = feeB := Except.ok.inj (hfee.symm.trans hgranted.feeB)
    refine sideGrows hfee hgranted.lendB hframe.balanceB hrepaid.sideB fun hamount => ?_
    rw [← World.reserveB_of_pairState hgranted.pairState]
    exact hsurplus.sideB hamount

/-- Where a side holds more than its reserve, the least balance that repays it is below what the side
held and the fee. -/
theorem exists_short_balance {held amount reserve fee final otherReserve otherFinal : ℤ}
    (hamount : 0 < amount) (hfee : 0 ≤ fee) (hcovered : amount ≤ reserve) (hsurplus : reserve < held)
    (hstart : held - amount ≤ final) (hrepaid : reserve + fee ≤ final)
    (hother : otherReserve ≤ otherFinal) (hnonneg : 0 ≤ otherFinal)
    (hproduct : final * otherFinal ≤ i128.max) :
    ∃ target, held - amount ≤ target ∧ target ≤ final ∧ reserve + fee ≤ target ∧
      target < held + fee ∧ (i128.min ≤ target * otherFinal ∧ target * otherFinal ≤ i128.max) ∧
      reserve * otherReserve ≤ target * otherFinal := by
  have hlow : reserve + fee ≤ max (held - amount) (reserve + fee) := le_max_right _ _
  have hhigh : max (held - amount) (reserve + fee) ≤ final := max_le hstart hrepaid
  refine ⟨max (held - amount) (reserve + fee), le_max_left _ _, hhigh, hlow, ?_, ⟨?_, ?_⟩, ?_⟩
  · exact max_lt (by omega) (by omega)
  · exact le_trans (by decide) (mul_nonneg (by omega) hnonneg)
  · exact (mul_le_mul_of_nonneg_right hhigh hnonneg).trans hproduct
  · calc
      reserve * otherReserve ≤ reserve * otherFinal := mul_le_mul_of_nonneg_left hother (by omega)
      _ ≤ max (held - amount) (reserve + fee) * otherFinal :=
        mul_le_mul_of_nonneg_right (by omega) hnonneg

/-- What the other side of a loan ends with, in a solvent pair. -/
theorem reserve_le_final {t lent final : Token Address} {amount reserve fee : ℤ} {feeBps : ℕ}
    (hsolvent : reserve ≤ t.balance contract) (hfee : flashFee amount feeBps = .ok fee)
    (hlend : lend t contract receiver amount = .ok lent)
    (hframe : lent.balance contract ≤ final.balance contract)
    (hrepaid : SideRepaid amount reserve fee (final.balance contract)) :
    reserve ≤ final.balance contract := by
  have hnonneg := flashFee_nonneg hfee
  by_cases hamount : 0 < amount
  · have hpaid := (hrepaid hamount).2
    omega
  · rw [eq_of_lend hamount hlend] at hframe
    omega

/-- A loan never lowers a reserve of a solvent pair. -/
theorem reserve_le_of_flashLoan {env : Env contract} {dataLen : ℕ} {callback : Callback Address}
    (hsolvent : Solvent contract w)
    (hloan : flashLoan env w receiver amountA amountB dataLen callback = .ok w') (isA : Bool) :
    w.reserve isA ≤ w'.reserve isA := by
  by_cases hborrowed : amountA = 0 ∧ amountB = 0
  · obtain ⟨rfl, rfl⟩ := hborrowed
    simp only [flashLoan, executeFlashLoan, bind_eq_ok, and_self, if_true, pure_eq_ok] at hloan
    obtain ⟨-, -, -, -, -, -, -, -, rfl⟩ := hloan
    exact le_rfl
  obtain ⟨state, feeA, feeB, lentA, lentB, called, hgranted, rfl, -, hrepaid, rfl⟩ :=
    (flashLoan_eq_ok_iff hborrowed).mp hloan
  have hframe := outsideFrame_of_run contract (lentWorld w lentA lentB) callback.actions
  obtain ⟨hleA, hleB⟩ := (solvent_iff_of_pairState hgranted.pairState).mp hsolvent
  rw [World.reserve_of_pairState isA hgranted.pairState]
  cases isA
  · exact reserve_le_final hleB hgranted.feeB hgranted.lendB hframe.balanceB hrepaid.sideB
  · exact reserve_le_final hleA hgranted.feeA hgranted.lendA hframe.balanceA hrepaid.sideA

/-- A callback that leaves enough of one token can leave any smaller amount the pair still held of it,
and the same of the other token. -/
theorem exists_trimmed_run (isA : Bool) (lent : World Address) {actions : List (External Address)}
    {target : ℤ} (hlow : (lent.token isA).balance contract ≤ target)
    (hhigh : target ≤ (((externalMachine contract).run lent actions).token isA).balance contract) :
    ∃ trimmed, (((externalMachine contract).run lent trimmed).token isA).balance contract = target ∧
      ((externalMachine contract).run lent trimmed).token (!isA) =
        ((externalMachine contract).run lent actions).token (!isA) := by
  rw [token_run] at hhigh
  obtain ⟨trimmed, htrimmed, hrest⟩ := exists_trimmed isA hlow hhigh
  refine ⟨trimmed, ?_, ?_⟩
  · rw [token_run]
    exact htrimmed
  · rw [token_run, token_run]
    exact hrest _

/-- A receiver that can repay a loan of a token the pair holds a surplus of can keep part of it. -/
theorem exists_not_grows_of_surplusA {env : Env contract} {dataLen : ℕ} {callback : Callback Address}
    (hreceiver : receiver ≠ contract) (hsolvent : Solvent contract w) (hamount : 0 < amountA)
    (hsurplus : w.reserveA < w.tokenA.balance contract)
    (hloan : flashLoan env w receiver amountA amountB dataLen callback = .ok w') :
    ∃ callback' w'', flashLoan env w receiver amountA amountB dataLen callback' = .ok w'' ∧
      ¬LoanGrows contract w w'' amountA amountB := by
  have hborrowed : ¬(amountA = 0 ∧ amountB = 0) := fun hnone => hamount.ne' hnone.1
  obtain ⟨state, feeA, feeB, lentA, lentB, called, hgranted, rfl, hsucceeds, hrepaid, -⟩ :=
    (flashLoan_eq_ok_iff hborrowed).mp hloan
  have hframe := outsideFrame_of_run contract (lentWorld w lentA lentB) callback.actions
  have hstart := balance_of_lend hreceiver hamount hgranted.lendA
  obtain ⟨-, hsolventB⟩ := (solvent_iff_of_pairState hgranted.pairState).mp hsolvent
  rw [World.reserveA_of_pairState hgranted.pairState] at hsurplus
  have hother := reserve_le_final hsolventB hgranted.feeB hgranted.lendB hframe.balanceB hrepaid.sideB
  obtain ⟨target, hlow, hhigh, htarget, hshort, hrange, hinvariant⟩ :=
    exists_short_balance hamount (flashFee_nonneg hgranted.feeA) hgranted.covered.1 hsurplus
      (hstart.symm.le.trans hframe.balanceA) (hrepaid.sideA hamount).2 hother (Token.nonneg _ _)
      hrepaid.product.2
  obtain ⟨trimmed, hfinalA, hfinalB⟩ :=
    exists_trimmed_run true (lentWorld w lentA lentB) (hstart.le.trans hlow) hhigh
  simp only [World.token, if_true, Bool.not_true, Bool.false_eq_true, if_false] at hfinalA hfinalB
  refine ⟨⟨trimmed, true⟩, _, (flashLoan_eq_ok_iff hborrowed).mpr
    ⟨state, feeA, feeB, lentA, lentB, _, hgranted, rfl, rfl, ?_, rfl⟩, fun hgrows => ?_⟩
  · rw [hfinalA, hfinalB]
    exact ⟨fun _ => ⟨(hrepaid.sideA hamount).1, htarget⟩, hrepaid.sideB, hrange, hinvariant⟩
  · exact absurd ((hgrows.sideA feeA hgranted.feeA).trans hfinalA.le) (not_le.mpr hshort)

theorem exists_not_grows_of_surplusB {env : Env contract} {dataLen : ℕ} {callback : Callback Address}
    (hreceiver : receiver ≠ contract) (hsolvent : Solvent contract w) (hamount : 0 < amountB)
    (hsurplus : w.reserveB < w.tokenB.balance contract)
    (hloan : flashLoan env w receiver amountA amountB dataLen callback = .ok w') :
    ∃ callback' w'', flashLoan env w receiver amountA amountB dataLen callback' = .ok w'' ∧
      ¬LoanGrows contract w w'' amountA amountB := by
  have hborrowed : ¬(amountA = 0 ∧ amountB = 0) := fun hnone => hamount.ne' hnone.2
  obtain ⟨state, feeA, feeB, lentA, lentB, called, hgranted, rfl, hsucceeds, hrepaid, -⟩ :=
    (flashLoan_eq_ok_iff hborrowed).mp hloan
  have hframe := outsideFrame_of_run contract (lentWorld w lentA lentB) callback.actions
  have hstart := balance_of_lend hreceiver hamount hgranted.lendB
  obtain ⟨hsolventA, -⟩ := (solvent_iff_of_pairState hgranted.pairState).mp hsolvent
  rw [World.reserveB_of_pairState hgranted.pairState] at hsurplus
  have hother := reserve_le_final hsolventA hgranted.feeA hgranted.lendA hframe.balanceA hrepaid.sideA
  obtain ⟨target, hlow, hhigh, htarget, hshort, hrange, hinvariant⟩ :=
    exists_short_balance hamount (flashFee_nonneg hgranted.feeB) hgranted.covered.2 hsurplus
      (hstart.symm.le.trans hframe.balanceB) (hrepaid.sideB hamount).2 hother (Token.nonneg _ _)
      (by rw [mul_comm]; exact hrepaid.product.2)
  obtain ⟨trimmed, hfinalB, hfinalA⟩ :=
    exists_trimmed_run false (lentWorld w lentA lentB) (hstart.le.trans hlow) hhigh
  simp only [World.token, if_true, Bool.not_false, Bool.false_eq_true, if_false] at hfinalA hfinalB
  refine ⟨⟨trimmed, true⟩, _, (flashLoan_eq_ok_iff hborrowed).mpr
    ⟨state, feeA, feeB, lentA, lentB, _, hgranted, rfl, rfl, ?_, rfl⟩, fun hgrows => ?_⟩
  · rw [hfinalA, hfinalB]
    rw [mul_comm] at hrange hinvariant
    rw [mul_comm target] at hinvariant
    exact ⟨hrepaid.sideA, fun _ => ⟨(hrepaid.sideB hamount).1, htarget⟩, hrange, hinvariant⟩
  · exact absurd ((hgrows.sideB feeB hgranted.feeB).trans hfinalB.le) (not_le.mpr hshort)

/-- **Flash loans.** Whatever the receiver does, an accepted loan grows the pair's balances by the fees
if the pair holds no surplus of a borrowed token. In a solvent pair, for a loan that some receiver
behaviour can repay, that is also necessary. -/
theorem loans_grow :
    (∀ (env : Env contract) (w w' : World Address) (receiver : Address) (amountA amountB : ℤ)
        (dataLen : ℕ) (callback : Callback Address), NoSurplus contract w amountA amountB →
        flashLoan env w receiver amountA amountB dataLen callback = .ok w' →
          LoanGrows contract w w' amountA amountB) ∧
      ∀ (env : Env contract) (w w' : World Address) (receiver : Address) (amountA amountB : ℤ)
        (dataLen : ℕ) (callback : Callback Address), receiver ≠ contract → Solvent contract w →
        flashLoan env w receiver amountA amountB dataLen callback = .ok w' →
        (∀ callback' w'', flashLoan env w receiver amountA amountB dataLen callback' = .ok w'' →
          LoanGrows contract w w'' amountA amountB) → NoSurplus contract w amountA amountB := by
  refine ⟨fun _ _ _ _ _ _ _ _ hsurplus hloan => loanGrows_of_noSurplus hsurplus hloan, ?_⟩
  intro env w w' receiver amountA amountB dataLen callback hreceiver hsolvent hloan hall
  constructor
  · intro hamount
    by_contra hsurplus
    obtain ⟨callback', w'', hloan', hshort⟩ :=
      exists_not_grows_of_surplusA hreceiver hsolvent hamount (not_le.mp hsurplus) hloan
    exact hshort (hall callback' w'' hloan')
  · intro hamount
    by_contra hsurplus
    obtain ⟨callback', w'', hloan', hshort⟩ :=
      exists_not_grows_of_surplusB hreceiver hsolvent hamount (not_le.mp hsurplus) hloan
    exact hshort (hall callback' w'' hloan')

end Growth

/-- A pool of 20000 and 20000 that someone has sent another 100 of token A. -/
def donatedPool : World ℕ :=
  (pairMachine 0).run
    (World.deployed 0 (.issued 1 1000000 (by decide)) (.issued 1 1000000 (by decide)))
    (openingCalls (Env.quiet 0 1 1 none) 9 10 11 12 1 20000 20000 ++
      [(Env.quiet 0 1 1 none, .external (.transferA 1 0 100))])

theorem donatedPool_reachable : Reachable 0 donatedPool := ⟨_, _, _, rfl⟩

def repaying (amount : ℤ) : Callback ℕ := ⟨[.transferA 1 0 amount], true⟩

theorem exists_donatedLoan (amount balance : ℤ)
    (hloan : (fun w => w.tokenA.balance 0) <$>
      flashLoan (Env.quiet 0 1 1 none) donatedPool 1 1000 0 0 (repaying amount) = .ok balance) :
    ∃ w', flashLoan (Env.quiet 0 1 1 none) donatedPool 1 1000 0 0 (repaying amount) = .ok w' ∧
      w'.tokenA.balance 0 = balance :=
  exists_ok_of_map_eq hloan

theorem loans_grow_opened :
    (∃ w', flashLoan (Env.quiet 0 1 1 none) (openedPool (Env.quiet 0 1 1 none) 20000 20000) 1 1000 0 0
        (repaying 1003) = .ok w' ∧
      LoanGrows 0 (openedPool (Env.quiet 0 1 1 none) 20000 20000) w' 1000 0) ∧
    ¬∀ callback w', flashLoan (Env.quiet 0 1 1 none) donatedPool 1 1000 0 0 callback = .ok w' →
      LoanGrows 0 donatedPool w' 1000 0 := by
  constructor
  · obtain ⟨w', hloan, -⟩ := exists_ok_of_map_eq (f := fun w : World ℕ => w.tokenA.balance 0)
      (b := 20003) (show _ <$> flashLoan (Env.quiet 0 1 1 none)
        (openedPool (Env.quiet 0 1 1 none) 20000 20000) 1 1000 0 0 (repaying 1003) = .ok 20003 by
          decide +kernel)
    exact ⟨w', hloan, loans_grow.1 _ _ _ _ _ _ _ _
      ⟨fun _ => by decide +kernel, fun hnone => absurd hnone (by decide)⟩ hloan⟩
  · intro hall
    obtain ⟨w', hloan, -⟩ := exists_donatedLoan 1003 20103 (by decide +kernel)
    have hsurplus := loans_grow.2 _ _ _ _ _ _ _ _ (by decide)
      ⟨by decide +kernel, by decide +kernel⟩ hloan hall
    exact absurd (hsurplus.sideA (by decide)) (by decide +kernel)

/-- The pool holds 20100 of token A; a loan of 1000 with a fee of 3 is repaid with 903 and leaves
20003. -/
theorem loans_grow_fails_with_surplus :
    ¬∀ (env : Env (0 : ℕ)) (w w' : World ℕ) (receiver : ℕ) (amountA amountB : ℤ) (dataLen : ℕ)
      (callback : Callback ℕ), Reachable 0 w →
      flashLoan env w receiver amountA amountB dataLen callback = .ok w' →
        LoanGrows 0 w w' amountA amountB := by
  intro hlaw
  obtain ⟨w', hloan, hbalance⟩ := exists_donatedLoan 903 20003 (by decide +kernel)
  have hgrows := hlaw _ _ _ _ _ _ _ _ donatedPool_reachable hloan
  have hheld : donatedPool.tokenA.balance 0 = 20100 := by decide +kernel
  have hkept := hgrows.sideA 3 (by decide +kernel)
  omega

end CoralSwap
