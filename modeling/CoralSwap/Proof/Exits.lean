import CoralSwap.Proof.LpHolders
import CoralSwap.Proof.QuotedSwaps
import CoralSwap.Proof.RoundTrip

/-!
# Leaving the pool

A user who stages freshly minted shares and burns them is refused for the dust floor, or where the
payout does not fit. The other checks of the exit never fire after a mint.
-/

namespace CoralSwap

open Host Host.Call

variable {Address : Type} [DecidableEq Address] {contract : Address}

/-! ### The exit -/

/-- Freezing and unfreezing the pair, in any number of calls. -/
def refreeze (w : World Address) (freezes : List (Env contract × Bool)) : World Address :=
  (pairMachine contract).run w (freezes.map fun call => (call.1, .setFrozen call.2))

/-- A deposit of `a` and `b` by `payer`, minted to `user`. -/
def depositAndMint (env : Env contract) (w : World Address) (payer user : Address) (a b : ℤ) :
    Call PairError (World Address × ℤ) := do
  let sentA ← External.exec contract w (.transferA payer contract a)
  let sentB ← External.exec contract sentA (.transferB payer contract b)
  mint env sentB user

/-- Staging `liquidity` and burning it. The pair may be frozen before either call. -/
def leave (envStage envBurn : Env contract) (w : World Address) (user : Address) (liquidity : ℤ)
    (first second : List (Env contract × Bool)) : Call PairError (World Address × ℤ × ℤ) := do
  let staged ← depositLp envStage (refreeze w first) user liquidity
  burn envBurn (refreeze staged second) user

def exitPayout (w : World Address) (liquidity : ℤ) (isA : Bool) : ℤ :=
  Shares.redeemed liquidity (w.reserve isA) (w.lp.totalSupply - minimumLiquidity)

/-- Each payout and what it leaves keep to the dust floor, and the arithmetic of the payout fits. -/
structure ExitGranted (w : World Address) (user : Address) (liquidity : ℤ) : Prop where
  floor : ∀ isA, minimumReserve ≤ exitPayout w liquidity isA
  rest : ∀ isA, exitPayout w liquidity isA = w.reserve isA ∨
    minimumReserve ≤ w.reserve isA - exitPayout w liquidity isA
  fits : ∀ isA, liquidity * w.reserve isA ≤ i128.max
  room : ∀ isA, (w.token isA).balance user + exitPayout w liquidity isA ≤ i128.max

theorem refreeze_eq (w : World Address) (freezes : List (Env contract × Bool)) :
    ∃ frozen, refreeze w freezes = { w with pair := { w.pair with frozen } } := by
  have hcalls : ∀ call ∈ freezes.map (fun call => ((call.1, .setFrozen call.2) : PairCall contract)),
      ∃ frozen, call.2 = .setFrozen frozen := by
    intro call hcall
    obtain ⟨⟨env, frozen⟩, -, rfl⟩ := List.mem_map.mp hcall
    exact ⟨frozen, rfl⟩
  refine Machine.run_invariant (m := pairMachine contract)
    (I := fun w' => ∃ frozen, w' = { w with pair := { w.pair with frozen } }) ?_ ⟨w.pair.frozen, rfl⟩
    (Machine.along_of_forall_mem (m := pairMachine contract) hcalls w)
  rintro _ ⟨env, op⟩ w' ⟨_, rfl⟩ ⟨frozen, rfl⟩ hexec
  exact ⟨frozen, setFrozen_ok hexec⟩

/-! ### Staging -/

/-- A world in which `user` can stage `liquidity` shares. -/
structure CanStage (contract : Address) (w : World Address) (user : Address) (liquidity : ℤ) : Prop where
  unlocked : w.pair.locked = false
  initialized : ∃ state, w.pair.pairState = some state
  unpaused : w.pair.lpTokenPaused = false
  lp : LpSound contract w
  capped : w.lp.totalSupply ≤ LpToken.maxTotalSupply
  positive : 0 < liquidity
  held : liquidity ≤ w.lp.balance user
  pending : w.pair.pendingLp user = 0
  staged : w.pair.pendingLpTotal ≤ w.lp.balance contract
  staged_nonneg : 0 ≤ w.pair.pendingLpTotal

section Stage

variable {env : Env contract} {w w' : World Address} {user : Address} {liquidity : ℤ}

theorem fits_of_supply {value : ℤ} (hnonneg : 0 ≤ value) (hle : value ≤ LpToken.maxTotalSupply) :
    Fits value :=
  fits_of_le hnonneg hle (by decide)

theorem lpTransfer_failsWith {t : LpToken Address} {lpEnv : LpEnv Address} {src dst : Address}
    {amount : ℤ} (hbacked : t.Backed) (hcapped : t.totalSupply ≤ LpToken.maxTotalSupply)
    (hunpaused : t.paused = false) (hauth : lpEnv.auth src = true) (hne : src ≠ dst)
    (hpositive : 0 < amount) (hfunds : amount ≤ t.balance src) :
    FailsWith (fun _ => False) (LpToken.transfer lpEnv t src dst amount) := by
  have hsum := hbacked.add_balance_le hne
  have hsrc := hbacked.nonneg src
  have hdst := hbacked.nonneg dst
  unfold LpToken.transfer LpToken.transferInternal
  refine .bind (.failIf fun hpaused => by simp [hunpaused] at hpaused) fun _ _ => ?_
  refine .bind (.require fun hnone => hnone hauth) fun _ _ => ?_
  refine .bind (.failIf fun hneg => by omega) fun _ _ => ?_
  rw [if_neg (by omega)]
  refine .bind (.failIf fun hshort => by omega) fun _ _ => ?_
  refine .bind (.orTrap fun hnone => ?_) fun rest hrest => ?_
  · exact not_fits_of_checked hnone (fits_of_supply (by omega) (by omega))
  obtain ⟨-, rfl⟩ := Word.checkedSub_eq_some.mp (orTrap_eq_ok.mp hrest)
  refine .bind (.okOr fun hnone => ?_) fun _ _ => .ret _
  refine not_fits_of_checked hnone ?_
  show Fits (Function.update t.balance src (t.balance src - amount) dst + amount)
  rw [Function.update_of_ne hne.symm]
  exact fits_of_supply (by omega) (by omega)

theorem depositLp_failsWith (hstage : CanStage contract w user liquidity)
    (hauth : env.auth user = true) : FailsWith (fun _ => False) (depositLp env w user liquidity) := by
  have hne := Env.ne_contract_of_auth hauth
  have hsum := hstage.lp.backed.add_balance_le hne
  have hstaged := hstage.staged
  have hnonneg := hstage.staged_nonneg
  have hheld := hstage.held
  have hpositive := hstage.positive
  have hcapped := hstage.capped
  obtain ⟨state, hstate⟩ := hstage.initialized
  unfold depositLp
  refine .bind (.require fun hnone => hnone hauth) fun _ _ => .bind ?_ fun held hheld => ?_
  · unfold World.acquireLock
    exact .bind (.failIf fun hlocked => by simp [hstage.unlocked] at hlocked) fun _ _ => .ret _
  obtain ⟨-, rfl⟩ := World.acquireLock_eq_ok.mp hheld
  refine .bind (by simp [World.getPairState, hstate, okOr, FailsWith]) fun _ _ => ?_
  refine .bind (.failIf fun hpaused => by simp [hstage.unpaused] at hpaused) fun _ _ => ?_
  refine .bind (.failIf fun hinvalid => hinvalid.elim (by omega) hne) fun _ _ => ?_
  refine .bind (.nested fun hfails => ?_) fun lp _ => ?_
  · have hlpAuth : env.lpEnv.auth user = true := by simp [Env.lpEnv, hauth]
    obtain ⟨lp, hlp⟩ := (lpTransfer_failsWith hstage.lp.backed hcapped
      (hstage.lp.paused.trans hstage.unpaused) hlpAuth hne hpositive hstage.held).returns
    exact hfails lp hlp
  refine .bind (.okOr fun hnone => ?_) fun pending _ => .bind (.okOr fun hnone => ?_) fun _ _ => .ret _
  · refine not_fits_of_checked hnone ?_
    show Fits (w.pair.pendingLp user + liquidity)
    rw [hstage.pending]
    exact fits_of_supply (by omega) (by omega)
  · refine not_fits_of_checked hnone ?_
    show Fits (w.pair.pendingLpTotal + liquidity)
    exact fits_of_supply (by omega) (by omega)

end Stage

/-! ### Burning -/

/-- A world in which `user` has staged `liquidity` shares of a pool that holds its reserves. -/
structure CanBurn (contract : Address) (w : World Address) (user : Address) (liquidity : ℤ) : Prop where
  initialized : ∃ state, w.pair.pairState = some state
  unpaused : w.pair.lpTokenPaused = false
  lp : LpSound contract w
  capped : w.lp.totalSupply ≤ LpToken.maxTotalSupply
  burnable : minimumLiquidity < w.lp.totalSupply
  positive : 0 < liquidity
  pending : w.pair.pendingLp user = liquidity
  pendingTotal : liquidity ≤ w.pair.pendingLpTotal
  staged : w.pair.pendingLpTotal ≤ w.lp.balance contract
  balanced : Balanced contract w
  product : w.reserveA * w.reserveB ≤ i128.max

section Burn

variable {env : Env contract} {w w' : World Address} {user : Address} {liquidity : ℤ}

theorem lpBurn_failsWith {t : LpToken Address} {lpEnv : LpEnv Address} {src : Address} {amount : ℤ}
    (hbacked : t.Backed) (hcapped : t.totalSupply ≤ LpToken.maxTotalSupply)
    (hunpaused : t.paused = false) (hauth : lpEnv.auth src = true) (hpositive : 0 < amount)
    (hfunds : amount ≤ t.balance src) :
    FailsWith (fun _ => False) (LpToken.burn lpEnv t src amount) := by
  have hle := hbacked.balance_le src
  unfold LpToken.burn LpToken.debitSupply
  refine .bind (.failIf fun hpaused => by simp [hunpaused] at hpaused) fun _ _ => ?_
  refine .bind (.require fun hnone => hnone hauth) fun _ _ => ?_
  refine .bind (.failIf fun hshort => by omega) fun _ _ => ?_
  refine .bind (.orTrap fun hnone => ?_) fun _ _ => .bind (.okOr fun hnone => ?_) fun _ _ => .ret _
  · exact not_fits_of_checked hnone (fits_of_supply (by omega) (by omega))
  · exact not_fits_of_checked hnone (fits_of_supply (by omega) (by omega))

theorem share_failsWith {P : Fault PairError → Prop} {amount part whole : ℤ} (hamount : 0 ≤ amount)
    (hpart : 0 ≤ part) (hwhole : 0 < whole) (hfits : amount * part ≤ i128.max) :
    FailsWith P (share amount part whole) := by
  have hproduct := mul_nonneg hamount hpart
  have hquotient : i128.checkedDiv (amount * part) whole = some ((amount * part).tdiv whole) :=
    Word.checkedDiv_eq_some.mpr ⟨hwhole.ne', fits_of_le (Int.tdiv_nonneg hproduct hwhole.le)
      (Int.tdiv_le_self whole hproduct) hfits, rfl⟩
  unfold share
  refine .checked (fun hover => absurd (fits_of_le hproduct le_rfl hfits) hover) fun _ => ?_
  exact .okOr fun hnone => by simp [hquotient] at hnone

theorem burnAmounts_ok {lpAmount reserveA reserveB supply amountA amountB : ℤ}
    (hburn : burnAmounts lpAmount reserveA reserveB supply = .ok (amountA, amountB)) :
    lpAmount * reserveA ≤ i128.max ∧ lpAmount * reserveB ≤ i128.max ∧
      amountA = Shares.redeemed lpAmount reserveA supply ∧
      amountB = Shares.redeemed lpAmount reserveB supply := by
  simp only [burnAmounts, bind_eq_ok, share_eq_ok, pure_eq_ok, and_assoc, exists_and_left,
    exists_eq_left'] at hburn
  obtain ⟨-, hfitsA, -, -, -, -, hfitsB, -, -, -, hresult⟩ := hburn
  cases hresult
  exact ⟨hfitsA, hfitsB, rfl, rfl⟩

/-- One side of an exit: the payout from a reserve the pair holds. -/
structure SideGranted (contract : Address) (t : Token Address) (user : Address)
    (reserve liquidity payout : ℤ) : Prop where
  floor : minimumReserve ≤ payout
  rest : payout = reserve ∨ minimumReserve ≤ reserve - payout
  reserve_le : reserve ≤ i128.max
  fits : liquidity * reserve ≤ i128.max
  movable : t.Movable contract user payout

omit [DecidableEq Address] in
theorem SideGranted.payout_le {t : Token Address} {reserve payout : ℤ}
    (hside : SideGranted contract t user reserve liquidity payout) :
    0 < payout ∧ payout ≤ reserve := by
  have hfloor := hside.floor
  have hrest := hside.rest
  unfold minimumReserve at *
  omega

omit [DecidableEq Address] in
theorem sideGranted_of_exitGranted {state : PairStorage Address}
    (hready : CanBurn contract w user liquidity) (hstate : w.pair.pairState = some state)
    (hgranted : ExitGranted w user liquidity) (isA : Bool) :
    SideGranted contract (w.token isA) user (state.reserve isA) liquidity
      (Shares.redeemed liquidity (state.reserve isA) (w.lp.totalSupply - minimumLiquidity)) := by
  have hbalance := hready.balanced isA
  have hbound := (w.token isA).bounded contract
  obtain ⟨hfloor, hrest, hfits, hroom⟩ := hgranted
  have hfloor := hfloor isA
  have hrest := hrest isA
  have hfits := hfits isA
  have hroom := hroom isA
  unfold exitPayout at *
  rw [World.reserve_of_pairState isA hstate] at *
  unfold minimumReserve at *
  exact ⟨hfloor, hrest, by omega, hfits, by omega, by omega, fun _ => hroom⟩

theorem transfer_failsWith {P : Fault PairError → Prop} {t : Token Address} {dst : Address}
    {amount : ℤ} (hmovable : t.Movable contract dst amount) :
    FailsWith P (orTrap (t.transfer contract dst amount)) :=
  .orTrap fun hnone => by simp [Token.transfer, hmovable] at hnone

omit [DecidableEq Address] in
theorem redeems_staged {burnLp : ℤ} (hready : CanBurn contract w user liquidity)
    (hredeems : Redeems w contract user burnLp) : burnLp = liquidity := by
  have hpositive := hready.positive
  rcases hredeems with ⟨-, hstage⟩ | ⟨hnone, -⟩
  · exact hstage.trans hready.pending
  · exact absurd hnone (by rw [hready.pending]; omega)

/-- What is owed to a user and in total is cleared without underflow. -/
theorem clearPending_failsWith (hready : CanBurn contract w user liquidity) :
    FailsWith (fun _ => False) (clearPending w user) := by
  have hpositive := hready.positive
  have htotal := hready.pendingTotal
  have hbalance := hready.lp.backed.balance_le contract
  have hstaged := hready.staged
  have hcapped := hready.capped
  unfold clearPending
  dsimp only
  rw [hready.pending, if_pos hpositive]
  refine .bind (.orTrap fun hnone => ?_) fun _ _ => .ret _
  exact not_fits_of_checked hnone (fits_of_supply (by omega) (by omega))

theorem burn_failsWith (hready : CanBurn contract w user liquidity)
    (hunlocked : w.pair.locked = false) (hauth : env.auth user = true)
    (hgranted : ExitGranted w user liquidity) :
    FailsWith (fun _ => False) (burn env w user) := by
  have hseed : (0 : ℤ) < minimumLiquidity := by decide
  unfold burn
  refine .bind (.require fun hnone => hnone hauth) fun _ _ => .bind ?_ fun held hheld => ?_
  · unfold World.acquireLock
    exact .bind (.failIf fun hlocked => by simp [hunlocked] at hlocked) fun _ _ => .ret _
  replace hready : CanBurn contract held user liquidity := by
    obtain ⟨-, rfl⟩ := World.acquireLock_eq_ok.mp hheld
    exact { hready with lp := hready.lp.of_eq rfl rfl, balanced := hready.balanced }
  replace hgranted : ExitGranted held user liquidity := by
    obtain ⟨-, rfl⟩ := World.acquireLock_eq_ok.mp hheld
    exact ⟨hgranted.floor, hgranted.rest, hgranted.fits, hgranted.room⟩
  obtain ⟨state, hstate⟩ := hready.initialized
  have hsideA := sideGranted_of_exitGranted hready hstate hgranted true
  have hsideB := sideGranted_of_exitGranted hready hstate hgranted false
  have hproduct := hready.product
  rw [World.reserveA_of_pairState hstate, World.reserveB_of_pairState hstate] at hproduct
  have hburnable := hready.burnable
  have hpositive := hready.positive
  have hcapped := hready.capped
  refine .bind (by simp [World.getPairState, hstate, okOr, FailsWith]) fun pair hpair => ?_
  obtain rfl : state = pair :=
    Option.some.inj (hstate.symm.trans (World.getPairState_eq_ok.mp hpair))
  refine .bind (.failIf fun hpaused => by simp [hready.unpaused] at hpaused) fun _ _ => ?_
  -- the supply that can be burned
  refine .bind (.failIf fun hzero => by omega) fun _ _ => ?_
  refine .checked (fun hover => hover (fits_of_supply (by omega) (by omega))) fun _ => ?_
  refine .bind (.failIf fun hzero => by omega) fun _ _ => .bind ?_ fun burnLp heq => ?_
  · unfold burnableLp
    rw [if_pos (by rw [hready.pending]; exact hpositive)]
    exact .ret _
  obtain rfl : burnLp = liquidity := redeems_staged hready (burnableLp_ok heq)
  refine .bind (.failIf fun hnone => by omega) fun _ _ => ?_
  -- the payouts
  refine .bind ?_ fun payouts heq => ?_
  · unfold burnAmounts
    refine .bind (share_failsWith hpositive.le ?_ (by omega) hsideA.fits) fun _ _ =>
      .bind (share_failsWith hpositive.le ?_ (by omega) hsideB.fits) fun _ _ => .ret _
    · exact (hsideA.payout_le.1.trans_le hsideA.payout_le.2).le
    · exact (hsideB.payout_le.1.trans_le hsideB.payout_le.2).le
  obtain ⟨amountA, amountB⟩ := payouts
  obtain ⟨-, -, hamountA, hamountB⟩ := burnAmounts_ok heq
  rw [show state.reserve true = state.reserveA from rfl, ← hamountA] at hsideA
  rw [show state.reserve false = state.reserveB from rfl, ← hamountB] at hsideB
  obtain ⟨hfloorA, hrestA, hboundA, -, hmovableA⟩ := id hsideA
  obtain ⟨hfloorB, hrestB, hboundB, -, hmovableB⟩ := id hsideB
  obtain ⟨hpayA, hleA⟩ := hsideA.payout_le
  obtain ⟨hpayB, hleB⟩ := hsideB.payout_le
  refine .bind (.failIf fun hnone => by omega) fun _ _ => ?_
  refine .bind (.failIf fun hdust => by omega) fun _ _ => ?_
  refine .checked (fun hover => hover (fits_of_le (by omega) (by omega) hboundA)) fun _ => ?_
  refine .checked (fun hover => hover (fits_of_le (by omega) (by omega) hboundB)) fun _ => ?_
  refine .bind (.failIf fun hdust => by omega) fun _ _ => ?_
  -- the calls of the tokens
  refine .bind (.nested fun hfails => ?_) fun lp _ => ?_
  · have hlpAuth : env.lpEnv.auth contract = true := by simp [Env.lpEnv]
    obtain ⟨lp, hlp⟩ := (lpBurn_failsWith hready.lp.backed hcapped
      (hready.lp.paused.trans hready.unpaused) hlpAuth hpositive
      (hready.pendingTotal.trans hready.staged)).returns
    exact hfails lp hlp
  refine .bind (clearPending_failsWith hready) fun cleared hcleared => ?_
  obtain rfl := clearPending_ok hcleared
  refine .bind (transfer_failsWith hmovableA) fun _ _ => ?_
  refine .bind (transfer_failsWith hmovableB) fun _ _ => ?_
  refine .bind (.okOr fun hnone => ?_) fun _ _ => .ret _
  refine not_fits_of_checked hnone (fits_of_le ?_ ?_ hproduct)
  · exact mul_nonneg (by omega) (by omega)
  · exact mul_le_mul (by omega) (by omega) (by omega) (by omega)

/-- The products an accepted burn divides. -/
theorem burn_fits {state : PairStorage Address} {result : World Address × ℤ × ℤ}
    (hstate : w.pair.pairState = some state) (hburn : burn env w user = .ok result) :
    ∃ burnLp, Redeems w contract user burnLp ∧ burnLp * state.reserveA ≤ i128.max ∧
      burnLp * state.reserveB ≤ i128.max := by
  simp only [burn, bind_eq_ok, require_eq_ok, World.acquireLock_eq_ok, World.getPairState_eq_ok,
    exists_const, and_assoc, exists_and_left, exists_eq_left', hstate, Option.some.injEq] at hburn
  obtain ⟨-, -, _, -, _, -, _, -, _, -, burnLp, hburnable, _, -, ⟨_, _⟩, hamounts, -⟩ := hburn
  obtain ⟨hfitsA, hfitsB, -, -⟩ := burnAmounts_ok hamounts
  exact ⟨burnLp, burnableLp_ok hburnable, hfitsA, hfitsB⟩

theorem exitGranted_of_burn {amountA amountB : ℤ} (hready : CanBurn contract w user liquidity)
    (hburn : burn env w user = .ok (w', amountA, amountB)) :
    ExitGranted w user liquidity ∧ amountA = exitPayout w liquidity true ∧
      amountB = exitPayout w liquidity false := by
  obtain ⟨state, burnLp, lp, tokenA, tokenB, hsettles⟩ := burn_ok hburn
  obtain ⟨_, hredeems, hfitsA, hfitsB⟩ := burn_fits hsettles.pairState hburn
  obtain rfl := redeems_staged hready hredeems
  obtain rfl := redeems_staged hready hsettles.redeems
  have hne := (Env.ne_contract_of_auth hsettles.authorised).symm
  obtain ⟨-, hfundsA, hroomA⟩ := (Token.transfer_eq_some hsettles.paidA).1
  obtain ⟨-, hfundsB, hroomB⟩ := (Token.transfer_eq_some hsettles.paidB).1
  have hbalanceA : w.tokenA.balance contract = w.reserveA := hready.balanced true
  have hbalanceB : w.tokenB.balance contract = w.reserveB := hready.balanced false
  have hrestA := hsettles.restA
  have hrestB := hsettles.restB
  rw [← World.reserveA_of_pairState hsettles.pairState] at hfitsA hrestA
  rw [← World.reserveB_of_pairState hsettles.pairState] at hfitsB hrestB
  have hpayA : amountA = exitPayout w burnLp true := by
    rw [hsettles.shareA, ← World.reserveA_of_pairState hsettles.pairState]
    rfl
  have hpayB : amountB = exitPayout w burnLp false := by
    rw [hsettles.shareB, ← World.reserveB_of_pairState hsettles.pairState]
    rfl
  refine ⟨⟨?_, ?_, ?_, ?_⟩, hpayA, hpayB⟩
  · exact Bool.forall_bool.mpr ⟨hpayB ▸ hsettles.floorB, hpayA ▸ hsettles.floorA⟩
  · refine Bool.forall_bool.mpr ⟨?_, ?_⟩
    · rw [← hpayB, show w.reserve false = w.reserveB from rfl]
      omega
    · rw [← hpayA, show w.reserve true = w.reserveA from rfl]
      omega
  · exact Bool.forall_bool.mpr ⟨hfitsB, hfitsA⟩
  · exact Bool.forall_bool.mpr ⟨hpayB ▸ hroomB hne, hpayA ▸ hroomA hne⟩

end Burn

/-! ### After a mint -/

section Minted

variable {env : Env contract} {w minted staged : World Address} {user : Address} {liquidity : ℤ}

theorem mint_product (hmint : mint env w user = .ok (minted, liquidity)) :
    w.tokenA.balance contract * w.tokenB.balance contract ≤ i128.max := by
  simp only [mint, bind_eq_ok, okOr_eq_ok, World.acquireLock_eq_ok, Word.checkedMul_eq_some, and_assoc,
    exists_and_left, exists_eq_left'] at hmint
  obtain ⟨_, -, -, _, -, _, -, _, -, _, -, _, -, _, -, ⟨_, _⟩, -, _, -, _, -, _, -, -, hproduct, -⟩ := hmint
  exact hproduct

/-- What holds of a pool in which `user` has just been minted `liquidity` shares. -/
structure JustMinted (contract : Address) (w : World Address) (user : Address) (liquidity : ℤ) :
    Prop where
  canStage : CanStage contract w user liquidity
  stage : StageHeld contract w
  burnable : minimumLiquidity < w.lp.totalSupply
  balanced : Balanced contract w
  product : w.reserveA * w.reserveB ≤ i128.max

theorem justMinted_of_mint (hsound : LpSound contract w) (hstage : StageHeld contract w)
    (hnonneg : 0 ≤ w.pair.pendingLpTotal) (hpending : w.pair.pendingLp user = 0)
    (hmint : mint env w user = .ok (minted, liquidity)) :
    JustMinted contract minted user liquidity := by
  have hexec : exec w (env, .mint user) = .ok minted := by
    simp only [exec, hmint]
    rfl
  have hsound' := lpSound_of_exec hsound hexec
  have hstage' := stageHeld_of_exec hstage (by simp [Keyless, outsideLpCalls, outsideActions]) hexec
  have hproduct := mint_product hmint
  obtain ⟨state, seeded, lp, hsettles⟩ := mint_ok hmint
  have hworth := hsettles.worth
  have hpositive : 0 < liquidity := lt_of_lt_of_le (by decide) hworth
  obtain ⟨-, -, hcapped, hlp⟩ := LpToken.mint_ok hsettles.minted
  have hseeded : 0 ≤ seeded.balance user ∧ minimumLiquidity < seeded.totalSupply + liquidity := by
    unfold minLiquidityForUser at hworth
    unfold minimumLiquidity
    rcases mintedLiquidity_ok hsettles.priced with ⟨hzero, hseed⟩ | ⟨hsupply, rfl, -⟩
    · have hbacked := LpToken.backed_of_mint hsound.backed (by decide) hseed
      obtain ⟨-, -, -, rfl⟩ := LpToken.mint_ok hseed
      refine ⟨hbacked.nonneg user, ?_⟩
      show 1000 < w.lp.totalSupply + minimumLiquidity + liquidity
      unfold minimumLiquidity
      omega
    · have htotal := hsound.backed.total_nonneg
      exact ⟨hsound.backed.nonneg user, by omega⟩
  have hheld : liquidity ≤ lp.balance user := by
    rw [hlp]
    show liquidity ≤ Function.update seeded.balance user (seeded.balance user + liquidity) user
    rw [Function.update_self]
    omega
  have hsupply : lp.totalSupply = seeded.totalSupply + liquidity := by rw [hlp]
  obtain rfl := hsettles.result
  exact
    { canStage :=
        { unlocked := rfl
          initialized := ⟨_, rfl⟩
          unpaused := hsettles.unpaused
          lp := hsound'
          capped := by rw [← hsupply] at hcapped; exact hcapped
          positive := hpositive
          held := hheld
          pending := hpending
          staged := hstage'.staged
          staged_nonneg := hnonneg }
      stage := hstage'
      burnable := by rw [← hsupply] at hseeded; exact hseeded.2
      balanced := Bool.forall_bool.mpr ⟨rfl, rfl⟩
      product := hproduct }

/-- Freezing and unfreezing changes nothing an exit depends on. -/
theorem JustMinted.refreeze (hminted : JustMinted contract w user liquidity)
    (freezes : List (Env contract × Bool)) :
    JustMinted contract (refreeze w freezes) user liquidity := by
  obtain ⟨frozen, heq⟩ := refreeze_eq w freezes
  rw [heq]
  obtain ⟨hstage, hheld, hburnable, hbalanced, hproduct⟩ := hminted
  exact ⟨{ hstage with lp := hstage.lp.of_eq rfl rfl }, ⟨hheld.staged, hheld.held⟩, hburnable, hbalanced,
    hproduct⟩

theorem canBurn_of_depositLp (hminted : JustMinted contract w user liquidity)
    (hdeposit : depositLp env w user liquidity = .ok staged) :
    CanBurn contract staged user liquidity ∧ staged.pair.locked = false := by
  have hsound := lpSound_of_exec hminted.canStage.lp
    (show exec w (env, .depositLp user liquidity) = .ok staged from hdeposit)
  have hstage := stageHeld_of_exec hminted.stage (by simp [Keyless, outsideLpCalls, outsideActions])
    (show exec w (env, .depositLp user liquidity) = .ok staged from hdeposit)
  obtain ⟨lp, hsettles⟩ := depositLp_ok hdeposit
  obtain ⟨hsupply, -, -, hpending⟩ := hsettles.stages
  have hnonneg := hminted.canStage.staged_nonneg
  rw [hminted.canStage.pending, zero_add] at hpending
  refine ⟨
    { initialized := ?_
      unpaused := ?_
      lp := hsound
      capped := hsupply ▸ hminted.canStage.capped
      burnable := hsupply ▸ hminted.burnable
      positive := hminted.canStage.positive
      pending := hpending
      pendingTotal := ?_
      staged := hstage.staged
      balanced := ?_
      product := ?_ }, ?_⟩
  all_goals obtain rfl := hsettles.result
  · exact hminted.canStage.initialized
  · exact hminted.canStage.unpaused
  · exact le_add_of_nonneg_left hnonneg
  · exact hminted.balanced
  · exact hminted.product
  · rfl

theorem CanBurn.refreeze (hready : CanBurn contract w user liquidity)
    (freezes : List (Env contract × Bool)) : CanBurn contract (refreeze w freezes) user liquidity := by
  obtain ⟨frozen, heq⟩ := refreeze_eq w freezes
  rw [heq]
  exact { hready with lp := hready.lp.of_eq rfl rfl, balanced := hready.balanced }

omit [DecidableEq Address] in
theorem ExitGranted.of_same {w' : World Address} (hgranted : ExitGranted w user liquidity)
    (hpair : w'.pair.pairState = w.pair.pairState) (hsupply : w'.lp.totalSupply = w.lp.totalSupply)
    (hA : w'.tokenA = w.tokenA) (hB : w'.tokenB = w.tokenB) : ExitGranted w' user liquidity := by
  have hreserve : w'.reserve = w.reserve := World.reserve_eq_of_pairState hpair
  have htoken : w'.token = w.token := by
    funext isA
    cases isA <;> simp only [World.token, hA, hB]
  have hpayout : exitPayout w' liquidity = exitPayout w liquidity := by
    funext isA
    rw [exitPayout, exitPayout, hreserve, hsupply]
  obtain ⟨hfloor, hrest, hfits, hroom⟩ := hgranted
  constructor
  · rwa [hpayout]
  · rwa [hpayout, hreserve]
  · rwa [hreserve]
  · rwa [hpayout, htoken]

/-- What staging and freezing leave of the world an exit is granted in. -/
theorem exitGranted_staged_iff (first second : List (Env contract × Bool))
    (hdeposit : depositLp env (refreeze w first) user liquidity = .ok staged) :
    ExitGranted (refreeze staged second) user liquidity ↔ ExitGranted w user liquidity := by
  obtain ⟨lp, hsettles⟩ := depositLp_ok hdeposit
  have hsupply := hsettles.stages.1
  obtain ⟨frozen, hfirst⟩ := refreeze_eq w first
  obtain ⟨frozen', hsecond⟩ := refreeze_eq staged second
  have hstaged := hsettles.result
  rw [hfirst] at hstaged hsupply
  rw [hsecond]
  constructor
  · intro hgranted
    refine hgranted.of_same ?_ hsupply.symm ?_ ?_ <;> rw [hstaged]
  · intro hgranted
    refine hgranted.of_same ?_ hsupply ?_ ?_ <;> simp only [hstaged]

end Minted

/-- **Leaving.** Whoever stages exactly the shares just minted to it and burns them, the pair frozen in
between or not, is paid some of both tokens exactly when the payouts and what they leave keep to the
dust floor and fit. -/
theorem leaves_iff {envMint envStage envBurn : Env contract} {w minted : World Address}
    {payer user : Address} {a b liquidity : ℤ} {first second : List (Env contract × Bool)}
    (hreach : KeylessReachable contract w) (hpending : w.pair.pendingLp user = 0)
    (hdeposit : depositAndMint envMint w payer user a b = .ok (minted, liquidity))
    (hstage : envStage.auth user = true) (hburn : envBurn.auth user = true) :
    (∃ left amountA amountB,
        leave envStage envBurn minted user liquidity first second = .ok (left, amountA, amountB) ∧
          0 < amountA ∧ 0 < amountB) ↔
      ExitGranted minted user liquidity := by
  simp only [depositAndMint, bind_eq_ok] at hdeposit
  obtain ⟨sentA, hsentA, sentB, hsentB, hmint⟩ := hdeposit
  obtain ⟨e, hstages⟩ := stages_of_reachable hreach.reachable
  obtain ⟨-, -, -, -, hpair, hlp⟩ := sent_ok hsentA hsentB
  have hheld := stageHeld_of_reachable hreach
  have hsound := (lpSound_of_reachable hreach.reachable).of_eq hlp (by rw [hpair])
  have hnonneg : 0 ≤ sentB.pair.pendingLpTotal := by
    rw [hpair, hstages.pendingLpTotal]
    exact Int.natCast_nonneg _
  have hminted := (justMinted_of_mint hsound
    ⟨by rw [hpair, hlp]; exact hheld.staged, by rw [hlp]; exact hheld.held⟩ hnonneg
    (by rw [hpair]; exact hpending) hmint)
  have hready := hminted.refreeze first
  constructor
  · rintro ⟨left, amountA, amountB, hleave, -, -⟩
    simp only [leave, bind_eq_ok] at hleave
    obtain ⟨staged, hdeposit, hburned⟩ := hleave
    have hcanBurn := (canBurn_of_depositLp hready hdeposit).1.refreeze second
    obtain ⟨hgranted, -, -⟩ := exitGranted_of_burn hcanBurn hburned
    exact (exitGranted_staged_iff first second hdeposit).mp hgranted
  · intro hgranted
    obtain ⟨staged, hdeposit⟩ := (depositLp_failsWith hready.canStage hstage).returns
    obtain ⟨hcanBurn, hunlocked⟩ := canBurn_of_depositLp hready hdeposit
    have hgranted' := (exitGranted_staged_iff first second hdeposit).mpr hgranted
    have hunlocked' : (refreeze staged second).pair.locked = false := by
      obtain ⟨frozen, heq⟩ := refreeze_eq staged second
      rw [heq]
      exact hunlocked
    obtain ⟨⟨left, amountA, amountB⟩, hburned⟩ :=
      (burn_failsWith (hcanBurn.refreeze second) hunlocked' hburn hgranted').returns
    obtain ⟨-, hamountA, hamountB⟩ := exitGranted_of_burn (hcanBurn.refreeze second) hburned
    have hfloorA := hgranted'.floor true
    have hfloorB := hgranted'.floor false
    unfold minimumReserve at hfloorA hfloorB
    refine ⟨left, amountA, amountB, ?_, by omega, by omega⟩
    simp only [leave, bind_eq_ok]
    exact ⟨staged, hdeposit, hburned⟩

theorem openedPool_keyless (env : Env 0) (amountA amountB : ℤ) :
    KeylessReachable 0 (openedPool env amountA amountB) := by
  refine ⟨_, _, _, ?_, rfl⟩
  simp [openingCalls, depositCalls, Keyless, outsideLpCalls, outsideActions, External.toLpCall]

theorem leaves_iff_opened :
    ∃ minted, depositAndMint (Env.quiet 0 1 1 none) (openedPool (Env.quiet 0 1 1 none) 20000 20000) 1 1
        5000 5000 = .ok (minted, 5000) ∧
      ∃ left amountA amountB, leave (Env.quiet 0 1 1 none) (Env.quiet 0 1 1 none) minted 1 5000 []
        [(Env.quiet 0 1 1 none, true)] = .ok (left, amountA, amountB) ∧ 0 < amountA ∧ 0 < amountB := by
  obtain ⟨⟨minted, _⟩, hdeposit, hresult⟩ := exists_ok_of_map_eq
    (f := fun r : World ℕ × ℤ => (r.2, r.1.reserveA, r.1.reserveB, r.1.lp.totalSupply,
      r.1.tokenA.balance 1, r.1.tokenB.balance 1))
    (b := (5000, 25000, 25000, 25000, 999999975000, 999999975000))
    (show _ <$> depositAndMint (Env.quiet 0 1 1 none)
      (openedPool (Env.quiet 0 1 1 none) 20000 20000) 1 1 5000 5000 = .ok _ by decide +kernel)
  simp only [Prod.mk.injEq] at hresult
  obtain ⟨rfl, hreserveA, hreserveB, hsupply, hbalanceA, hbalanceB⟩ := hresult
  refine ⟨minted, hdeposit, (leaves_iff (openedPool_keyless _ _ _) (by decide +kernel) hdeposit rfl
    rfl).mpr ?_⟩
  have hpayout : ∀ isA, exitPayout minted 5000 isA = 5208 := by
    refine Bool.forall_bool.mpr ⟨?_, ?_⟩
    · rw [exitPayout, hsupply, show minted.reserve false = minted.reserveB from rfl, hreserveB]
      decide
    · rw [exitPayout, hsupply, show minted.reserve true = minted.reserveA from rfl, hreserveA]
      decide
  refine ⟨fun isA => by rw [hpayout]; decide, Bool.forall_bool.mpr ⟨Or.inr ?_, Or.inr ?_⟩,
    Bool.forall_bool.mpr ⟨?_, ?_⟩, Bool.forall_bool.mpr ⟨?_, ?_⟩⟩
  · rw [hpayout, show minted.reserve false = minted.reserveB from rfl, hreserveB]
    decide
  · rw [hpayout, show minted.reserve true = minted.reserveA from rfl, hreserveA]
    decide
  · rw [show minted.reserve false = minted.reserveB from rfl, hreserveB]
    decide
  · rw [show minted.reserve true = minted.reserveA from rfl, hreserveA]
    decide
  · rw [hpayout, show minted.token false = minted.tokenB from rfl, hbalanceB]
    decide
  · rw [hpayout, show minted.token true = minted.tokenA from rfl, hbalanceA]
    decide

/-- In a pool of 1000 and 4000000, a deposit of as much again is minted 63245 shares. Burning them would
leave 993 of token A, and is refused. -/
theorem leaves_fails_for_dust :
    ¬∀ (env : Env (0 : ℕ)) (w minted : World ℕ) (payer user : ℕ) (a b liquidity : ℤ),
      KeylessReachable 0 w → Balanced 0 w → w.pair.pendingLp user = 0 →
      depositAndMint env w payer user a b = .ok (minted, liquidity) → env.auth user = true →
        ∃ left amountA amountB, leave env env minted user liquidity [] [] =
          .ok (left, amountA, amountB) ∧ 0 < amountA ∧ 0 < amountB := by
  intro hlaw
  obtain ⟨⟨minted, _⟩, hdeposit, hresult⟩ := exists_ok_of_map_eq
    (f := fun r : World ℕ × ℤ => (r.2, (fun left => left.2) <$>
      leave (Env.quiet 0 1 1 none) (Env.quiet 0 1 1 none) r.1 1 63245 [] []))
    (b := (63245, fail .dustAmount))
    (show _ <$> depositAndMint (Env.quiet 0 1 1 none)
      (openedPool (Env.quiet 0 1 1 none) 1000 4000000) 1 1 1000 4000000 =
        .ok (63245, fail PairError.dustAmount) by decide +kernel)
  obtain ⟨rfl, hleave⟩ := Prod.mk.inj hresult
  have hbalanced : Balanced 0 (openedPool (Env.quiet 0 1 1 none) 1000 4000000) := by
    unfold Balanced
    decide +kernel
  obtain ⟨left, amountA, amountB, hleft, -, -⟩ := hlaw _ _ _ _ _ _ _ _ (openedPool_keyless _ _ _)
    hbalanced (by decide +kernel) hdeposit rfl
  dsimp only at hleave
  rw [hleft] at hleave
  cases hleave

end CoralSwap
