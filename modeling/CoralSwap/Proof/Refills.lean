import CoralSwap.Proof.Exits
import CoralSwap.Proof.SquareRoots

/-!
# Refilling a pool

When everybody has left, the supply is the seed and a reserve is zero. A mint then divides by that
reserve, and no deposit is accepted again. Every other pool can be refilled, unless what was sent to it
unasked is too much to be counted.
-/

namespace CoralSwap

open Host Host.Call NewtonSqrt

variable {Address : Type} [DecidableEq Address] {contract : Address}

/-! ### What a mint can count -/

/-- What the pair holds above a reserve, and a mint counts as deposited. -/
def surplus (contract : Address) (w : World Address) (isA : Bool) : ℤ :=
  (w.token isA).balance contract - w.reserve isA

/-- The dust floor, and what it takes to be issued `minLiquidityForUser` shares, rounded up. -/
def depositFloor (w : World Address) (isA : Bool) : ℤ :=
  max minimumReserve
    ((minLiquidityForUser * w.reserve isA + w.lp.totalSupply - 1) / w.lp.totalSupply)

def leastDeposit (contract : Address) (w : World Address) (isA : Bool) : ℤ :=
  max (surplus contract w isA) (depositFloor w isA)

/-- The arithmetic of a mint that counts `amount` as deposited, and the caps of the LP token. -/
structure DepositFits (w : World Address) (amount : Bool → ℤ) : Prop where
  amount_le : ∀ isA, amount isA ≤ i128.max
  balance_le : ∀ isA, w.reserve isA + amount isA ≤ i128.max
  product : (w.reserve true + amount true) * (w.reserve false + amount false) ≤ i128.max
  first : w.lp.totalSupply = 0 → amount true * amount false <
    (LpToken.maxMintPerCall + minimumLiquidity + 1) * (LpToken.maxMintPerCall + minimumLiquidity + 1)
  later : w.lp.totalSupply ≠ 0 → (∀ isA, amount isA * w.lp.totalSupply ≤ i128.max) ∧
    issuedLiquidity w (amount true) (amount false) ≤ LpToken.maxMintPerCall

/-- A deposit of `amount` is worth `minLiquidityForUser` shares. -/
structure DepositPays (w : World Address) (amount : Bool → ℤ) : Prop where
  floor : ∀ isA, depositFloor w isA ≤ amount isA
  first : w.lp.totalSupply = 0 → (minLiquidityForUser + minimumLiquidity) *
    (minLiquidityForUser + minimumLiquidity) ≤ amount true * amount false

/-- Shares are still to be issued for the first time, or both reserves have something to price a
deposit by. -/
def Priced (w : World Address) : Prop := w.lp.totalSupply ≠ 0 → ∀ isA, 0 < w.reserve isA

/-- Deposits are priced, and the least deposit fits. -/
structure Refillable (contract : Address) (w : World Address) : Prop where
  priced : Priced w
  fits : DepositFits w (leastDeposit contract w)

section Amounts

variable {w : World Address}

omit [DecidableEq Address] in
theorem depositFloor_le_iff {amount : ℤ} {isA : Bool} (hsupply : 0 < w.lp.totalSupply) :
    depositFloor w isA ≤ amount ↔ minimumReserve ≤ amount ∧
      minLiquidityForUser * w.reserve isA ≤ amount * w.lp.totalSupply := by
  rw [depositFloor, max_le_iff, ← Int.lt_add_one_iff (a := _ / _), Int.ediv_lt_iff_lt_mul hsupply,
    add_mul, one_mul]
  exact and_congr_right fun _ => ⟨fun h => by omega, fun h => by omega⟩

omit [DecidableEq Address] in
theorem minimumReserve_le_depositFloor (isA : Bool) : minimumReserve ≤ depositFloor w isA :=
  le_max_left _ _

omit [DecidableEq Address] in
theorem depositFloor_of_unissued (hsupply : w.lp.totalSupply = 0) (isA : Bool) :
    depositFloor w isA = minimumReserve := by
  rw [depositFloor, hsupply, Int.ediv_zero]
  rfl

omit [DecidableEq Address] in
theorem DepositFits.mono {small big : Bool → ℤ} (hfits : DepositFits w big)
    (hsupply : 0 ≤ w.lp.totalSupply) (hpriced : Priced w)
    (hnonneg : ∀ isA, 0 ≤ small isA) (hheld : ∀ isA, 0 ≤ w.reserve isA + small isA)
    (hle : ∀ isA, small isA ≤ big isA) : DepositFits w small := by
  have hleA := hle true
  have hleB := hle false
  constructor
  · intro isA
    exact (hle isA).trans (hfits.amount_le isA)
  · intro isA
    exact (add_le_add_right (hle isA) _).trans (hfits.balance_le isA)
  · refine le_trans ?_ hfits.product
    exact mul_le_mul (by omega) (by omega) (hheld false) (by linarith [hheld true])
  · intro hzero
    refine lt_of_le_of_lt ?_ (hfits.first hzero)
    exact mul_le_mul hleA hleB (hnonneg false) ((hnonneg true).trans hleA)
  · intro hissued
    obtain ⟨hproducts, hcap⟩ := hfits.later hissued
    refine ⟨fun isA => (mul_le_mul_of_nonneg_right (hle isA) hsupply).trans (hproducts isA),
      le_trans ?_ hcap⟩
    exact min_le_min
      (Int.tdiv_le_tdiv (hpriced hissued true) (mul_le_mul_of_nonneg_right hleA hsupply))
      (Int.tdiv_le_tdiv (hpriced hissued false) (mul_le_mul_of_nonneg_right hleB hsupply))

end Amounts

/-! ### Which mints are accepted -/

section Accepted

variable {env : Env contract} {w minted : World Address} {state : PairStorage Address} {user : Address}
variable {seeded : LpToken Address} {amountA amountB liquidity : ℤ}

omit [DecidableEq Address] in
theorem surplus_of_pairState (hstate : w.pair.pairState = some state) (isA : Bool) :
    surplus contract w isA = (w.token isA).balance contract - state.reserve isA := by
  rw [surplus, World.reserve_of_pairState isA hstate]

theorem surplus_le_of_mint (hmint : mint env w user = .ok (minted, liquidity)) (isA : Bool) :
    surplus contract w isA ≤ i128.max := by
  simp only [mint, bind_eq_ok, okOr_eq_ok, World.acquireLock_eq_ok, Word.checkedSub_eq_some,
    World.getPairState_eq_ok, and_assoc, exists_and_left, exists_eq_left'] at hmint
  obtain ⟨_, -, -, _, -, state, hstate, _, -, -, hfitsA, -, hfitsB, -⟩ := hmint
  rw [surplus_of_pairState hstate]
  cases isA
  · exact hfitsB
  · exact hfitsA

theorem isRoot_of_priced {lp : LpToken Address} (hsupply : lp.totalSupply = 0)
    (hpriced : mintedLiquidity env lp state amountA amountB = .ok (liquidity, seeded)) :
    IsRoot (amountA * amountB) (liquidity + minimumLiquidity) := by
  simp only [mintedLiquidity, if_pos hsupply, bind_eq_ok, pure_eq_ok, initialLiquidity_eq_ok_iff] at hpriced
  obtain ⟨_, ⟨-, -, hroot⟩, _, -, hresult⟩ := hpriced
  obtain ⟨rfl, -⟩ := Prod.mk.inj hresult
  exact hroot

theorem shares_fit_of_priced {lp : LpToken Address} (hsupply : lp.totalSupply ≠ 0)
    (hpriced : mintedLiquidity env lp state amountA amountB = .ok (liquidity, seeded)) :
    amountA * lp.totalSupply ≤ i128.max ∧ amountB * lp.totalSupply ≤ i128.max := by
  simp only [mintedLiquidity, if_neg hsupply, subsequentLiquidity, bind_eq_ok, share_eq_ok, pure_eq_ok,
    and_assoc, exists_and_left, exists_eq_left'] at hpriced
  obtain ⟨-, hfitsA, -, -, -, -, hfitsB, -⟩ := hpriced
  exact ⟨hfitsA, hfitsB⟩

/-- A share that is worth anything is priced by a reserve. -/
theorem reserve_pos_of_share {amount supply reserve : ℤ} (hamount : 0 ≤ amount) (hsupply : 0 ≤ supply)
    (hworth : minLiquidityForUser ≤ (amount * supply).tdiv reserve) :
    0 < reserve ∧ minLiquidityForUser * reserve ≤ amount * supply := by
  have hpositive : 0 < (amount * supply).tdiv reserve := lt_of_lt_of_le (by decide) hworth
  have hproduct := mul_nonneg hamount hsupply
  have hreserve : 0 < reserve := by
    by_contra hnot
    have hnonpos := Int.tdiv_nonpos_of_nonneg_of_nonpos hproduct (not_lt.mp hnot)
    omega
  refine ⟨hreserve, ?_⟩
  calc
    minLiquidityForUser * reserve ≤ (amount * supply).tdiv reserve * reserve :=
      mul_le_mul_of_nonneg_right hworth hreserve.le
    _ ≤ amount * supply := tdiv_mul_le hproduct hreserve

/-- What a mint is accepted for: amounts that pay for their shares, are priced, and fit. -/
structure DepositAccepted (w : World Address) (amount : Bool → ℤ) : Prop where
  priced : Priced w
  pays : DepositPays w amount
  fits : DepositFits w amount

theorem accepted_of_mint (hsupply : 0 ≤ w.lp.totalSupply)
    (hmint : mint env w user = .ok (minted, liquidity)) :
    DepositAccepted w (surplus contract w) := by
  have hle := surplus_le_of_mint hmint
  have hproduct := mint_product hmint
  obtain ⟨state, seeded, lp, hsettles⟩ := mint_ok hmint
  obtain ⟨-, hcap, -, -⟩ := LpToken.mint_ok hsettles.minted
  have hsurplusA : surplus contract w true = _ := surplus_of_pairState hsettles.pairState true
  have hsurplusB : surplus contract w false = _ := surplus_of_pairState hsettles.pairState false
  have hreserveA : w.reserve true = state.reserveA := World.reserve_of_pairState true hsettles.pairState
  have hreserveB : w.reserve false = state.reserveB := World.reserve_of_pairState false hsettles.pairState
  have hworth := hsettles.worth
  have hpriced := hsettles.priced
  have hdust : ∀ isA, minimumReserve ≤ surplus contract w isA :=
    Bool.forall_bool.mpr ⟨hsurplusB ▸ hsettles.depositB, hsurplusA ▸ hsettles.depositA⟩
  have hbalance : ∀ isA, w.reserve isA + surplus contract w isA = (w.token isA).balance contract :=
    fun isA => add_sub_cancel _ _
  have hnonneg : ∀ isA, 0 ≤ surplus contract w isA := fun isA => le_trans (by decide) (hdust isA)
  rw [show w.tokenA.balance contract - state.reserveA = _ from hsurplusA.symm,
    show w.tokenB.balance contract - state.reserveB = _ from hsurplusB.symm] at hpriced
  have hlater : w.lp.totalSupply ≠ 0 → issuedLiquidity w (surplus contract w true)
      (surplus contract w false) = liquidity ∧ ∀ isA, 0 < w.reserve isA ∧
        minLiquidityForUser * w.reserve isA ≤ surplus contract w isA * w.lp.totalSupply := by
    intro hissued
    obtain ⟨hzero, -⟩ | ⟨-, -, -, -, hshares⟩ := mintedLiquidity_ok hpriced
    · exact absurd hzero hissued
    rw [← hreserveA, ← hreserveB] at hshares
    rw [hshares, le_min_iff] at hworth
    exact ⟨hshares.symm, Bool.forall_bool.mpr ⟨reserve_pos_of_share (hnonneg false) hsupply hworth.2,
      reserve_pos_of_share (hnonneg true) hsupply hworth.1⟩⟩
  have hroot : w.lp.totalSupply = 0 → IsRoot (surplus contract w true * surplus contract w false)
      (liquidity + minimumLiquidity) := fun hzero => isRoot_of_priced hzero hpriced
  refine ⟨fun hissued isA => ((hlater hissued).2 isA).1, ⟨fun isA => ?_, fun hzero => ?_⟩, ⟨hle, ?_, ?_, ?_, ?_⟩⟩
  · by_cases hzero : w.lp.totalSupply = 0
    · rw [depositFloor_of_unissued hzero]
      exact hdust isA
    · exact (depositFloor_le_iff (by omega)).mpr ⟨hdust isA, ((hlater hzero).2 isA).2⟩
  · have hlow : minLiquidityForUser + minimumLiquidity ≤ liquidity + minimumLiquidity := by omega
    exact (mul_self_le_mul_self (by decide) hlow).trans (hroot hzero).sq_le
  · intro isA
    rw [hbalance]
    exact (w.token isA).bounded contract
  · rw [hbalance, hbalance]
    exact hproduct
  · intro hzero
    have hnonneg := (hroot hzero).nonneg
    exact (hroot hzero).lt_succ_sq.trans_le (mul_self_le_mul_self (by omega) (by omega))
  · intro hissued
    obtain ⟨hfitsA, hfitsB⟩ := shares_fit_of_priced hissued hpriced
    exact ⟨Bool.forall_bool.mpr ⟨hfitsB, hfitsA⟩, (hlater hissued).1.le.trans hcap⟩

/-! ### What an accepted deposit goes through -/

/-- A world in which the pair answers a mint. -/
structure CanMint (contract : Address) (w : World Address) : Prop where
  unlocked : w.pair.locked = false
  unfrozen : w.pair.frozen = false
  unpaused : w.pair.lpTokenPaused = false
  initialized : ∃ state, w.pair.pairState = some state
  lp : LpSound contract w
  capped : w.lp.totalSupply + minimumLiquidity + LpToken.maxMintPerCall ≤ LpToken.maxTotalSupply

theorem lpMint_failsWith (lpEnv : LpEnv Address) (dst : Address) {t : LpToken Address} {amount : ℤ}
    (hbacked : t.Backed) (hunpaused : t.paused = false) (hadmin : t.admin = some contract)
    (hauth : lpEnv.auth contract = true) (hnonneg : 0 ≤ amount) (hcap : amount ≤ LpToken.maxMintPerCall)
    (hroom : t.totalSupply + amount ≤ LpToken.maxTotalSupply) :
    FailsWith (fun _ => False) (LpToken.mint lpEnv t dst amount) := by
  have hbalance := hbacked.nonneg dst
  have hle := hbacked.balance_le dst
  unfold LpToken.mint LpToken.requireAdmin
  refine .bind (.failIf fun hpaused => by simp [hunpaused] at hpaused) fun _ _ => .bind ?_ fun _ _ => ?_
  · refine .bind (.okOr fun hnone => by simp [hadmin] at hnone) fun admin hsigner => ?_
    obtain rfl : contract = admin := Option.some.inj (hadmin.symm.trans (okOr_eq_ok.mp hsigner))
    exact .bind (.require fun hnone => hnone hauth) fun _ _ => .ret _
  refine .bind (.failIf fun hover => by omega) fun _ _ => .bind (.okOr fun hnone => ?_) fun _ _ => ?_
  · exact not_fits_of_checked hnone (fits_of_supply (by omega) (by omega))
  refine .checked (fun hover => hover (fits_of_supply (by omega) hroom)) fun _ => ?_
  exact .bind (.failIf fun hover => by omega) fun _ _ => .ret _

omit [DecidableEq Address] in
/-- The root a first deposit is priced by. -/
theorem root_of_accepted {amount : Bool → ℤ} (hsupply : w.lp.totalSupply = 0)
    (haccepted : DepositAccepted w amount) :
    0 ≤ amount true * amount false ∧ amount true * amount false < i128.max ∧
      ∀ root, IsRoot (amount true * amount false) root →
        minLiquidityForUser ≤ root - minimumLiquidity ∧
          root - minimumLiquidity ≤ LpToken.maxMintPerCall := by
  have hlow := haccepted.pays.first hsupply
  have hhigh := haccepted.fits.first hsupply
  refine ⟨le_trans (by decide) hlow, hhigh.trans_le (by decide), fun root hroot => ⟨?_, ?_⟩⟩
  · have hseed := (hroot.le_iff (by decide)).mpr hlow
    omega
  · have hcap := (hroot.le_iff (by decide)).not.mpr (not_le.mpr hhigh)
    omega

theorem mintedLiquidity_failsWith {amount : Bool → ℤ} (hready : CanMint contract w)
    (hstate : w.pair.pairState = some state) (haccepted : DepositAccepted w amount)
    (hnonneg : ∀ isA, 0 ≤ amount isA) :
    FailsWith (fun _ => False)
      (mintedLiquidity env w.lp state (amount true) (amount false)) := by
  have hreserveA : w.reserve true = state.reserveA := World.reserve_of_pairState true hstate
  have hreserveB : w.reserve false = state.reserveB := World.reserve_of_pairState false hstate
  have htotal := hready.lp.backed.total_nonneg
  have hcapped := hready.capped
  unfold mintedLiquidity
  split
  · rename_i hsupply
    obtain ⟨hproduct, hlt, -⟩ := root_of_accepted hsupply haccepted
    obtain ⟨root, -, hroot⟩ := sqrt_isRoot hproduct hlt
    have hliquidity : initialLiquidity (amount true) (amount false) = .ok (root - minimumLiquidity) :=
      initialLiquidity_eq_ok_iff.mpr ⟨hproduct, hlt, by rwa [sub_add_cancel]⟩
    rw [hliquidity]
    refine .bind (.ok _) fun _ _ => .bind (.nested fun hfails => ?_) fun _ _ => .ret _
    unfold minimumLiquidity LpToken.maxMintPerCall at hcapped
    obtain ⟨seeded, hseeded⟩ := (lpMint_failsWith env.lpEnv contract
      hready.lp.backed (hready.lp.paused.trans hready.unpaused) hready.lp.admin (by simp [Env.lpEnv])
      (show 0 ≤ minimumLiquidity by decide) (by decide) (by unfold minimumLiquidity; omega)).returns
    exact hfails seeded hseeded
  · rename_i hsupply
    obtain ⟨hproducts, -⟩ := haccepted.fits.later hsupply
    have hpriced := haccepted.priced hsupply
    unfold subsequentLiquidity
    refine .bind (.bind ?_ fun _ _ => .bind ?_ fun _ _ => .ret _) fun _ _ => .ret _
    · exact share_failsWith (hnonneg true) htotal (hreserveA ▸ hpriced true) (hproducts true)
    · exact share_failsWith (hnonneg false) htotal (hreserveB ▸ hpriced false) (hproducts false)

/-- The shares of an accepted deposit, and the LP token they are then minted on. -/
theorem priced_of_accepted {amount : Bool → ℤ} (hready : CanMint contract w)
    (hstate : w.pair.pairState = some state) (haccepted : DepositAccepted w amount)
    (hnonneg : ∀ isA, 0 ≤ amount isA)
    (hpriced : mintedLiquidity env w.lp state (amount true) (amount false) = .ok (liquidity, seeded)) :
    (minLiquidityForUser ≤ liquidity ∧ liquidity ≤ LpToken.maxMintPerCall) ∧
      (seeded.Backed ∧ seeded.paused = false ∧ seeded.admin = some contract ∧
        seeded.totalSupply ≤ w.lp.totalSupply + minimumLiquidity) := by
  have hreserveA : w.reserve true = state.reserveA := World.reserve_of_pairState true hstate
  have hreserveB : w.reserve false = state.reserveB := World.reserve_of_pairState false hstate
  have hpaused := hready.lp.paused.trans hready.unpaused
  by_cases hsupply : w.lp.totalSupply = 0
  · obtain ⟨-, -, hbounds⟩ := root_of_accepted hsupply haccepted
    have hroot := hbounds _ (isRoot_of_priced hsupply hpriced)
    rw [add_sub_cancel_right] at hroot
    obtain ⟨-, hseed⟩ | ⟨hissued, -⟩ := mintedLiquidity_ok hpriced
    · have hbacked := LpToken.backed_of_mint hready.lp.backed (by decide) hseed
      obtain ⟨-, -, -, rfl⟩ := LpToken.mint_ok hseed
      exact ⟨hroot, hbacked, hpaused, hready.lp.admin, le_rfl⟩
    · exact absurd hsupply hissued
  · obtain ⟨hzero, -⟩ | ⟨-, rfl, -, -, hshares⟩ := mintedLiquidity_ok hpriced
    · exact absurd hzero hsupply
    have hissued : 0 < w.lp.totalSupply :=
      lt_of_le_of_ne hready.lp.backed.total_nonneg (Ne.symm hsupply)
    have hworth : ∀ isA, minLiquidityForUser ≤ (amount isA * w.lp.totalSupply).tdiv (w.reserve isA) := by
      intro isA
      have hpays := ((depositFloor_le_iff hissued).mp (haccepted.pays.floor isA)).2
      rw [Int.tdiv_eq_ediv_of_nonneg (mul_nonneg (hnonneg isA) hissued.le)]
      exact (Int.le_ediv_iff_mul_le (haccepted.priced hsupply isA)).mpr hpays
    have hliquidity : liquidity = issuedLiquidity w (amount true) (amount false) := by
      rw [hshares, ← hreserveA, ← hreserveB]
      rfl
    rw [hliquidity]
    exact ⟨⟨le_min (hworth true) (hworth false), (haccepted.fits.later hsupply).2⟩, hready.lp.backed,
      hpaused, hready.lp.admin, le_add_of_nonneg_right (by decide)⟩

theorem mint_failsWith (hready : CanMint contract w) (hauth : env.auth user = true)
    (haccepted : DepositAccepted w (surplus contract w)) :
    FailsWith (fun _ => False) (mint env w user) := by
  obtain ⟨state, hstate⟩ := hready.initialized
  have hsurplusA : surplus contract w true = w.tokenA.balance contract - state.reserveA :=
    surplus_of_pairState hstate true
  have hsurplusB : surplus contract w false = w.tokenB.balance contract - state.reserveB :=
    surplus_of_pairState hstate false
  have hdust : ∀ isA, minimumReserve ≤ surplus contract w isA :=
    fun isA => (minimumReserve_le_depositFloor isA).trans (haccepted.pays.floor isA)
  have hnonneg : ∀ isA, 0 ≤ surplus contract w isA := fun isA => le_trans (by decide) (hdust isA)
  have hcapped := hready.capped
  have hproduct : w.tokenA.balance contract * w.tokenB.balance contract ≤ i128.max := by
    have hfits := haccepted.fits.product
    rw [surplus, surplus, add_sub_cancel, add_sub_cancel] at hfits
    exact hfits
  unfold mint
  refine .bind (.require fun hnone => hnone hauth) fun _ _ => .bind ?_ fun held hheld => ?_
  · unfold World.acquireLock
    exact .bind (.failIf fun hlocked => by simp [hready.unlocked] at hlocked) fun _ _ => .ret _
  obtain ⟨-, rfl⟩ := World.acquireLock_eq_ok.mp hheld
  refine .bind (.failIf fun hfrozen => by simp [hready.unfrozen] at hfrozen) fun _ _ => ?_
  refine .bind (by simp [World.getPairState, hstate, okOr, FailsWith]) fun state' hstate' => ?_
  obtain rfl : state = state' :=
    Option.some.inj (hstate.symm.trans (World.getPairState_eq_ok.mp hstate'))
  refine .bind (.failIf fun hpaused => by simp [hready.unpaused] at hpaused) fun _ _ => ?_
  have hfits : ∀ isA, Fits (surplus contract w isA) :=
    fun isA => fits_of_le (hnonneg isA) (haccepted.fits.amount_le isA) le_rfl
  have hdustA := hdust true
  have hdustB := hdust false
  have hpricing : FailsWith _ (mintedLiquidity env _ _ _ _) :=
    mintedLiquidity_failsWith hready hstate haccepted hnonneg
  dsimp only
  rw [hsurplusA] at hdustA hpricing
  rw [hsurplusB] at hdustB hpricing
  refine .checked (fun hover => hover (hsurplusA ▸ hfits true)) fun _ => ?_
  refine .checked (fun hover => hover (hsurplusB ▸ hfits false)) fun _ => ?_
  refine .bind (.failIf fun hshort => ?_) fun _ _ => .bind hpricing fun priced hpriced => ?_
  · exact hshort.elim (not_lt.mpr hdustA) (not_lt.mpr hdustB)
  obtain ⟨liquidity, seeded⟩ := priced
  obtain ⟨⟨hworth, hcap⟩, hbacked, hunpaused, hadmin, hsupply⟩ :=
    priced_of_accepted hready hstate haccepted hnonneg (by rw [hsurplusA, hsurplusB]; exact hpriced)
  have hpositive : 0 < liquidity := lt_of_lt_of_le (by decide) hworth
  refine .bind (.failIf fun hnone => by omega) fun _ _ => .bind (.failIf fun hsmall => by omega) fun _ _ => ?_
  refine .bind (.nested fun hfails => ?_) fun _ _ => .bind (.okOr fun hnone => ?_) fun _ _ => .ret _
  · obtain ⟨lp, hlp⟩ := (lpMint_failsWith env.lpEnv user hbacked hunpaused hadmin
      (by simp [Env.lpEnv]) hpositive.le hcap (by omega)).returns
    exact hfails lp hlp
  · refine not_fits_of_checked hnone (fits_of_le ?_ hproduct le_rfl)
    exact mul_nonneg (w.tokenA.nonneg contract) (w.tokenB.nonneg contract)

theorem mint_iff (hready : CanMint contract w) (hauth : env.auth user = true) :
    (∃ minted liquidity, mint env w user = .ok (minted, liquidity)) ↔
      DepositAccepted w (surplus contract w) := by
  constructor
  · rintro ⟨minted, liquidity, hmint⟩
    exact accepted_of_mint hready.lp.backed.total_nonneg hmint
  · intro haccepted
    obtain ⟨⟨minted, liquidity⟩, hmint⟩ := (mint_failsWith hready hauth haccepted).returns
    exact ⟨minted, liquidity, hmint⟩

end Accepted

/-! ### Sending what a mint accepts -/

section Sent

variable {env : Env contract} {w sent : World Address} {payer user : Address}
variable {amount : Bool → ℤ}

omit [DecidableEq Address] in
theorem DepositAccepted.of_eq (haccepted : DepositAccepted w amount) (hpair : sent.pair = w.pair)
    (hlp : sent.lp = w.lp) : DepositAccepted sent amount := by
  have hreserve : sent.reserve = w.reserve := World.reserve_eq_of_pairState (by rw [hpair])
  have hfloor : depositFloor sent = depositFloor w := by
    funext isA
    rw [depositFloor, depositFloor, hreserve, hlp]
  have hissued : issuedLiquidity sent = issuedLiquidity w := by
    funext a b
    simp only [issuedLiquidity, World.reserveA, World.reserveB, hpair, hlp]
  obtain ⟨hpriced, ⟨hpays, hpaysFirst⟩, hle, hbalance, hproduct, hfirst, hlater⟩ := haccepted
  constructor
  · rwa [Priced, hreserve, hlp]
  · exact ⟨by rwa [hfloor], by rwa [hlp]⟩
  · exact ⟨hle, by rwa [hreserve], by rwa [hreserve], by rwa [hlp], by rwa [hlp, hissued]⟩

omit [DecidableEq Address] in
theorem CanMint.of_eq (hready : CanMint contract w) (hpair : sent.pair = w.pair)
    (hlp : sent.lp = w.lp) : CanMint contract sent := by
  obtain ⟨hunlocked, hunfrozen, hunpaused, hinitialized, hsound, hcapped⟩ := hready
  exact ⟨by rwa [hpair], by rwa [hpair], by rwa [hpair], by rwa [hpair],
    hsound.of_eq hlp (by rw [hpair]), by rwa [hlp]⟩

theorem sends_of_movable {a b : ℤ} (hne : payer ≠ contract)
    (hA : w.tokenA.Movable payer contract a) (hB : w.tokenB.Movable payer contract b) :
    ∃ sentA sentB, External.exec contract w (.transferA payer contract a) = .ok sentA ∧
      External.exec contract sentA (.transferB payer contract b) = .ok sentB := by
  obtain ⟨tokenA, htransferA⟩ : ∃ tokenA, w.tokenA.transfer payer contract a = some tokenA :=
    ⟨_, dif_pos hA⟩
  obtain ⟨tokenB, htransferB⟩ : ∃ tokenB, w.tokenB.transfer payer contract b = some tokenB :=
    ⟨_, dif_pos hB⟩
  refine ⟨{ w with tokenA }, { w with tokenA, tokenB }, ?_, ?_⟩
  · simp only [External.exec, bind_eq_ok, require_eq_ok, orTrap_eq_ok, pure_eq_ok]
    exact ⟨(), hne, tokenA, htransferA, rfl⟩
  · simp only [External.exec, bind_eq_ok, require_eq_ok, orTrap_eq_ok, pure_eq_ok]
    exact ⟨(), hne, tokenB, htransferB, rfl⟩

theorem surplus_of_sent {sentA : World Address} {a b : ℤ}
    (hsentA : External.exec contract w (.transferA payer contract a) = .ok sentA)
    (hsent : External.exec contract sentA (.transferB payer contract b) = .ok sent) :
    surplus contract sent true = surplus contract w true + a ∧
      surplus contract sent false = surplus contract w false + b := by
  obtain ⟨-, -, hbalanceA, hbalanceB, hpair, -⟩ := sent_ok hsentA hsent
  have hreserve : sent.reserve = w.reserve := World.reserve_eq_of_pairState (by rw [hpair])
  constructor
  · rw [surplus, surplus, hreserve, show (sent.token true).balance contract = _ from hbalanceA]
    exact add_sub_right_comm _ _ _
  · rw [surplus, surplus, hreserve, show (sent.token false).balance contract = _ from hbalanceB]
    exact add_sub_right_comm _ _ _

/-- What is deposited brings the amounts a mint counts up to accepted ones. -/
theorem deposit_of_accepted (hready : CanMint contract w) (hauth : env.auth user = true)
    (hpayer : payer ≠ contract) (hle : ∀ isA, surplus contract w isA ≤ amount isA)
    (hfunds : ∀ isA, amount isA - surplus contract w isA ≤ (w.token isA).balance payer)
    (haccepted : DepositAccepted w amount) :
    ∃ a b minted liquidity, depositAndMint env w payer user a b = .ok (minted, liquidity) := by
  have hmovable : ∀ isA, (w.token isA).Movable payer contract
      (amount isA - surplus contract w isA) := by
    intro isA
    have hbalance := haccepted.fits.balance_le isA
    refine ⟨sub_nonneg.mpr (hle isA), hfunds isA, fun _ => ?_⟩
    rw [surplus]
    omega
  obtain ⟨sentA, sentB, hsentA, hsentB⟩ :=
    sends_of_movable hpayer (hmovable true) (hmovable false)
  obtain ⟨hsurplusA, hsurplusB⟩ := surplus_of_sent hsentA hsentB
  obtain ⟨-, -, -, -, hpair, hlp⟩ := sent_ok hsentA hsentB
  have hsurplus : surplus contract sentB = amount := by
    funext isA
    cases isA
    · rw [hsurplusB, add_sub_cancel]
    · rw [hsurplusA, add_sub_cancel]
  obtain ⟨minted, liquidity, hmint⟩ := (mint_iff (hready.of_eq hpair hlp) hauth).mpr
    (by rw [hsurplus]; exact haccepted.of_eq hpair hlp)
  refine ⟨amount true - surplus contract w true, amount false - surplus contract w false, minted,
    liquidity, ?_⟩
  simp only [depositAndMint, bind_eq_ok]
  exact ⟨sentA, hsentA, sentB, hsentB, hmint⟩

theorem accepted_of_deposit {a b liquidity : ℤ} {minted : World Address}
    (htotal : 0 ≤ w.lp.totalSupply)
    (hdeposit : depositAndMint env w payer user a b = .ok (minted, liquidity)) :
    ∃ amount, DepositAccepted w amount ∧ ∀ isA, surplus contract w isA ≤ amount isA := by
  simp only [depositAndMint, bind_eq_ok] at hdeposit
  obtain ⟨sentA, hsentA, sentB, hsentB, hmint⟩ := hdeposit
  obtain ⟨ha, hb, -, -, hpair, hlp⟩ := sent_ok hsentA hsentB
  obtain ⟨hsurplusA, hsurplusB⟩ := surplus_of_sent hsentA hsentB
  have haccepted := accepted_of_mint (by rwa [hlp]) hmint
  refine ⟨_, haccepted.of_eq hpair.symm hlp.symm, Bool.forall_bool.mpr ⟨?_, ?_⟩⟩
  · rw [hsurplusB]
    exact le_add_of_nonneg_right hb
  · rw [hsurplusA]
    exact le_add_of_nonneg_right ha

end Sent

/-! ### Filling a pool again -/

section Refill

variable {env : Env contract} {w : World Address} {user : Address}

omit [DecidableEq Address] in
theorem refillable_of_accepted {amount : Bool → ℤ} (htotal : 0 ≤ w.lp.totalSupply)
    (hle : ∀ isA, surplus contract w isA ≤ amount isA) (haccepted : DepositAccepted w amount) :
    Refillable contract w := by
  have hfloor : ∀ isA, minimumReserve ≤ leastDeposit contract w isA :=
    fun isA => (minimumReserve_le_depositFloor isA).trans (le_max_right _ _)
  have hheld : ∀ isA, 0 ≤ w.reserve isA + leastDeposit contract w isA := by
    intro isA
    have hbalance := (w.token isA).nonneg contract
    have hsurplus : surplus contract w isA ≤ leastDeposit contract w isA := le_max_left _ _
    unfold surplus at hsurplus
    omega
  exact ⟨haccepted.priced, haccepted.fits.mono htotal haccepted.priced
    (fun isA => le_trans (by decide) (hfloor isA)) hheld
    fun isA => max_le (hle isA) (haccepted.pays.floor isA)⟩

omit [DecidableEq Address] in
theorem depositFloor_le (hpriced : Priced w) (htotal : 0 ≤ w.lp.totalSupply)
    (hreserves : ∀ isA, w.reserve isA < 1000000000000) (isA : Bool) :
    depositFloor w isA ≤ 1000000000000000 := by
  by_cases hsupply : w.lp.totalSupply = 0
  · rw [depositFloor_of_unissued hsupply]
    decide
  · have hreserve := hreserves isA
    have hpositive := hpriced hsupply isA
    refine (depositFloor_le_iff (by omega)).mpr ⟨by decide, ?_⟩
    unfold minLiquidityForUser
    omega

omit [DecidableEq Address] in
/-- Without donations, being priced is all it takes. -/
theorem refillable_of_balanced (hpriced : Priced w) (htotal : 0 ≤ w.lp.totalSupply)
    (hbalanced : Balanced contract w) (hreserves : ∀ isA, w.reserve isA < 1000000000000)
    (hsupply : w.lp.totalSupply < 1000000000000) : Refillable contract w := by
  have hleast : leastDeposit contract w = depositFloor w := by
    funext isA
    rw [leastDeposit, surplus, hbalanced isA, sub_self]
    exact max_eq_right (le_trans (by decide) (minimumReserve_le_depositFloor isA))
  have hfloor := depositFloor_le hpriced htotal hreserves
  have hnonneg : ∀ isA, 0 ≤ depositFloor w isA :=
    fun isA => le_trans (by decide) (minimumReserve_le_depositFloor isA)
  have hheld : ∀ isA, 0 ≤ w.reserve isA + depositFloor w isA := by
    intro isA
    have hbalance := (w.token isA).nonneg contract
    rw [hbalanced isA] at hbalance
    exact add_nonneg hbalance (hnonneg isA)
  have hbalance : ∀ isA, w.reserve isA + depositFloor w isA ≤ 1001000000000000 := by
    intro isA
    have hreserve := hreserves isA
    have hfloor := hfloor isA
    omega
  refine ⟨hpriced, ?_⟩
  rw [hleast]
  constructor
  · exact fun isA => (hfloor isA).trans (by decide)
  · exact fun isA => (hbalance isA).trans (by decide)
  · exact (mul_le_mul (hbalance true) (hbalance false) (hheld false) (by decide)).trans (by decide)
  · intro hzero
    rw [depositFloor_of_unissued hzero, depositFloor_of_unissued hzero]
    decide
  · intro hissued
    have hcounted : ∀ isA, depositFloor w isA * w.lp.totalSupply ≤
        1000000000000000 * 1000000000000 :=
      fun isA => mul_le_mul (hfloor isA) hsupply.le htotal (by decide)
    refine ⟨fun isA => (hcounted isA).trans (by decide), (min_le_left _ _).trans ?_⟩
    have hissued' : 0 < w.lp.totalSupply := lt_of_le_of_ne htotal (Ne.symm hissued)
    have hpositive : 0 < w.reserve true := hpriced hissued true
    -- rounding up adds less than one share of the whole supply
    have hshares : depositFloor w true * w.lp.totalSupply <
        (LpToken.maxMintPerCall + 1) * w.reserve true := by
      rcases max_choice minimumReserve ((minLiquidityForUser * w.reserve true + w.lp.totalSupply - 1) /
        w.lp.totalSupply) with hfloor | hfloor
      · rw [depositFloor, hfloor]
        unfold minimumReserve LpToken.maxMintPerCall
        omega
      · have hround := Int.ediv_mul_le (minLiquidityForUser * w.reserve true + w.lp.totalSupply - 1)
          hissued
        rw [depositFloor, hfloor]
        unfold minLiquidityForUser LpToken.maxMintPerCall at *
        omega
    exact (tdiv_le_iff (mul_nonneg (hnonneg true) htotal) hpositive).mpr hshares

omit [DecidableEq Address] in
/-- A first deposit of 4000 and 4000 is accepted unless more is there already. -/
theorem accepted_of_unissued (hsupply : w.lp.totalSupply = 0)
    (hheld : ∀ isA, 0 ≤ w.reserve isA + 4000) (hreserves : ∀ isA, w.reserve isA < 1000000000000) :
    DepositAccepted w fun _ => 4000 := by
  have hbalance : ∀ isA, w.reserve isA + 4000 ≤ 1000000004000 := by
    intro isA
    have hreserve := hreserves isA
    omega
  have hproduct : (w.reserve true + 4000) * (w.reserve false + 4000) ≤
      1000000004000 * 1000000004000 :=
    mul_le_mul (hbalance true) (hbalance false) (hheld false) (by decide)
  constructor
  · exact fun hissued => absurd hsupply hissued
  · refine ⟨fun isA => ?_, fun _ => by decide⟩
    rw [depositFloor_of_unissued hsupply]
    decide
  · exact ⟨fun _ => by decide, fun isA => (hbalance isA).trans (by decide), hproduct.trans (by decide),
      fun _ => by decide, fun hissued => absurd hsupply hissued⟩

omit [DecidableEq Address] in
/-- A refillable pool accepts the least deposit, or 4000 and 4000 where that would be too little. -/
theorem exists_accepted (htotal : 0 ≤ w.lp.totalSupply)
    (hreserves : ∀ isA, w.reserve isA < 1000000000000) (hrefillable : Refillable contract w) :
    ∃ amount, DepositAccepted w amount ∧ ∀ isA, surplus contract w isA ≤ amount isA ∧
      amount isA ≤ max (surplus contract w isA) 1000000000000000 := by
  obtain ⟨hpriced, hfits⟩ := hrefillable
  by_cases hpays : DepositPays w (leastDeposit contract w)
  · have hfloor := depositFloor_le hpriced htotal hreserves
    exact ⟨_, ⟨hpriced, hpays, hfits⟩, fun isA => ⟨le_max_left _ _, max_le_max_left _ (hfloor isA)⟩⟩
  have hsupply : w.lp.totalSupply = 0 := by
    by_contra hissued
    exact hpays ⟨fun isA => le_max_right _ _, fun hzero => absurd hzero hissued⟩
  have hdust : ∀ isA, minimumReserve ≤ leastDeposit contract w isA :=
    fun isA => (minimumReserve_le_depositFloor isA).trans (le_max_right _ _)
  -- neither side can reach 4000 while both are above the dust floor
  have hsmall : ∀ isA, leastDeposit contract w isA < 4000 := by
    intro isA
    by_contra hlarge
    refine hpays ⟨fun isA => le_max_right _ _, fun _ => ?_⟩
    have hproduct : 4000 * minimumReserve ≤
        leastDeposit contract w isA * leastDeposit contract w (!isA) :=
      mul_le_mul (not_lt.mp hlarge) (hdust _) (by decide) (le_trans (by decide) (not_lt.mp hlarge))
    refine le_trans (by decide) (hproduct.trans ?_)
    cases isA
    · exact (mul_comm _ _).le
    · exact le_rfl
  have hsurplus : ∀ isA, surplus contract w isA ≤ 4000 :=
    fun isA => (le_max_left _ _).trans (hsmall isA).le
  refine ⟨fun _ => 4000, accepted_of_unissued hsupply (fun isA => ?_) hreserves,
    fun isA => ⟨hsurplus isA, le_max_of_le_right (by norm_num)⟩⟩
  have hbalance := (w.token isA).nonneg contract
  have hsurplus := hsurplus isA
  unfold surplus at hsurplus
  omega

end Refill

/-- **Refilling.** Whoever has enough of both tokens finds a deposit that the pair mints shares for
exactly when deposits are priced and the least of them fits. -/
theorem refills_iff {env : Env contract} {w : World Address} {payer user : Address}
    (hreach : Reachable contract w) (hinitialized : w.pair.pairState.isSome = true)
    (hunfrozen : w.pair.frozen = false) (hunpaused : w.pair.lpTokenPaused = false)
    (hreserves : ∀ isA, w.reserve isA < 1000000000000) (hsupply : w.lp.totalSupply < 1000000000000)
    (hauth : env.auth user = true) (hpayer : payer ≠ contract)
    (hfunds : ∀ isA, 2000000000000000 ≤ (w.token isA).balance payer) :
    (∃ a b minted liquidity, depositAndMint env w payer user a b = .ok (minted, liquidity)) ↔
      Refillable contract w := by
  have hready : CanMint contract w :=
    { unlocked := unlocked_of_reachable hreach
      unfrozen := hunfrozen
      unpaused := hunpaused
      initialized := Option.isSome_iff_exists.mp hinitialized
      lp := lpSound_of_reachable hreach
      capped := by
        unfold minimumLiquidity LpToken.maxMintPerCall LpToken.maxTotalSupply
        omega }
  have htotal := hready.lp.backed.total_nonneg
  constructor
  · rintro ⟨a, b, minted, liquidity, hdeposit⟩
    obtain ⟨amount, haccepted, hle⟩ := accepted_of_deposit htotal hdeposit
    exact refillable_of_accepted htotal hle haccepted
  · intro hrefillable
    obtain ⟨amount, haccepted, hamount⟩ := exists_accepted htotal hreserves hrefillable
    refine deposit_of_accepted hready hauth hpayer (fun isA => (hamount isA).1) (fun isA => ?_) haccepted
    have hle := (hamount isA).2
    have hbalance := (w.token isA).nonneg contract
    have hreserve := hreserves isA
    have hrich := hfunds isA
    unfold surplus at *
    omega

def fundedPool : World ℕ :=
  (pairMachine 0).run
    (World.deployed 0 (.issued 1 20000000000000000 (by decide))
      (.issued 1 20000000000000000 (by decide)))
    (openingCalls (Env.quiet 0 1 1 none) 9 10 11 12 1 20000 20000)

theorem refills_iff_funded : ∃ a b minted liquidity,
    depositAndMint (Env.quiet 0 1 1 none) fundedPool 1 1 a b = .ok (minted, liquidity) := by
  have hreserves : ∀ isA, 0 < fundedPool.reserve isA ∧ fundedPool.reserve isA < 1000000000000 := by
    decide +kernel
  have hbalanced : Balanced 0 fundedPool := by
    unfold Balanced
    decide +kernel
  exact (refills_iff ⟨_, _, _, rfl⟩ (by decide +kernel) (by decide +kernel) (by decide +kernel)
    (fun isA => (hreserves isA).2) (by decide +kernel) (by decide) (by decide) (by decide +kernel)).mpr
    (refillable_of_balanced (fun _ isA => (hreserves isA).1) (by decide +kernel) hbalanced
      (fun isA => (hreserves isA).2) (by decide +kernel))

/-- The pool after its only provider has staged all its shares and burned them. -/
def exitedPool : World ℕ :=
  (pairMachine 0).run
    (World.deployed 0 (.issued 1 2000000000000 (by decide)) (.issued 1 2000000000000 (by decide)))
    (openingCalls (Env.quiet 0 1 1 none) 9 10 11 12 1 20000 20000 ++
      [(Env.quiet 0 1 1 none, .depositLp 1 19000), (Env.quiet 0 1 1 none, .burn 1)])

/-- The seed keeps the supply at 1000 and none of the reserves: no mint is accepted again. -/
theorem refill_fails_after_exit :
    ¬∀ w : World ℕ, Reachable 0 w → w.pair.pairState.isSome = true → w.pair.frozen = false →
      w.pair.lpTokenPaused = false → (∀ isA, w.reserve isA < 1000000000000) →
      w.lp.totalSupply < 1000000000000 →
        ∃ (env : Env 0) (payer user : ℕ) (a b : ℤ) (minted : World ℕ) (liquidity : ℤ),
          depositAndMint env w payer user a b = .ok (minted, liquidity) := by
  intro hlaw
  obtain ⟨env, payer, user, a, b, minted, liquidity, hdeposit⟩ := hlaw exitedPool ⟨_, _, _, rfl⟩
    (by decide +kernel) (by decide +kernel) (by decide +kernel) (by decide +kernel) (by decide +kernel)
  obtain ⟨amount, haccepted, -⟩ := accepted_of_deposit (by decide +kernel) hdeposit
  exact absurd (haccepted.priced (by decide +kernel) true) (by decide +kernel)

end CoralSwap
