import CoralSwap.Lib.ConstantProduct
import CoralSwap.Proof.PairEffects

/-!
# The constant product under trading

The product check of a swap bounds the product of the reserves it stores, after the protocol fee has
been taken out of them, as long as the rate is at most 100%. Flash loans compare the products
directly. The check charges the fee on the inputs the code infers, which are the whole inputs unless
a negative output was requested.
-/

namespace CoralSwap

open Host Host.Call

variable {Address : Type} [DecidableEq Address] {contract : Address}

def World.product (w : World Address) : ℤ := w.reserveA * w.reserveB

def FeeAtMost (env : Env contract) (w : World Address) (bound : ℕ) : Prop :=
  ∀ feeBps, chargedFeeBps env w = .ok feeBps → feeBps ≤ bound

/-! ### One swap -/

section Swap

variable {env : Env contract} {w w' : World Address} {amountAOut amountBOut : ℤ} {dst : Address}
variable {before after : PairStorage Address} {stored decayed : FeeState}
variable {paidA paidB : Token Address} {event : SwapEvent}

theorem SideSettles.feeScaled_nonneg {feeBps : ℕ} {reserve amountOut amountIn reserve' : ℤ}
    {token paid token' : Token Address} (hfee : feeBps ≤ 10000)
    (hside : SideSettles env feeBps dst reserve amountOut token paid token' amountIn reserve') :
    0 ≤ feeScaled (paid.balance contract) amountIn feeBps := by
  have hnonneg := hside.amountIn_nonneg
  have hpart : amountIn ≤ paid.balance contract := by
    have hfloor := hside.floor
    have hbalance := paid.nonneg contract
    have hinput := hside.input
    unfold minimumReserve at hfloor
    omega
  have hfee' : (feeBps : ℤ) ≤ bpsDenominator := by
    unfold bpsDenominator
    exact_mod_cast hfee
  unfold feeScaled
  nlinarith [mul_le_mul hpart hfee' (Int.natCast_nonneg feeBps) (paid.nonneg contract)]

theorem SideSettles.reserve_nonneg {feeBps : ℕ} {reserve amountOut amountIn reserve' : ℤ}
    {token paid token' : Token Address} (hfee : feeBps ≤ 10000)
    (hside : SideSettles env feeBps dst reserve amountOut token paid token' amountIn reserve') :
    0 ≤ reserve' := by
  have hscaled := hside.feeScaled_nonneg hfee
  have htaken := protocolFee_mul_le env feeBps hside.amountIn_nonneg
  unfold feeScaled bpsDenominator at *
  rw [hside.settled]
  omega

/-- **Step.** A swap at a rate of at most 100% does not lower the product of the reserves. -/
theorem product_le_of_swapSettles
    (hswap : SwapSettles env w amountAOut amountBOut dst before after stored decayed paidA paidB w'
      event) (hfee : event.feeBps ≤ 10000) : w.product ≤ w'.product := by
  unfold World.product
  rw [World.reserveA_of_pairState hswap.pairState, World.reserveB_of_pairState hswap.pairState,
    World.reserveA_of_pairState hswap.pairState', World.reserveB_of_pairState hswap.pairState',
    hswap.sideA.settled, hswap.sideB.settled]
  exact ConstantProduct.product_le_of_scaled (show (0 : ℤ) < bpsDenominator by decide)
    (hswap.sideA.feeScaled_nonneg hfee) (hswap.sideB.feeScaled_nonneg hfee)
    (protocolFee_mul_le env _ hswap.sideA.amountIn_nonneg)
    (protocolFee_mul_le env _ hswap.sideB.amountIn_nonneg) hswap.product

theorem product_le_of_swap (hfee : FeeAtMost env w 10000)
    (hswap : swap env w amountAOut amountBOut dst = .ok (w', event)) : w.product ≤ w'.product := by
  obtain ⟨-, -, _, _, _, _, _, _, hswap⟩ := swap_ok hswap
  exact product_le_of_swapSettles hswap (hfee _ (chargedFeeBps_of_swap hswap))

end Swap

/-! ### One flash loan -/

theorem product_le_of_flashLoan {env : Env contract} {w w' : World Address} {receiver : Address}
    {amountA amountB : ℤ} {dataLen : ℕ} {callback : Callback Address}
    (hloan : flashLoan env w receiver amountA amountB dataLen callback = .ok w') :
    w.product ≤ w'.product := by
  rcases flashLoan_ok hloan with rfl | ⟨state, _, _, called, hloan⟩
  · exact le_rfl
  · obtain rfl := hloan.result
    unfold World.product
    rw [World.reserveA_of_pairState hloan.pairState, World.reserveB_of_pairState hloan.pairState]
    exact hloan.product

/-! ### Runs of trades -/

def IsTrade (w : World Address) : PairCall contract → Prop
  | (env, .swap ..) => FeeAtMost env w 10000
  | (_, .flashLoan ..) => True
  | _ => False

theorem product_le_of_exec {w w' : World Address} {call : PairCall contract}
    (hcall : IsTrade w call) (hexec : exec w call = .ok w') : w.product ≤ w'.product := by
  obtain ⟨env, op⟩ := call
  cases op with
  | swap amountAOut amountBOut dst =>
      simp only [exec, bind_eq_ok, pure_eq_ok] at hexec
      obtain ⟨⟨_, _⟩, hswap, rfl⟩ := hexec
      exact product_le_of_swap hcall hswap
  | flashLoan receiver amountA amountB dataLen callback => exact product_le_of_flashLoan hexec
  | _ => exact hcall.elim

/-- **The constant product.** A swap at a rate of at most 100% and a flash loan do not lower the
product of the stored reserves, and neither does any run of them. -/
theorem product_never_falls :
    (∀ (env : Env contract) (w w' : World Address) (amountAOut amountBOut : ℤ) (dst : Address)
        (event : SwapEvent), FeeAtMost env w 10000 →
        swap env w amountAOut amountBOut dst = .ok (w', event) →
        w.reserveA * w.reserveB ≤ w'.reserveA * w'.reserveB) ∧
      (∀ (env : Env contract) (w w' : World Address) (receiver : Address) (amountA amountB : ℤ)
        (dataLen : ℕ) (callback : Callback Address),
        flashLoan env w receiver amountA amountB dataLen callback = .ok w' →
        w.reserveA * w.reserveB ≤ w'.reserveA * w'.reserveB) ∧
      ∀ (w : World Address) (calls : List (PairCall contract)),
        (pairMachine contract).Along IsTrade w calls →
        w.reserveA * w.reserveB ≤ ((pairMachine contract).run w calls).reserveA *
          ((pairMachine contract).run w calls).reserveB := by
  refine ⟨?_, ?_, ?_⟩
  · intro env w w' amountAOut amountBOut dst event hfee hswap
    exact product_le_of_swap hfee hswap
  · intro env w w' receiver amountA amountB dataLen callback hloan
    exact product_le_of_flashLoan hloan
  · intro w calls hcalls
    refine Machine.run_invariant (m := pairMachine contract) (I := fun w' => w.product ≤ w'.product)
      ?_ le_rfl hcalls
    intro w₁ call w₂ hle hcall hexec
    exact hle.trans (product_le_of_exec hcall hexec)

theorem product_never_falls_opened :
    let env : Env 0 := Env.quiet 0 1 1 (some 50)
    let w := (pairMachine 0).run (openedPool env 100000 100000)
      [(env, .external (.transferA 1 0 1000))]
    let calls : List (PairCall 0) :=
      [(env, .swap 0 900 1), (env, .flashLoan 1 5000 0 0 ⟨[.transferA 1 0 5015], true⟩)]
    (∃ w' event, swap env w 0 900 1 = .ok (w', event) ∧
        w.reserveA * w.reserveB ≤ w'.reserveA * w'.reserveB) ∧
      (∃ w', flashLoan env w 1 5000 0 0 ⟨[.transferA 1 0 5015], true⟩ = .ok w' ∧
        w.reserveA * w.reserveB ≤ w'.reserveA * w'.reserveB) ∧
      w.reserveA * w.reserveB ≤ ((pairMachine 0).run w calls).reserveA *
        ((pairMachine 0).run w calls).reserveB := by
  intro env w calls
  have hfee : ∀ w, FeeAtMost env w 10000 := by
    intro w feeBps hcharged
    obtain ⟨_, _, -, -, rfl⟩ := chargedFeeBps_ok.mp hcharged
    simp [env, Env.effectiveFeeBps, Env.quiet]
  obtain ⟨⟨w₁, event⟩, hswap, -⟩ := exists_ok_of_map_eq
    (show (fun r => r.2.feeBps) <$> swap env w 0 900 1 = .ok 50 by decide +kernel)
  obtain ⟨w₂, hloan, -⟩ := exists_ok_of_map_eq
    (show World.reserveA <$> flashLoan env w 1 5000 0 0 ⟨[.transferA 1 0 5015], true⟩ =
      .ok 101015 by decide +kernel)
  have htrades : (pairMachine 0).Along IsTrade w calls := ⟨hfee _, trivial, trivial⟩
  exact ⟨⟨w₁, event, hswap, product_never_falls.1 env w w₁ 0 900 1 event (hfee w) hswap⟩,
    ⟨w₂, hloan, product_never_falls.2.1 env w w₂ 1 5000 0 0 _ hloan⟩,
    product_never_falls.2.2 w calls htrades⟩

/-! ### What the fee is charged on -/

/-- What a side receives in a swap: its balance after the payout over the reserve less what was
really paid out. -/
def receivedIn (balance reserve amountOut : ℤ) : ℤ := max (balance - (reserve - max amountOut 0)) 0

/-- Both requested outputs are honest where it matters: an output is negative only on a side that
holds nothing above its reserve. -/
structure HidesNoInput (contract : Address) (w : World Address) (amountAOut amountBOut : ℤ) :
    Prop where
  sideA : 0 ≤ amountAOut ∨ w.tokenA.balance contract ≤ w.reserveA
  sideB : 0 ≤ amountBOut ∨ w.tokenB.balance contract ≤ w.reserveB

theorem SideSettles.amountIn_eq_receivedIn_iff {env : Env contract} {feeBps : ℕ} {dst : Address}
    {reserve amountOut amountIn reserve' : ℤ} {token paid token' : Token Address}
    (hside : SideSettles env feeBps dst reserve amountOut token paid token' amountIn reserve') :
    amountIn = receivedIn (paid.balance contract) reserve amountOut ↔
      0 ≤ amountOut ∨ token.balance contract ≤ reserve := by
  rw [hside.input]
  unfold receivedIn
  rcases payOut_ok hside.payout with ⟨hpositive, -⟩ | ⟨hnonpos, hpaid⟩
  · rw [max_eq_left hpositive.le]
    exact iff_of_true rfl (Or.inl hpositive.le)
  · rw [hpaid]
    omega

/-- **The fee base.** In an accepted swap the fee is charged on everything both sides received
exactly when no negative output hides an input, and then the product check holds for the whole
inputs. -/
theorem whole_input_charged_iff {env : Env contract} {w w' : World Address}
    {amountAOut amountBOut : ℤ} {dst : Address} {paidA paidB : Token Address} {event : SwapEvent}
    (hswap : swap env w amountAOut amountBOut dst = .ok (w', event))
    (hpaidA : payOut w.tokenA contract dst amountAOut = .ok paidA)
    (hpaidB : payOut w.tokenB contract dst amountBOut = .ok paidB) :
    ((event.amountAIn = receivedIn (paidA.balance contract) w.reserveA amountAOut ∧
        event.amountBIn = receivedIn (paidB.balance contract) w.reserveB amountBOut) ↔
      HidesNoInput contract w amountAOut amountBOut) ∧
    (HidesNoInput contract w amountAOut amountBOut →
      100000000 * (w.reserveA * w.reserveB) ≤
        (10000 * paidA.balance contract -
            event.feeBps * receivedIn (paidA.balance contract) w.reserveA amountAOut) *
          (10000 * paidB.balance contract -
            event.feeBps * receivedIn (paidB.balance contract) w.reserveB amountBOut)) := by
  obtain ⟨-, -, before, _, _, _, paidA', paidB', hswap⟩ := swap_ok hswap
  obtain rfl : paidA = paidA' := Except.ok.inj (hpaidA.symm.trans hswap.sideA.payout)
  obtain rfl : paidB = paidB' := Except.ok.inj (hpaidB.symm.trans hswap.sideB.payout)
  have hreserveA := World.reserveA_of_pairState hswap.pairState
  have hreserveB := World.reserveB_of_pairState hswap.pairState
  have hsideA := hswap.sideA.amountIn_eq_receivedIn_iff
  have hsideB := hswap.sideB.amountIn_eq_receivedIn_iff
  rw [← hreserveA] at hsideA
  rw [← hreserveB] at hsideB
  have hwhole : (event.amountAIn = receivedIn (paidA.balance contract) w.reserveA amountAOut ∧
      event.amountBIn = receivedIn (paidB.balance contract) w.reserveB amountBOut) ↔
        HidesNoInput contract w amountAOut amountBOut := by
    rw [hsideA, hsideB]
    exact ⟨fun h => ⟨h.1, h.2⟩, fun h => ⟨h.sideA, h.sideB⟩⟩
  refine ⟨hwhole, fun hhonest => ?_⟩
  obtain ⟨hinA, hinB⟩ := hwhole.mpr hhonest
  have hproduct := hswap.product
  rw [hinA, hinB, ← hreserveA, ← hreserveB] at hproduct
  unfold feeScaled bpsDenominator at hproduct
  linarith

theorem whole_input_charged_iff_opened :
    let env : Env 0 := Env.quiet 0 1 1 none
    let w := (pairMachine 0).run (openedPool env 100000 100000)
      [(env, .external (.transferA 1 0 1000))]
    HidesNoInput 0 w 0 900 ∧ ∃ (w' : World ℕ) (event : SwapEvent) (paidA paidB : Token ℕ),
      swap env w 0 900 1 = .ok (w', event) ∧
      100000000 * (w.reserveA * w.reserveB) ≤
        (10000 * paidA.balance 0 - event.feeBps * receivedIn (paidA.balance 0) w.reserveA 0) *
          (10000 * paidB.balance 0 - event.feeBps * receivedIn (paidB.balance 0) w.reserveB 900) := by
  intro env w
  obtain ⟨⟨w', event⟩, hswap, -⟩ := exists_ok_of_map_eq
    (show (fun r => r.2.feeBps) <$> swap env w 0 900 1 = .ok 30 by decide +kernel)
  obtain ⟨paidA, hpaidA, -⟩ := exists_ok_of_map_eq
    (show (fun t => t.balance 0) <$> payOut w.tokenA 0 1 0 = .ok 101000 by decide +kernel)
  obtain ⟨paidB, hpaidB, -⟩ := exists_ok_of_map_eq
    (show (fun t => t.balance 0) <$> payOut w.tokenB 0 1 900 = .ok 99100 by decide +kernel)
  have hhonest : HidesNoInput 0 w 0 900 := ⟨Or.inl le_rfl, Or.inl (by decide)⟩
  exact ⟨hhonest, w', event, paidA, paidB, hswap,
    (whole_input_charged_iff hswap hpaidA hpaidB).2 hhonest⟩

/-- Asking for `-999` of the token that was sent in hides all but one unit of the input, and the swap
takes more than the whole input would pay for. -/
theorem whole_input_charged_fails :
    ¬∀ (env : Env (0 : ℕ)) (w w' : World ℕ) (amountAOut amountBOut : ℤ) (dst : ℕ)
        (paidA paidB : Token ℕ) (event : SwapEvent), 0 < w.reserveA → 0 < w.reserveB →
        w.reserveA ≤ w.tokenA.balance 0 → w.reserveB ≤ w.tokenB.balance 0 →
        swap env w amountAOut amountBOut dst = .ok (w', event) →
        payOut w.tokenA 0 dst amountAOut = .ok paidA →
        payOut w.tokenB 0 dst amountBOut = .ok paidB →
        100000000 * (w.reserveA * w.reserveB) ≤
          (10000 * paidA.balance 0 -
              event.feeBps * receivedIn (paidA.balance 0) w.reserveA amountAOut) *
            (10000 * paidB.balance 0 -
              event.feeBps * receivedIn (paidB.balance 0) w.reserveB amountBOut) := by
  intro hlaw
  let env : Env 0 := Env.quiet 0 1 1 none
  let w := (pairMachine 0).run (openedPool env 100000 100000)
    [(env, .external (.transferA 1 0 1000))]
  have hreserveA : w.reserveA = 100000 := by decide +kernel
  have hreserveB : w.reserveB = 100000 := by decide +kernel
  obtain ⟨⟨w', event⟩, hswap, hfee⟩ := exists_ok_of_map_eq
    (show (fun r => r.2.feeBps) <$> swap env w (-999) 990 1 = .ok 30 by decide +kernel)
  obtain ⟨paidA, hpaidA, hbalanceA⟩ := exists_ok_of_map_eq
    (show (fun t => t.balance 0) <$> payOut w.tokenA 0 1 (-999) = .ok 101000 by decide +kernel)
  obtain ⟨paidB, hpaidB, hbalanceB⟩ := exists_ok_of_map_eq
    (show (fun t => t.balance 0) <$> payOut w.tokenB 0 1 990 = .ok 99010 by decide +kernel)
  have hcase := hlaw env w w' (-999) 990 1 paidA paidB event (by decide +kernel) (by decide +kernel)
    (by decide +kernel) (by decide +kernel) hswap hpaidA hpaidB
  dsimp only at hfee hbalanceA hbalanceB
  rw [hreserveA, hreserveB, hfee, hbalanceA, hbalanceB] at hcase
  exact absurd hcase (by decide)

end CoralSwap
