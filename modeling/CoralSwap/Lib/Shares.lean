import CoralSwap.Lib.Word

/-!
# Proportional shares

A deposit is issued shares in proportion to the reserve it joins, and shares are redeemed for a
proportional part of the reserve, both rounded down. When some shares are locked and left out of the
redemption, a round trip pays exactly when the locked shares of the deposit outweigh the roundings.
-/

namespace Shares

open Host

def issued (amount supply reserve : ℤ) : ℤ := (amount * supply).tdiv reserve

/-- What `shares` out of `supply` redeem of `reserve`. -/
def redeemed (shares reserve supply : ℤ) : ℤ := (shares * reserve).tdiv supply

variable {amount shares supply reserve locked : ℤ}

theorem redeemed_mul_le (hshares : 0 ≤ shares) (hreserve : 0 ≤ reserve) (hsupply : 0 < supply) :
    redeemed shares reserve supply * supply ≤ shares * reserve :=
  tdiv_mul_le (mul_nonneg hshares hreserve) hsupply

theorem redeemed_le (hshares : 0 ≤ shares) (hreserve : 0 ≤ reserve) (hle : shares ≤ supply)
    (hsupply : 0 < supply) : redeemed shares reserve supply ≤ reserve := by
  refine le_of_mul_le_mul_right ?_ hsupply
  calc
    redeemed shares reserve supply * supply ≤ shares * reserve :=
      redeemed_mul_le hshares hreserve hsupply
    _ ≤ supply * reserve := mul_le_mul_of_nonneg_right hle hreserve
    _ = reserve * supply := mul_comm _ _

theorem redeemed_nonpos (hshares : 0 ≤ shares) (hreserve : reserve ≤ 0) (hsupply : 0 ≤ supply) :
    redeemed shares reserve supply ≤ 0 := by
  have hopposite : 0 ≤ (-(shares * reserve)).tdiv supply :=
    Int.tdiv_nonneg (neg_nonneg.mpr (mul_nonpos_of_nonneg_of_nonpos hshares hreserve)) hsupply
  rw [Int.neg_tdiv] at hopposite
  exact neg_nonneg.mp hopposite

theorem redeemed_self (hsupply : supply ≠ 0) : redeemed supply reserve supply = reserve :=
  Int.mul_tdiv_cancel_left reserve hsupply

theorem redeemed_lt (hshares : 0 ≤ shares) (hreserve : 0 < reserve) (hlt : shares < supply) :
    redeemed shares reserve supply < reserve := by
  have hsupply : 0 < supply := hshares.trans_lt hlt
  refine lt_of_mul_lt_mul_right ?_ hsupply.le
  calc
    redeemed shares reserve supply * supply ≤ shares * reserve :=
      redeemed_mul_le hshares hreserve.le hsupply
    _ < supply * reserve := mul_lt_mul_of_pos_right hlt hreserve
    _ = reserve * supply := mul_comm _ _

/-- **Round trips.** Redeeming the shares issued for a deposit, with `locked` shares left out of the
supply, returns at most the deposit exactly when the locked shares' claim on the deposit stays below
the supply and what the issue rounded away. -/
theorem redeemed_le_iff (hshares : 0 ≤ shares) (hreserve : 0 ≤ reserve) (hamount : 0 ≤ amount)
    (hlocked : locked < supply) :
    redeemed shares (reserve + amount) (supply + shares - locked) ≤ amount ↔
      locked * (amount + 1) < supply + shares + (amount * supply - shares * reserve) := by
  unfold redeemed
  rw [tdiv_le_iff (mul_nonneg hshares (add_nonneg hreserve hamount)) (by omega)]
  have hexpand : (amount + 1) * (supply + shares - locked) - shares * (reserve + amount) =
      supply + shares + (amount * supply - shares * reserve) - locked * (amount + 1) := by ring
  constructor <;> intro h <;> linarith

theorem lt_issued_add_one_mul (hamount : 0 ≤ amount) (hsupply : 0 ≤ supply) (hreserve : 0 < reserve) :
    amount * supply < (issued amount supply reserve + 1) * reserve := by
  rw [issued, Int.tdiv_eq_ediv_of_nonneg (mul_nonneg hamount hsupply)]
  exact Int.lt_ediv_add_one_mul_self _ hreserve

/-- **Roundings.** A deposit that is issued at least `n` shares redeems at least `n` parts in `n + 1` of
itself, whatever the price of a share: the issue loses less than one share in `n + 1`. -/
theorem le_redeemed_issued {n : ℤ} (hn : 0 ≤ n) (hamount : 0 ≤ amount) (hsupply : 0 ≤ supply)
    (hreserve : 0 < reserve) (hshares : shares = issued amount supply reserve) (hle : n ≤ shares)
    (hlocked : 0 ≤ locked) (hlt : locked < supply + shares) :
    n * amount / (n + 1) ≤ redeemed shares (reserve + amount) (supply + shares - locked) := by
  have hpos : 0 ≤ shares := hn.trans hle
  have hprice : amount * supply < (shares + 1) * reserve := by
    rw [hshares]
    exact lt_issued_add_one_mul hamount hsupply hreserve
  rw [redeemed, Int.tdiv_eq_ediv_of_nonneg (mul_nonneg hpos (add_nonneg hreserve.le hamount)),
    Int.le_ediv_iff_mul_le (by omega)]
  set part := n * amount / (n + 1)
  have hpart : 0 ≤ part := Int.ediv_nonneg (mul_nonneg hn hamount) (by omega)
  have hpart_mul : part * (n + 1) ≤ n * amount := Int.ediv_mul_le _ (by omega)
  have hpart_le : part ≤ amount := by
    refine le_of_mul_le_mul_right ?_ (show 0 < n + 1 by omega)
    linarith
  -- with more shares the part only grows
  have hgrown : part * (shares + 1) ≤ shares * amount := by
    have hrest : n * (amount - part) ≤ shares * (amount - part) :=
      mul_le_mul_of_nonneg_right hle (sub_nonneg.mpr hpart_le)
    linarith
  refine le_of_mul_le_mul_right ?_ (show 0 < shares + 1 by omega)
  calc part * (supply + shares - locked) * (shares + 1)
      ≤ part * (supply + shares) * (shares + 1) := by
        refine mul_le_mul_of_nonneg_right (mul_le_mul_of_nonneg_left ?_ hpart) (by omega)
        omega
    _ = part * (shares + 1) * (supply + shares) := by ring
    _ ≤ shares * amount * (supply + shares) := mul_le_mul_of_nonneg_right hgrown (by omega)
    _ = shares * (amount * supply + amount * shares) := by ring
    _ ≤ shares * ((shares + 1) * reserve + amount * (shares + 1)) := by
        refine mul_le_mul_of_nonneg_left (add_le_add hprice.le ?_) hpos
        exact mul_le_mul_of_nonneg_left (by omega) hamount
    _ = shares * (reserve + amount) * (shares + 1) := by ring

/-! ### What one share is worth -/

/-- A share of the second pool is worth at least a share of the first: `reserve / supply` does not fall. -/
def NotCheaper (reserve supply reserve' supply' : ℤ) : Prop := reserve * supply' ≤ reserve' * supply

variable {reserve' supply' reserve'' supply'' : ℤ}

theorem NotCheaper.refl (reserve supply : ℤ) : NotCheaper reserve supply reserve supply := le_rfl

theorem NotCheaper.trans (hsupply : 0 ≤ supply) (hsupply' : 0 < supply') (hsupply'' : 0 ≤ supply'')
    (h : NotCheaper reserve supply reserve' supply')
    (h' : NotCheaper reserve' supply' reserve'' supply'') :
    NotCheaper reserve supply reserve'' supply'' := by
  unfold NotCheaper at *
  refine le_of_mul_le_mul_right ?_ hsupply'
  calc reserve * supply'' * supply' = reserve * supply' * supply'' := by ring
    _ ≤ reserve' * supply * supply'' := mul_le_mul_of_nonneg_right h hsupply''
    _ = reserve' * supply'' * supply := by ring
    _ ≤ reserve'' * supply' * supply := mul_le_mul_of_nonneg_right h' hsupply
    _ = reserve'' * supply * supply' := by ring

theorem notCheaper_of_le (hreserve : 0 ≤ reserve) (hsupply : 0 ≤ supply) (hle : reserve ≤ reserve')
    (hle' : supply' ≤ supply) : NotCheaper reserve supply reserve' supply' :=
  (mul_le_mul_of_nonneg_left hle' hreserve).trans (mul_le_mul_of_nonneg_right hle hsupply)

/-- An exit is rounded down, in favour of those who stay. -/
theorem notCheaper_of_redeemed (hshares : 0 ≤ shares) (hreserve : 0 ≤ reserve) (hsupply : 0 < supply) :
    NotCheaper reserve supply (reserve - redeemed shares reserve supply) (supply - shares) := by
  have hfloor := redeemed_mul_le hshares hreserve hsupply
  unfold NotCheaper
  linarith

theorem NotCheaper.redeemed_le (h : NotCheaper reserve supply reserve' supply') (hshares : 0 ≤ shares)
    (hreserve : 0 ≤ reserve) (hreserve' : 0 ≤ reserve') (hsupply : 0 < supply) (hsupply' : 0 < supply') :
    redeemed shares reserve supply ≤ redeemed shares reserve' supply' := by
  have hfloor := redeemed_mul_le hshares hreserve hsupply
  rw [redeemed, redeemed, Int.tdiv_eq_ediv_of_nonneg (mul_nonneg hshares hreserve'),
    Int.le_ediv_iff_mul_le hsupply', ← redeemed]
  refine le_of_mul_le_mul_right ?_ hsupply
  calc redeemed shares reserve supply * supply' * supply
      = redeemed shares reserve supply * supply * supply' := by ring
    _ ≤ shares * reserve * supply' := mul_le_mul_of_nonneg_right hfloor hsupply'.le
    _ = shares * (reserve * supply') := by ring
    _ ≤ shares * (reserve' * supply) := mul_le_mul_of_nonneg_left h hshares
    _ = shares * reserve' * supply := by ring

end Shares
