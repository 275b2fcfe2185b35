import CoralSwap.Lib.Exchange

/-!
# Constant-product pools

A pool holds two reserves and has issued shares of them. The product check of an exchange is made
on scaled balances less the fee; it bounds the plain product as well. The product of the reserves
per squared share is what one share is worth to its holder, and exits and trades do not lower it.
-/

namespace ConstantProduct

variable {R : Type*} [CommRing R] [LinearOrder R] [IsStrictOrderedRing R]

/-! ### The product check -/

/-- A product check on balances scaled by `scale` and less `chargeX` and `chargeY` leaves at least
the old product, also once up to the charges have been taken out. -/
theorem product_le_of_scaled {product x y scale chargeX chargeY takenX takenY : R}
    (hscale : 0 < scale) (hx : 0 ≤ x * scale - chargeX) (hy : 0 ≤ y * scale - chargeY)
    (htakenX : takenX * scale ≤ chargeX) (htakenY : takenY * scale ≤ chargeY)
    (hcheck : product * (scale * scale) ≤ (x * scale - chargeX) * (y * scale - chargeY)) :
    product ≤ (x - takenX) * (y - takenY) := by
  have hleftX : x * scale - chargeX ≤ (x - takenX) * scale := by
    rw [sub_mul]
    exact sub_le_sub_left htakenX _
  have hleftY : y * scale - chargeY ≤ (y - takenY) * scale := by
    rw [sub_mul]
    exact sub_le_sub_left htakenY _
  refine le_of_mul_le_mul_right ?_ (mul_pos hscale hscale)
  calc
    product * (scale * scale) ≤ (x * scale - chargeX) * (y * scale - chargeY) := hcheck
    _ ≤ ((x - takenX) * scale) * ((y - takenY) * scale) :=
      mul_le_mul hleftX hleftY hy (hx.trans hleftX)
    _ = (x - takenX) * (y - takenY) * (scale * scale) := by ring

/-- An exchange that is covered at some factor passes the product check at any larger one. -/
theorem product_le_of_covered {x y dx dy scale factor factor' : R} (hscale : 0 ≤ scale) (hdx : 0 ≤ dx)
    (hdy : dy ≤ y) (hfactor : factor ≤ factor')
    (hcovers : Exchange.Covers scale factor x y dx dy) :
    x * y * (scale * scale) ≤ (x * scale + dx * factor') * ((y - dy) * scale) := by
  have hkept := Exchange.covers_iff_kept.mp hcovers
  rw [mul_comm (y - dy)] at hkept
  calc
    x * y * (scale * scale) = x * scale * y * scale := by ring
    _ ≤ (x * scale + dx * factor) * (y - dy) * scale := mul_le_mul_of_nonneg_right hkept hscale
    _ ≤ (x * scale + dx * factor') * (y - dy) * scale := by
      refine mul_le_mul_of_nonneg_right (mul_le_mul_of_nonneg_right ?_ (sub_nonneg.mpr hdy)) hscale
      exact add_le_add_right (mul_le_mul_of_nonneg_left hfactor hdx) _
    _ = (x * scale + dx * factor') * ((y - dy) * scale) := mul_assoc _ _ _

/-! ### What a share is worth -/

structure Pool (R : Type*) where
  x : R
  y : R
  shares : R

namespace Pool

variable {p q r : Pool R}

/-- `q` is worth at least as much per share as `p`: the product of the reserves per squared share
has not fallen. -/
def Keeps (p q : Pool R) : Prop :=
  p.x * p.y * q.shares ^ 2 ≤ q.x * q.y * p.shares ^ 2

theorem Keeps.trans (hshares : 0 < q.shares) (hpq : p.Keeps q) (hqr : q.Keeps r) : p.Keeps r := by
  unfold Keeps at *
  refine le_of_mul_le_mul_right ?_ (pow_pos hshares 2)
  calc
    p.x * p.y * r.shares ^ 2 * q.shares ^ 2 = p.x * p.y * q.shares ^ 2 * r.shares ^ 2 := by ring
    _ ≤ q.x * q.y * p.shares ^ 2 * r.shares ^ 2 := by
      exact mul_le_mul_of_nonneg_right hpq (sq_nonneg _)
    _ = q.x * q.y * r.shares ^ 2 * p.shares ^ 2 := by ring
    _ ≤ r.x * r.y * q.shares ^ 2 * p.shares ^ 2 := by
      exact mul_le_mul_of_nonneg_right hqr (sq_nonneg _)
    _ = r.x * r.y * p.shares ^ 2 * q.shares ^ 2 := by ring

theorem keeps_of_le (hproduct : p.x * p.y ≤ q.x * q.y) (hnonneg : 0 ≤ q.x * q.y)
    (hshares : 0 ≤ q.shares) (hissued : q.shares ≤ p.shares) : p.Keeps q := by
  unfold Keeps
  gcongr

/-- **Exits.** Whoever leaves with at most the proportional part of each reserve does not dilute
those who stay. -/
theorem keeps_of_exit {burned outX outY : R} (hx : 0 ≤ p.x) (hy : 0 ≤ p.y)
    (hburned : burned ≤ p.shares)
    (houtX : outX * p.shares ≤ burned * p.x) (houtY : outY * p.shares ≤ burned * p.y) :
    p.Keeps ⟨p.x - outX, p.y - outY, p.shares - burned⟩ := by
  have hrest : 0 ≤ p.shares - burned := sub_nonneg.mpr hburned
  have hkeptX : p.x * (p.shares - burned) ≤ (p.x - outX) * p.shares := by
    rw [mul_sub, sub_mul, mul_comm p.x burned]
    exact sub_le_sub_left houtX _
  have hkeptY : p.y * (p.shares - burned) ≤ (p.y - outY) * p.shares := by
    rw [mul_sub, sub_mul, mul_comm p.y burned]
    exact sub_le_sub_left houtY _
  unfold Keeps
  calc
    p.x * p.y * (p.shares - burned) ^ 2 =
        (p.x * (p.shares - burned)) * (p.y * (p.shares - burned)) := by ring
    _ ≤ ((p.x - outX) * p.shares) * ((p.y - outY) * p.shares) :=
      mul_le_mul hkeptX hkeptY (mul_nonneg hy hrest) ((mul_nonneg hx hrest).trans hkeptX)
    _ = (p.x - outX) * (p.y - outY) * p.shares ^ 2 := by ring

/-- **Deposits.** Whoever is issued at most the proportional part of the shares on either side does not
dilute those who are there. -/
theorem keeps_of_deposit {issued inX inY : R} (hx : 0 ≤ p.x) (hy : 0 ≤ p.y) (hshares : 0 ≤ p.shares)
    (hissued : 0 ≤ issued) (hinX : issued * p.x ≤ inX * p.shares) (hinY : issued * p.y ≤ inY * p.shares) :
    p.Keeps ⟨p.x + inX, p.y + inY, p.shares + issued⟩ := by
  have hmore : 0 ≤ p.shares + issued := add_nonneg hshares hissued
  have hkeptX : p.x * (p.shares + issued) ≤ (p.x + inX) * p.shares := by
    rw [mul_add, add_mul, mul_comm p.x issued]
    exact add_le_add_right hinX _
  have hkeptY : p.y * (p.shares + issued) ≤ (p.y + inY) * p.shares := by
    rw [mul_add, add_mul, mul_comm p.y issued]
    exact add_le_add_right hinY _
  unfold Keeps
  calc
    p.x * p.y * (p.shares + issued) ^ 2 =
        (p.x * (p.shares + issued)) * (p.y * (p.shares + issued)) := by ring
    _ ≤ ((p.x + inX) * p.shares) * ((p.y + inY) * p.shares) :=
      mul_le_mul hkeptX hkeptY (mul_nonneg hy hmore) ((mul_nonneg hx hmore).trans hkeptX)
    _ = (p.x + inX) * (p.y + inY) * p.shares ^ 2 := by ring

omit [IsStrictOrderedRing R] in
theorem Keeps.swap {x y s x' y' s' : R} (hkeeps : Keeps ⟨x, y, s⟩ ⟨x', y', s'⟩) :
    Keeps ⟨y, x, s⟩ ⟨y', x', s'⟩ := by
  unfold Keeps at *
  rwa [mul_comm y, mul_comm y']

end Pool

end ConstantProduct
