import Mathlib.Tactic

/-!
# The exchange rule

A pool trades an input for part of the other reserve and keeps a fee: of every `scale` units put in,
`factor` are traded. What an input buys and what an output costs are two readings of one relation, so
rounding the first down and the second up makes them adjoint. Trades one after the other buy no more
than one trade of the whole input, since each leaves its fee in the pool.
-/

namespace Exchange

variable {R : Type*} [CommRing R] [LinearOrder R] [IsStrictOrderedRing R]

/-- `dx` put into the reserve `x` covers `dy` taken out of the reserve `y`. -/
def Covers (scale factor x y dx dy : R) : Prop := dy * (x * scale + dx * factor) ≤ dx * factor * y

variable {scale factor x y dx dy dx' dy' : R}

/-- What an output costs: the reserves after the trade keep the traded product. -/
theorem covers_iff_cost :
    Covers scale factor x y dx dy ↔ x * dy * scale ≤ dx * ((y - dy) * factor) := by
  unfold Covers
  constructor <;> intro h <;> linarith

theorem covers_iff_kept :
    Covers scale factor x y dx dy ↔ x * scale * y ≤ (y - dy) * (x * scale + dx * factor) := by
  unfold Covers
  constructor <;> intro h <;> linarith

/-- **Splitting.** A trade after another one, each covered in the pool it meets, is covered together with
it in the first pool. -/
theorem Covers.add (hx : 0 < x) (hy : 0 ≤ y) (hscale : 0 < scale) (hfactor : 0 ≤ factor)
    (hle : factor ≤ scale) (hdx : 0 ≤ dx) (hdx' : 0 ≤ dx') (h : Covers scale factor x y dx dy)
    (h' : Covers scale factor (x + dx) (y - dy) dx' dy') :
    Covers scale factor x y (dx + dx') (dy + dy') := by
  rw [covers_iff_kept] at *
  set first := x * scale + dx * factor
  set second := (x + dx) * scale + dx' * factor
  set whole := x * scale + (dx + dx') * factor
  have hbase : 0 < x * scale := mul_pos hx hscale
  have hfirst : 0 < first := add_pos_of_pos_of_nonneg hbase (mul_nonneg hdx hfactor)
  have hsecond : 0 < second :=
    add_pos_of_pos_of_nonneg (mul_pos (add_pos_of_pos_of_nonneg hx hdx) hscale) (mul_nonneg hdx' hfactor)
  have hwhole : 0 ≤ whole := add_nonneg hbase.le (mul_nonneg (add_nonneg hdx hdx') hfactor)
  -- the fee the first trade leaves is not traded again
  have hfee : first * second ≤ (x + dx) * scale * whole := by
    have hgap : (x + dx) * scale * whole - first * second = dx' * factor * (dx * (scale - factor)) := by
      ring
    have hnonneg : 0 ≤ dx' * factor * (dx * (scale - factor)) :=
      mul_nonneg (mul_nonneg hdx' hfactor) (mul_nonneg hdx (sub_nonneg.mpr hle))
    linarith
  refine le_of_mul_le_mul_right ?_ (mul_pos hfirst hsecond)
  calc x * scale * y * (first * second)
      ≤ x * scale * y * ((x + dx) * scale * whole) :=
        mul_le_mul_of_nonneg_left hfee (mul_nonneg hbase.le hy)
    _ ≤ (y - dy) * first * ((x + dx) * scale * whole) := by
        refine mul_le_mul_of_nonneg_right h (mul_nonneg ?_ hwhole)
        exact mul_nonneg (add_nonneg hx.le hdx) hscale.le
    _ = (x + dx) * scale * (y - dy) * (first * whole) := by ring
    _ ≤ (y - dy - dy') * second * (first * whole) :=
        mul_le_mul_of_nonneg_right h' (mul_nonneg hfirst.le hwhole)
    _ = (y - (dy + dy')) * whole * (first * second) := by ring

end Exchange
