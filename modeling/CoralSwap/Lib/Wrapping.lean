import CoralSwap.Lib.Word

/-!
# Wrapping arithmetic

A wrapping operation keeps the residue of the exact result modulo the number of values of the type, so
that a difference of wrapped values is exact as soon as it fits.
-/

namespace Host.Word

variable (w : Word)

/-- The number of values of the type. -/
def size : ℤ := w.max - w.min + 1

def wrap (value : ℤ) : ℤ := (value - w.min) % w.size + w.min

def wrappingAdd (a b : ℤ) : ℤ := w.wrap (a + b)

def wrappingSub (a b : ℤ) : ℤ := w.wrap (a - b)

def wrappingMul (a b : ℤ) : ℤ := w.wrap (a * b)

variable {w} {a b c value : ℤ}

theorem wrap_of_mem (hlow : w.min ≤ value) (hhigh : value ≤ w.max) : w.wrap value = value := by
  have hsmall : (value - w.min) % w.size = value - w.min :=
    Int.emod_eq_of_lt (by omega) (by unfold size; omega)
  rw [wrap, hsmall, sub_add_cancel]

theorem wrap_modEq (value : ℤ) : w.wrap value ≡ value [ZMOD w.size] := by
  have hresidue := (Int.mod_modEq (value - w.min) w.size).add_right w.min
  rwa [sub_add_cancel] at hresidue

theorem wrap_congr (hmod : a ≡ b [ZMOD w.size]) : w.wrap a = w.wrap b := by
  have hshifted : a - w.min ≡ b - w.min [ZMOD w.size] := hmod.sub_right w.min
  rw [wrap, wrap, hshifted]

/-- A wrapped difference is exact where the exact one fits. -/
theorem wrappingSub_of_modEq (hmod : a - b ≡ value [ZMOD w.size]) (hlow : w.min ≤ value)
    (hhigh : value ≤ w.max) : w.wrappingSub a b = value := by
  rw [wrappingSub, wrap_congr hmod, wrap_of_mem hlow hhigh]

/-- A common shift of both operands cancels in a wrapped difference. -/
theorem wrappingSub_shift (a b c : ℤ) :
    w.wrappingSub (w.wrappingAdd a c) (w.wrappingAdd b c) = w.wrappingSub a b := by
  apply wrap_congr
  calc w.wrap (a + c) - w.wrap (b + c)
      ≡ a + c - (b + c) [ZMOD w.size] := (wrap_modEq _).sub (wrap_modEq _)
    _ = a - b := by ring

theorem wrappingAdd_shift (a b c : ℤ) :
    w.wrappingAdd (w.wrappingAdd a c) b = w.wrappingAdd (w.wrappingAdd a b) c := by
  apply wrap_congr
  calc w.wrap (a + c) + b
      ≡ a + c + b [ZMOD w.size] := (wrap_modEq _).add_right b
    _ = a + b + c := by ring
    _ ≡ w.wrap (a + b) + c [ZMOD w.size] := (wrap_modEq _).symm.add_right c

end Host.Word
