import CoralSwap.Lib.Encoding
import CoralSwap.LpToken

/-!
# Integers in digests

The contracts hash an integer as the big-endian bytes of its type. All values of the type have
encodings of one length, told apart by their bytes.
-/

namespace CoralSwap.LpToken

open Host Host.Encoding

theorem length_toBeBytes (bytes : ℕ) (value : ℤ) : (toBeBytes bytes value).length = bytes := by
  rw [toBeBytes, List.length_map, List.length_reverse, List.length_range]

/-- The integers of a range as long as the encoding has values are told apart, signed or not. -/
theorem toBeBytes_injOn (bytes : ℕ) (low : ℤ) :
    Set.InjOn (toBeBytes bytes) (Set.Ico low (low + 256 ^ bytes)) := by
  intro x hx y hy hencoded
  have hpos : (0 : ℤ) < 256 ^ bytes := by positivity
  have hcast : ∀ value : ℤ, ((value.emod (256 ^ bytes)).toNat : ℤ) = value % 256 ^ bytes :=
    fun value => Int.toNat_of_nonneg (Int.emod_nonneg value hpos.ne')
  have hbound : ∀ value : ℤ, (value.emod (256 ^ bytes)).toNat < 256 ^ bytes := by
    intro value
    have hlt := Int.emod_lt_of_pos value hpos
    rw [← hcast] at hlt
    exact_mod_cast hlt
  have hresidue : (x.emod (256 ^ bytes)).toNat = (y.emod (256 ^ bytes)).toNat := by
    refine eq_of_digits (hbound x) (hbound y) fun i hi => ?_
    have hdigit := List.map_inj_left.mp hencoded i (List.mem_reverse.mpr (List.mem_range.mpr hi))
    have hdigit' := congrArg UInt8.toNat hdigit
    rwa [UInt8.toNat_ofNat_of_lt' (Nat.mod_lt _ (by decide)),
      UInt8.toNat_ofNat_of_lt' (Nat.mod_lt _ (by decide))] at hdigit'
  have hmod : x % 256 ^ bytes = y % 256 ^ bytes := by rw [← hcast, ← hcast, hresidue]
  have hdvd : (256 ^ bytes : ℤ) ∣ x - y := Int.dvd_of_emod_eq_zero
    (Int.emod_eq_emod_iff_emod_sub_eq_zero.mp hmod)
  have hclose : |x - y| < 256 ^ bytes := by
    obtain ⟨hlow, hhigh⟩ := hx
    obtain ⟨hlow', hhigh'⟩ := hy
    rw [abs_lt]
    constructor <;> omega
  exact sub_eq_zero.mp (Int.eq_zero_of_abs_lt_dvd hdvd hclose)

theorem toBeBytes_selfDelimiting {w : Word} {bytes : ℕ} (hwidth : w.max + 1 = w.min + 256 ^ bytes) :
    SelfDelimiting (Set.Icc w.min w.max) (toBeBytes bytes) := by
  have hrange : Set.Icc w.min w.max ⊆ Set.Ico w.min (w.min + 256 ^ bytes) :=
    fun value hfits => ⟨hfits.1, hwidth ▸ Int.lt_add_one_of_le hfits.2⟩
  exact .of_length (fun value _ => length_toBeBytes bytes value)
    ((toBeBytes_injOn bytes w.min).mono hrange)

theorem i128_bytes : SelfDelimiting (Set.Icc i128.min i128.max) (toBeBytes 16) :=
  toBeBytes_selfDelimiting (by decide)

theorem u64_bytes : SelfDelimiting (Set.Icc u64.min u64.max) (toBeBytes 8) :=
  toBeBytes_selfDelimiting (by decide)

theorem u32_bytes : SelfDelimiting (Set.Icc u32.min u32.max) (toBeBytes 4) :=
  toBeBytes_selfDelimiting (by decide)

end CoralSwap.LpToken
