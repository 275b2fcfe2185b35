import CoralSwap.Lib.Word

/-!
# Weighted means

The mean of integers with natural weights, rounded toward zero. A mean of nonnegative values lies between
the smallest and the largest of them.
-/

namespace WeightedMean

open Host

/-- Values with their weights, added up. -/
def total (pieces : List (ℤ × ℕ)) : ℤ := (pieces.map fun piece => piece.1 * (piece.2 : ℤ)).sum

def weight (pieces : List (ℤ × ℕ)) : ℕ := (pieces.map Prod.snd).sum

def mean (pieces : List (ℤ × ℕ)) : ℤ := (total pieces).tdiv (weight pieces)

variable {pieces : List (ℤ × ℕ)} {bound : ℤ}

@[simp]
theorem total_nil : total [] = 0 := rfl

@[simp]
theorem total_cons (piece : ℤ × ℕ) (pieces : List (ℤ × ℕ)) :
    total (piece :: pieces) = piece.1 * piece.2 + total pieces := List.sum_cons

@[simp]
theorem weight_nil : weight [] = 0 := rfl

@[simp]
theorem weight_cons (piece : ℤ × ℕ) (pieces : List (ℤ × ℕ)) :
    weight (piece :: pieces) = piece.2 + weight pieces := List.sum_cons

theorem total_append (first second : List (ℤ × ℕ)) : total (first ++ second) = total first + total second := by
  rw [total, List.map_append, List.sum_append]
  rfl

theorem mul_weight_le_total (hbound : ∀ piece ∈ pieces, bound ≤ piece.1) :
    bound * weight pieces ≤ total pieces := by
  induction pieces with
  | nil => simp
  | cons piece pieces ih =>
      have hhead : bound * piece.2 ≤ piece.1 * piece.2 :=
        mul_le_mul_of_nonneg_right (hbound piece List.mem_cons_self) (Int.natCast_nonneg _)
      have htail := ih fun other hother => hbound other (List.mem_cons_of_mem piece hother)
      rw [total_cons, weight_cons, Nat.cast_add, mul_add]
      exact add_le_add hhead htail

theorem total_le_mul_weight (hbound : ∀ piece ∈ pieces, piece.1 ≤ bound) :
    total pieces ≤ bound * weight pieces := by
  induction pieces with
  | nil => simp
  | cons piece pieces ih =>
      have hhead : piece.1 * piece.2 ≤ bound * piece.2 :=
        mul_le_mul_of_nonneg_right (hbound piece List.mem_cons_self) (Int.natCast_nonneg _)
      have htail := ih fun other hother => hbound other (List.mem_cons_of_mem piece hother)
      rw [total_cons, weight_cons, Nat.cast_add, mul_add]
      exact add_le_add hhead htail

theorem total_nonneg (hnonneg : ∀ piece ∈ pieces, 0 ≤ piece.1) : 0 ≤ total pieces := by
  simpa using mul_weight_le_total hnonneg

theorem total_le_of_suffix {later : List (ℤ × ℕ)} (hsuffix : later <:+ pieces)
    (hnonneg : ∀ piece ∈ pieces, 0 ≤ piece.1) : total later ≤ total pieces := by
  obtain ⟨earlier, rfl⟩ := hsuffix
  have hearlier : 0 ≤ total earlier := total_nonneg fun piece hpiece =>
    hnonneg piece (List.mem_append_left later hpiece)
  rw [total_append]
  omega

/-- Some value does not exceed the mean. -/
theorem exists_le_mean (hnonneg : ∀ piece ∈ pieces, 0 ≤ piece.1) (hweight : 0 < weight pieces) :
    ∃ piece ∈ pieces, piece.1 ≤ mean pieces := by
  by_contra hnone
  push Not at hnone
  have hlow : (mean pieces + 1) * weight pieces ≤ total pieces :=
    mul_weight_le_total fun piece hpiece => hnone piece hpiece
  have hfloor := (le_tdiv_iff (total_nonneg hnonneg) (by exact_mod_cast hweight)).mpr hlow
  exact absurd hfloor (not_le.mpr (lt_add_one _))

/-- Some value is not below the mean. -/
theorem exists_mean_le (hnonneg : ∀ piece ∈ pieces, 0 ≤ piece.1) (hweight : 0 < weight pieces) :
    ∃ piece ∈ pieces, mean pieces ≤ piece.1 := by
  by_contra hnone
  push Not at hnone
  have hcast : (0 : ℤ) < weight pieces := by exact_mod_cast hweight
  have hhigh : total pieces ≤ (mean pieces - 1) * weight pieces :=
    total_le_mul_weight fun piece hpiece => Int.le_sub_one_of_lt (hnone piece hpiece)
  have hfloor : mean pieces * weight pieces ≤ total pieces := tdiv_mul_le (total_nonneg hnonneg) hcast
  linarith

/-! ### Outliers -/

/-- The weight of the values that satisfy `p`. -/
def weightOf (p : ℤ → Bool) (pieces : List (ℤ × ℕ)) : ℕ := weight (pieces.filter fun piece => p piece.1)

@[simp]
theorem weightOf_nil (p : ℤ → Bool) : weightOf p [] = 0 := rfl

theorem weightOf_cons (p : ℤ → Bool) (piece : ℤ × ℕ) (pieces : List (ℤ × ℕ)) :
    weightOf p (piece :: pieces) = (if p piece.1 = true then piece.2 else 0) + weightOf p pieces := by
  unfold weightOf
  rw [List.filter_cons]
  split
  · rw [weight_cons]
  · rw [Nat.zero_add]

/-- The same values, with weights that are no larger. -/
abbrev Trims (trimmed pieces : List (ℤ × ℕ)) : Prop :=
  List.Forall₂ (fun part piece => part.1 = piece.1 ∧ part.2 ≤ piece.2) trimmed pieces

theorem Trims.refl (pieces : List (ℤ × ℕ)) : Trims pieces pieces :=
  List.forall₂_same.mpr fun _ _ => ⟨rfl, le_rfl⟩

theorem Trims.exists_mem {trimmed : List (ℤ × ℕ)} (htrims : Trims trimmed pieces) {part : ℤ × ℕ}
    (hpart : part ∈ trimmed) : ∃ piece ∈ pieces, part.1 = piece.1 := by
  induction htrims with
  | nil => cases hpart
  | @cons other piece _ _ hother _ ih =>
      rcases List.mem_cons.mp hpart with rfl | hpart
      · exact ⟨piece, List.mem_cons_self, hother.1⟩
      · obtain ⟨found, hfound, hsame⟩ := ih hpart
        exact ⟨found, List.mem_cons_of_mem piece hfound, hsame⟩

theorem Trims.weightOf_le (p : ℤ → Bool) {trimmed : List (ℤ × ℕ)} (htrims : Trims trimmed pieces) :
    weightOf p trimmed ≤ weightOf p pieces := by
  induction htrims with
  | nil => exact le_rfl
  | cons hpart _ ih =>
      obtain ⟨hvalue, hweight⟩ := hpart
      rw [weightOf_cons, weightOf_cons, hvalue]
      split
      · exact add_le_add hweight ih
      · exact add_le_add le_rfl ih

theorem weightOf_le_of_sublist (p : ℤ → Bool) {part : List (ℤ × ℕ)} (hsublist : part.Sublist pieces) :
    weightOf p part ≤ weightOf p pieces :=
  ((hsublist.filter _).map _).sum_le_sum fun _ _ => Nat.zero_le _

theorem total_le_of_outliers {high peak : ℤ} (hpeak : ∀ piece ∈ pieces, piece.1 ≤ peak) :
    total pieces ≤ high * weight pieces + (peak - high) * weightOf (high < ·) pieces := by
  induction pieces with
  | nil => simp
  | cons piece pieces ih =>
      have htail := ih fun other hother => hpeak other (List.mem_cons_of_mem piece hother)
      have hweight : (0 : ℤ) ≤ piece.2 := Int.natCast_nonneg _
      rw [total_cons, weight_cons, weightOf_cons, Nat.cast_add, Nat.cast_add, mul_add, mul_add]
      by_cases houtlier : high < piece.1
      · have hhead : piece.1 * (piece.2 : ℤ) ≤ peak * piece.2 :=
          mul_le_mul_of_nonneg_right (hpeak piece List.mem_cons_self) hweight
        rw [if_pos (decide_eq_true houtlier), sub_mul peak high (piece.2 : ℤ)]
        omega
      · have hhead : piece.1 * (piece.2 : ℤ) ≤ high * piece.2 :=
          mul_le_mul_of_nonneg_right (not_lt.mp houtlier) hweight
        rw [if_neg (by simpa using houtlier), Nat.cast_zero, mul_zero]
        omega

theorem le_total_of_outliers {low : ℤ} (hnonneg : ∀ piece ∈ pieces, 0 ≤ piece.1) :
    low * weight pieces ≤ total pieces + low * weightOf (· < low) pieces := by
  induction pieces with
  | nil => simp
  | cons piece pieces ih =>
      have htail := ih fun other hother => hnonneg other (List.mem_cons_of_mem piece hother)
      have hweight : (0 : ℤ) ≤ piece.2 := Int.natCast_nonneg _
      rw [total_cons, weight_cons, weightOf_cons, Nat.cast_add, Nat.cast_add, mul_add, mul_add]
      by_cases houtlier : piece.1 < low
      · have hhead : 0 ≤ piece.1 * (piece.2 : ℤ) := mul_nonneg (hnonneg piece List.mem_cons_self) hweight
        rw [if_pos (decide_eq_true houtlier)]
        omega
      · have hhead : low * (piece.2 : ℤ) ≤ piece.1 * piece.2 :=
          mul_le_mul_of_nonneg_right (not_lt.mp houtlier) hweight
        rw [if_neg (by simpa using houtlier), Nat.cast_zero, mul_zero]
        omega

/-- The mean exceeds a level by no more than the outliers above it can carry. -/
theorem mean_sub_le_of_outliers {high peak : ℤ} (hnonneg : ∀ piece ∈ pieces, 0 ≤ piece.1)
    (hweight : 0 < weight pieces) (hpeak : ∀ piece ∈ pieces, piece.1 ≤ peak) :
    (mean pieces - high) * weight pieces ≤ (peak - high) * weightOf (high < ·) pieces := by
  have hfloor : mean pieces * weight pieces ≤ total pieces :=
    tdiv_mul_le (total_nonneg hnonneg) (by exact_mod_cast hweight)
  have htotal : total pieces ≤ high * weight pieces + (peak - high) * weightOf (high < ·) pieces :=
    total_le_of_outliers hpeak
  rw [sub_mul]
  omega

/-- The mean falls short of a level by no more than the outliers below it take away, and the rounding. -/
theorem sub_mean_le_of_outliers {low : ℤ} (hnonneg : ∀ piece ∈ pieces, 0 ≤ piece.1)
    (hweight : 0 < weight pieces) :
    (low - mean pieces - 1) * weight pieces ≤ low * weightOf (· < low) pieces := by
  have hcast : (0 : ℤ) < weight pieces := by exact_mod_cast hweight
  have hfloor : total pieces < (mean pieces + 1) * weight pieces := by
    by_contra hle
    have hmean := (le_tdiv_iff (total_nonneg hnonneg) hcast).mpr (not_lt.mp hle)
    exact absurd hmean (not_le.mpr (lt_add_one _))
  have htotal : low * weight pieces ≤ total pieces + low * weightOf (· < low) pieces := le_total_of_outliers hnonneg
  have hexpand : (low - mean pieces - 1) * (weight pieces : ℤ) =
      low * weight pieces - (mean pieces + 1) * weight pieces := by ring
  omega

/-! ### Two values -/

/-- The mean of two values, the first of which has a part of the whole weight. -/
def blend (part whole first second : ℤ) : ℤ := (part * first + (whole - part) * second).tdiv whole

variable {part whole first second : ℤ}

theorem blend_eq_mean (hpart : 0 ≤ part) (hle : part ≤ whole) :
    blend part whole first second = mean [(first, part.toNat), (second, (whole - part).toNat)] := by
  have hrest : 0 ≤ whole - part := sub_nonneg.mpr hle
  unfold blend mean
  congr 1
  · simp only [total_cons, total_nil, Int.toNat_of_nonneg hpart, Int.toNat_of_nonneg hrest]
    ring
  · simp only [weight_cons, weight_nil, Nat.cast_add, Int.toNat_of_nonneg hpart, Int.toNat_of_nonneg hrest]
    simp

/-- A blend lies between its two values. -/
theorem blend_mem_uIcc (hpart : 0 ≤ part) (hle : part ≤ whole) (hwhole : 0 < whole) (hfirst : 0 ≤ first)
    (hsecond : 0 ≤ second) : blend part whole first second ∈ Set.uIcc first second := by
  have hnonneg : ∀ piece ∈ [(first, part.toNat), (second, (whole - part).toNat)], 0 ≤ piece.1 := by
    simp [hfirst, hsecond]
  have hweight : 0 < weight [(first, part.toNat), (second, (whole - part).toNat)] := by
    simp only [weight_cons, weight_nil]
    omega
  obtain ⟨low, hlow, hlowLe⟩ := exists_le_mean hnonneg hweight
  obtain ⟨high, hhigh, hleHigh⟩ := exists_mean_le hnonneg hweight
  rw [← blend_eq_mean hpart hle] at hlowLe hleHigh
  simp only [List.mem_cons, List.not_mem_nil, or_false] at hlow hhigh
  constructor
  · refine le_trans ?_ hlowLe
    rcases hlow with rfl | rfl
    · exact inf_le_left
    · exact inf_le_right
  · refine hleHigh.trans ?_
    rcases hhigh with rfl | rfl
    · exact le_sup_left
    · exact le_sup_right

theorem blend_mono {first' second' : ℤ} (hpart : 0 ≤ part) (hle : part ≤ whole) (hwhole : 0 < whole)
    (hfirst : first ≤ first') (hsecond : second ≤ second') :
    blend part whole first second ≤ blend part whole first' second' := by
  refine Int.tdiv_le_tdiv hwhole (add_le_add ?_ ?_)
  · exact mul_le_mul_of_nonneg_left hfirst hpart
  · exact mul_le_mul_of_nonneg_left hsecond (sub_nonneg.mpr hle)

end WeightedMean
