import Mathlib.Tactic

/-!
# Encodings that can be told apart

An encoding is self-delimiting if what follows an encoded value never blurs where the value ends. Encodings
no two of which are prefixes of each other are, and so are injective ones of a fixed length. Fields encoded
this way one after the other are again self-delimiting, so a concatenation of them determines every field.
-/

namespace Host.Encoding

variable {α β γ : Type} {valid : Set α} {valid' : Set β}
variable {encode : α → List γ} {encode' : β → List γ}

def SelfDelimiting (valid : Set α) (encode : α → List γ) : Prop :=
  ∀ x ∈ valid, ∀ y ∈ valid, ∀ xs ys, encode x ++ xs = encode y ++ ys → x = y ∧ xs = ys

def PrefixFree (encode : α → List γ) : Prop := ∀ x y, encode x <+: encode y → x = y

theorem SelfDelimiting.of_prefixFree (hfree : PrefixFree encode) (valid : Set α) :
    SelfDelimiting valid encode := by
  intro x _ y _ xs ys happend
  have hx : encode x <+: encode y ++ ys := ⟨xs, happend⟩
  have hy : encode y <+: encode y ++ ys := List.prefix_append _ _
  have heq : x = y := by
    rcases List.prefix_or_prefix_of_prefix hx hy with hprefix | hprefix
    · exact hfree x y hprefix
    · exact (hfree y x hprefix).symm
  subst heq
  exact ⟨rfl, List.append_cancel_left happend⟩

theorem SelfDelimiting.of_length {length : ℕ} (hlength : ∀ x ∈ valid, (encode x).length = length)
    (hinj : Set.InjOn encode valid) : SelfDelimiting valid encode := by
  intro x hx y hy xs ys happend
  obtain ⟨hencoded, hrest⟩ :=
    List.append_inj happend ((hlength x hx).trans (hlength y hy).symm)
  exact ⟨hinj hx hy hencoded, hrest⟩

theorem SelfDelimiting.append (hfirst : SelfDelimiting valid encode)
    (hsecond : SelfDelimiting valid' encode') :
    SelfDelimiting (valid ×ˢ valid') fun pair => encode pair.1 ++ encode' pair.2 := by
  rintro ⟨x, x'⟩ ⟨hx, hx'⟩ ⟨y, y'⟩ ⟨hy, hy'⟩ xs ys happend
  rw [List.append_assoc, List.append_assoc] at happend
  obtain ⟨heq, hrest⟩ := hfirst x hx y hy _ _ happend
  obtain ⟨heq', hrest'⟩ := hsecond x' hx' y' hy' _ _ hrest
  exact ⟨Prod.ext heq heq', hrest'⟩

theorem SelfDelimiting.injOn (hdelimited : SelfDelimiting valid encode) : Set.InjOn encode valid := by
  intro x hx y hy hencoded
  have happend : encode x ++ [] = encode y ++ [] := by rw [hencoded]
  exact (hdelimited x hx y hy [] [] happend).1

/-- A number below `base ^ width` is determined by its `width` lowest digits. -/
theorem eq_of_digits {base : ℕ} {width x y : ℕ} (hx : x < base ^ width) (hy : y < base ^ width)
    (hdigits : ∀ i < width, x / base ^ i % base = y / base ^ i % base) : x = y := by
  induction width generalizing x y with
  | zero =>
      rw [pow_zero] at hx hy
      omega
  | succ width ih =>
      have hlow : x % base = y % base := by simpa using hdigits 0 (Nat.succ_pos _)
      have hhigh : x / base = y / base := by
        refine ih (Nat.div_lt_of_lt_mul ?_) (Nat.div_lt_of_lt_mul ?_) fun i hi => ?_
        · rwa [← pow_succ']
        · rwa [← pow_succ']
        · rw [Nat.div_div_eq_div_mul, Nat.div_div_eq_div_mul, ← pow_succ']
          exact hdigits (i + 1) (Nat.succ_lt_succ hi)
      calc
        x = base * (x / base) + x % base := (Nat.div_add_mod _ _).symm
        _ = base * (y / base) + y % base := by rw [hhigh, hlow]
        _ = y := Nat.div_add_mod _ _

end Host.Encoding
