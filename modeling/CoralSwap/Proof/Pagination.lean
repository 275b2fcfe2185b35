import CoralSwap.Factory.Registry

/-!
# Pages of the pair list

A page is a stretch of the list, and pages read one after the other are the list. The end of a page is
added up in 32 bits before it is clamped to the list, so a page fails where its end does not fit.
-/

namespace CoralSwap.FactoryContract

open Host Host.Call

variable {Address : Type} {f : FactoryContract Address} {offset limit : ℕ}

theorem collectPairs_eq (list : List Address) (first n : ℕ) (hfits : first + n ≤ list.length) :
    collectPairs list first (first + n) = .ok ((list.drop first).take n) := by
  unfold collectPairs
  rw [Nat.add_sub_cancel_left]
  suffices hfrom : ∀ taken : List Address,
      (List.range' first n).foldlM (fun result i => do
        let pair ← orTrap list[i]?
        pure (result ++ [pair])) taken = (.ok (taken ++ (list.drop first).take n) : Call FactoryError _) from
    hfrom []
  induction n generalizing first with
  | zero =>
      intro taken
      rw [List.take_zero, List.append_nil]
      rfl
  | succ n ih =>
      intro taken
      have hfirst : first < list.length := by omega
      have hpage : (list.drop first).take (n + 1) = list[first] :: (list.drop (first + 1)).take n := by
        rw [List.drop_eq_getElem_cons hfirst, List.take_succ_cons]
      rw [List.range'_succ, List.foldlM_cons, List.getElem?_eq_getElem hfirst, hpage]
      show List.foldlM _ (taken ++ [list[first]]) _ = _
      rw [ih (first + 1) (by omega), List.append_assoc]
      rfl

theorem getAllPairs_of_fits (hlimit : limit ≤ 50) (hfits : ((offset + limit : ℕ) : ℤ) ≤ u32.max) :
    f.getAllPairs offset limit = .ok ((f.pairList.drop offset).take limit) := by
  have hlast : u32.checkedAdd offset limit = some ((offset + limit : ℕ) : ℤ) := by
    refine Word.checkedAdd_eq_some.mpr ⟨⟨?_, ?_⟩, ?_⟩
    · exact add_nonneg (Int.natCast_nonneg _) (Int.natCast_nonneg _)
    · exact_mod_cast hfits
    · exact (Nat.cast_add _ _).symm
  unfold getAllPairs
  rw [failIf, if_neg (by omega), hlast]
  show (if offset < f.pairList.length then _ else _) = _
  rw [Int.toNat_natCast]
  by_cases hstart : offset < f.pairList.length
  · rw [if_pos hstart]
    have hpage := collectPairs_eq f.pairList offset (min limit (f.pairList.length - offset)) (by omega)
    rw [show min (offset + limit) f.pairList.length = offset + min limit (f.pairList.length - offset) by omega, hpage,
      ← List.length_drop, ← List.take_eq_take_min]
  · rw [if_neg hstart, List.drop_eq_nil_of_le (not_lt.mp hstart), List.take_nil]
    rfl

theorem getAllPairs_of_not_fits (hlimit : limit ≤ 50) (hover : u32.max < ((offset + limit : ℕ) : ℤ)) :
    f.getAllPairs offset limit = .error .trap := by
  have hlast : u32.checkedAdd offset limit = none := by
    refine Word.checked_eq_none.mpr fun hfits => ?_
    rw [← Nat.cast_add] at hfits
    omega
  unfold getAllPairs
  rw [failIf, if_neg (by omega), hlast]
  rfl

theorem getAllPairs_iff (hlimit : limit ≤ 50) :
    f.getAllPairs offset limit = .ok ((f.pairList.drop offset).take limit) ↔
      ((offset + limit : ℕ) : ℤ) ≤ u32.max := by
  constructor
  · intro hpage
    by_contra hover
    rw [getAllPairs_of_not_fits hlimit (not_le.mp hover)] at hpage
    cases hpage
  · exact getAllPairs_of_fits hlimit

/-! ### Reading the whole list -/

/-- A reader that asks for one page after the other until one is empty. -/
def readPages (f : FactoryContract Address) (limit : ℕ) : ℕ → ℕ → Call FactoryError (List Address)
  | 0, _ => trap
  | fuel + 1, offset => do
      let page ← f.getAllPairs offset limit
      if page.isEmpty then pure []
      else do
        let rest ← f.readPages limit fuel (offset + limit)
        pure (page ++ rest)

/-- How many pages of the list are not empty. -/
def pageCount (f : FactoryContract Address) (limit : ℕ) : ℕ := (f.pairList.length + limit - 1) / limit

theorem lt_pageCount_iff (hpositive : 0 < limit) (page : ℕ) :
    page < f.pageCount limit ↔ page * limit < f.pairList.length := by
  unfold pageCount
  rw [Nat.lt_iff_add_one_le, Nat.le_div_iff_mul_le hpositive, Nat.add_one_mul]
  omega

theorem pageCount_le (hpositive : 0 < limit) : f.pageCount limit ≤ f.pairList.length := by
  by_contra hlt
  have hpage := (lt_pageCount_iff hpositive _).mp (not_le.mp hlt)
  exact absurd hpage (not_lt.mpr (Nat.le_mul_of_pos_right _ hpositive))

theorem readPages_of_fits (hlimit : limit ≤ 50) (hfits : ((offset + limit : ℕ) : ℤ) ≤ u32.max) (fuel : ℕ) :
    f.readPages limit (fuel + 1) offset =
      if ((f.pairList.drop offset).take limit).isEmpty then pure []
      else (do
        let rest ← f.readPages limit fuel (offset + limit)
        pure ((f.pairList.drop offset).take limit ++ rest)) := by
  rw [readPages, getAllPairs_of_fits hlimit hfits]
  rfl

theorem fits_of_readPages {pairs : List Address} {fuel : ℕ} (hlimit : limit ≤ 50)
    (hread : f.readPages limit (fuel + 1) offset = .ok pairs) : ((offset + limit : ℕ) : ℤ) ≤ u32.max := by
  by_contra hover
  rw [readPages, getAllPairs_of_not_fits hlimit (not_le.mp hover)] at hread
  cases hread

/-- **Pages in a row** are the rest of the list, if the last page that is asked for has an end. -/
theorem readPages_from (hpositive : 0 < limit) (hlimit : limit ≤ 50) (fuel page : ℕ)
    (hpage : page ≤ f.pageCount limit) (hfuel : f.pageCount limit < page + fuel) :
    f.readPages limit fuel (page * limit) = .ok (f.pairList.drop (page * limit)) ↔
      ((f.pageCount limit * limit + limit : ℕ) : ℤ) ≤ u32.max := by
  induction fuel generalizing page with
  | zero => omega
  | succ fuel ih =>
      rcases hpage.eq_or_lt with rfl | hlt
      · -- the empty page
        have hend : f.pairList.drop (f.pageCount limit * limit) = [] :=
          List.drop_eq_nil_of_le (not_lt.mp fun h => lt_irrefl _ ((lt_pageCount_iff hpositive _).mpr h))
        refine ⟨fits_of_readPages hlimit, fun hfits => ?_⟩
        rw [readPages_of_fits hlimit hfits, hend, List.take_nil]
        rfl
      · have hstart := (lt_pageCount_iff hpositive _).mp hlt
        have hnonempty : ((f.pairList.drop (page * limit)).take limit).isEmpty = false := by
          rw [List.isEmpty_eq_false_iff, ← List.length_pos_iff, List.length_take, List.length_drop]
          omega
        have hrest := ih (page + 1) hlt (by omega)
        rw [Nat.add_one_mul] at hrest
        have hjoin : f.pairList.drop (page * limit) =
            (f.pairList.drop (page * limit)).take limit ++ f.pairList.drop (page * limit + limit) := by
          rw [← List.drop_drop, List.take_append_drop]
        constructor
        · intro hread
          have hfits := fits_of_readPages hlimit hread
          rw [readPages_of_fits hlimit hfits, hnonempty, if_neg Bool.false_ne_true] at hread
          simp only [bind_eq_ok, pure_eq_ok] at hread
          obtain ⟨rest, hread, happend⟩ := hread
          rw [← hrest, ← List.append_cancel_left (happend.trans hjoin)]
          exact hread
        · intro hfits
          have hle : (page + 1) * limit ≤ f.pageCount limit * limit := Nat.mul_le_mul_right limit hlt
          rw [Nat.add_one_mul] at hle
          rw [readPages_of_fits hlimit (by omega), hnonempty, if_neg Bool.false_ne_true, hrest.mpr hfits]
          exact congrArg Except.ok hjoin.symm

/-- A page is the stretch of the list it stands for if and only if its end fits 32 bits, and reading page
after page yields the whole list if and only if the end of the empty page does. -/
theorem getAllPairs_covers_iff (f : FactoryContract Address) (limit : ℕ) (hlimit : limit ≤ 50) :
    (∀ offset, f.getAllPairs offset limit = .ok ((f.pairList.drop offset).take limit) ↔
      ((offset + limit : ℕ) : ℤ) ≤ u32.max) ∧
    (0 < limit → ∀ fuel, f.pairList.length < fuel →
      (f.readPages limit fuel 0 = .ok f.pairList ↔ ((f.pageCount limit * limit + limit : ℕ) : ℤ) ≤ u32.max)) := by
  refine ⟨fun offset => getAllPairs_iff hlimit, fun hpositive fuel hfuel => ?_⟩
  have hcount := pageCount_le (f := f) hpositive
  have hread := readPages_from (f := f) hpositive hlimit fuel 0 (Nat.zero_le _) (by omega)
  rw [Nat.zero_mul, List.drop_zero] at hread
  exact hread

/-- At the end of `u32` an empty list has no page. -/
theorem getAllPairs_traps :
    (deployed : FactoryContract ℕ).getAllPairs 4294967295 1 = .error .trap ∧
      ¬(deployed : FactoryContract ℕ).getAllPairs 4294967295 1 =
        .ok (((deployed : FactoryContract ℕ).pairList.drop 4294967295).take 1) := by
  have htrap : (deployed : FactoryContract ℕ).getAllPairs 4294967295 1 = .error .trap :=
    getAllPairs_of_not_fits (by decide) (by decide)
  refine ⟨htrap, fun hpage => ?_⟩
  rw [htrap] at hpage
  cases hpage

/-- Three pairs, in pages of two. -/
theorem getAllPairs_covers_three :
    let f : FactoryContract ℕ := { deployed with pairList := [7, 8, 9] }
    f.getAllPairs 2 2 = .ok [9] ∧ f.readPages 2 4 0 = .ok [7, 8, 9] := by
  intro f
  obtain ⟨hpage, hread⟩ := getAllPairs_covers_iff f 2 (by decide)
  exact ⟨(hpage 2).mpr (by decide), (hread (by decide) 4 (by decide)).mpr (by decide)⟩

end CoralSwap.FactoryContract
