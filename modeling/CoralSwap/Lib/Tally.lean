import Mathlib.Data.Finset.Card
import Mathlib.Tactic

/-!
# Tallies

A store keeps at most one entry per key, and next to it a counter. The counter is exact when it is
the number of keys that have an entry; opening, overwriting and clearing an entry keep it exact as
long as they add one, nothing and take one.
-/

namespace Tally

variable {Key Entry : Type*} {entry : Key → Option Entry} {count : ℕ}

/-- Finitely many keys have an entry, and `count` is how many. -/
def Counts (entry : Key → Option Entry) (count : ℕ) : Prop :=
  ∃ keys : Finset Key, (∀ key, key ∈ keys ↔ (entry key).isSome = true) ∧ keys.card = count

theorem counts_empty : Counts (fun _ : Key => (none : Option Entry)) 0 :=
  ⟨∅, by simp, Finset.card_empty⟩

variable [DecidableEq Key]

theorem Counts.open_entry {key : Key} (hcounts : Counts entry count) (hnone : entry key = none)
    (stored : Entry) : Counts (Function.update entry key (some stored)) (count + 1) := by
  obtain ⟨keys, hkeys, rfl⟩ := hcounts
  have hnew : key ∉ keys := by
    rw [hkeys, hnone]
    exact Bool.false_ne_true
  refine ⟨insert key keys, fun other => ?_, Finset.card_insert_of_notMem hnew⟩
  by_cases hother : other = key
  · subst hother
    simp
  · simp [hother, hkeys]

theorem Counts.overwrite {key : Key} {stored : Entry} (hcounts : Counts entry count)
    (hstored : entry key = some stored) (replacement : Entry) :
    Counts (Function.update entry key (some replacement)) count := by
  obtain ⟨keys, hkeys, rfl⟩ := hcounts
  refine ⟨keys, fun other => ?_, rfl⟩
  by_cases hother : other = key
  · subst hother
    simp [hkeys, hstored]
  · simp [hother, hkeys]

theorem Counts.clear {key : Key} {stored : Entry} (hcounts : Counts entry count)
    (hstored : entry key = some stored) : Counts (Function.update entry key none) (count - 1) := by
  obtain ⟨keys, hkeys, rfl⟩ := hcounts
  have hmem : key ∈ keys := by
    rw [hkeys, hstored]
    rfl
  refine ⟨keys.erase key, fun other => ?_, Finset.card_erase_of_mem hmem⟩
  by_cases hother : other = key
  · subst hother
    simp
  · simp [hother, hkeys]

end Tally
