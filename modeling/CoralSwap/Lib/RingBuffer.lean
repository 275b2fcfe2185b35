import Mathlib.Data.List.DropRight
import Mathlib.Tactic

/-!
# Ring buffers

A ring buffer of fixed capacity whose slots are allocated one at a time. The live values start at `head`
and wrap around; dropping the oldest leaves its slot behind for a later push.
-/

structure RingBuffer (α : Type*) where
  slots : List α
  head : ℕ
  count : ℕ
  deriving DecidableEq, Repr

namespace RingBuffer

variable {α : Type*} (capacity : ℕ)

def empty : RingBuffer α := ⟨[], 0, 0⟩

/-- The live value at an index, the oldest at zero. -/
def sample (b : RingBuffer α) (index : ℕ) : Option α :=
  if b.count ≤ index then none else b.slots[(b.head + index) % capacity]?

/-- Appends a value, in place of the oldest one once the ring is full. Nothing comes back if the slot to
overwrite does not exist. -/
def push (b : RingBuffer α) (x : α) : Option (RingBuffer α) :=
  if b.count < capacity then
    let index := (b.head + b.count) % capacity
    if index < b.slots.length then
      some { slots := b.slots.set index x, head := b.head, count := b.count + 1 }
    else some { slots := b.slots ++ [x], head := b.head, count := b.count + 1 }
  else if b.head < b.slots.length then
    some { slots := b.slots.set b.head x, head := (b.head + 1) % capacity, count := b.count }
  else none

def dropOldest (b : RingBuffer α) : RingBuffer α :=
  { slots := b.slots, head := (b.head + 1) % capacity, count := b.count - 1 }

def map {β : Type*} (f : α → β) (b : RingBuffer α) : RingBuffer β := ⟨b.slots.map f, b.head, b.count⟩

theorem sample_map {β : Type*} (f : α → β) (b : RingBuffer α) (index : ℕ) :
    (b.map f).sample capacity index = (b.sample capacity index).map f := by
  by_cases hlive : b.count ≤ index
  · rw [sample, sample, map, if_pos hlive, if_pos hlive, Option.map_none]
  · rw [sample, sample, map, if_neg hlive, if_neg hlive, List.getElem?_map]

/-- The ring holds the values of a list, oldest first. While slots are still being allocated, the live
values end where the slots do. -/
structure Holds (b : RingBuffer α) (live : List α) : Prop where
  count_eq : b.count = live.length
  count_le : live.length ≤ capacity
  head_lt : b.head < capacity
  slots_le : b.slots.length ≤ capacity
  growing : b.slots.length < capacity → b.head + b.count = b.slots.length
  sample_eq : ∀ index, b.sample capacity index = live[index]?

variable {capacity} {b : RingBuffer α} {live : List α} {i j : ℕ}

/-! ### The newest values of a list -/

section Newest

variable {l : List α} {n : ℕ} {p : α → Bool}

theorem rtake_of_length_le (hle : l.length ≤ n) : l.rtake n = l := by
  rw [List.rtake, Nat.sub_eq_zero_of_le hle, List.drop_zero]

theorem rtake_cons_of_le (x : α) (hle : n ≤ l.length) : (x :: l).rtake n = l.rtake n := by
  rw [List.rtake, List.rtake, List.length_cons, Nat.succ_sub hle, List.drop_succ_cons]

theorem rtake_suffix (l : List α) (n : ℕ) : l.rtake n <:+ l := List.drop_suffix _ l

theorem length_rtake (l : List α) (n : ℕ) : (l.rtake n).length = min n l.length := by
  rw [List.rtake, List.length_drop]
  omega

theorem rtake_rtake_concat (l : List α) (n : ℕ) (x : α) :
    (l.rtake n ++ [x]).rtake n = (l ++ [x]).rtake n := by
  cases n with
  | zero => rw [List.rtake_zero, List.rtake_zero]
  | succ n =>
      rw [List.rtake_concat_succ, List.rtake_concat_succ, List.rtake_eq_reverse_take_reverse,
        List.rtake_eq_reverse_take_reverse, List.rtake_eq_reverse_take_reverse, List.reverse_reverse,
        List.take_take, Nat.min_eq_left (Nat.le_succ n)]

/-- Once a value passes, every later one does: dropping from the front is filtering. -/
theorem dropWhile_eq_filter (hlater : l.Pairwise fun x y => p x = true → p y = true) :
    l.dropWhile (fun x => !p x) = l.filter p := by
  induction hlater with
  | nil => rfl
  | @cons x l hx _ ih =>
      by_cases hpass : p x = true
      · rw [List.dropWhile_cons_of_neg (by simp [hpass]), List.filter_cons_of_pos hpass,
          List.filter_eq_self.mpr fun y hy => hx y hy hpass]
      · rw [List.dropWhile_cons_of_pos (by simp [hpass]), List.filter_cons_of_neg hpass, ih]

theorem filter_rtake (hlater : l.Pairwise fun x y => p x = true → p y = true) (n : ℕ) :
    (l.rtake n).filter p = (l.filter p).rtake n := by
  induction hlater with
  | nil => rw [List.filter_nil, List.rtake_nil, List.filter_nil]
  | @cons x l hx _ ih =>
      rcases le_or_gt n l.length with hfull | hroom
      · rw [rtake_cons_of_le x hfull, ih]
        by_cases hpass : p x = true
        · rw [List.filter_cons_of_pos hpass, List.filter_eq_self.mpr fun y hy => hx y hy hpass,
            rtake_cons_of_le x hfull]
        · rw [List.filter_cons_of_neg hpass]
      · have hle : ((x :: l).filter p).length ≤ n := (List.length_filter_le p _).trans hroom
        rw [rtake_of_length_le hroom, rtake_of_length_le hle]

end Newest

/-! ### What a ring holds -/

theorem offset_ne (head : ℕ) (hi : i < capacity) (hj : j < capacity) (hne : i ≠ j) :
    (head + i) % capacity ≠ (head + j) % capacity := by
  intro hsame
  have hmod : i % capacity = j % capacity := Nat.ModEq.add_left_cancel' head hsame
  rw [Nat.mod_eq_of_lt hi, Nat.mod_eq_of_lt hj] at hmod
  exact hne hmod

theorem offset_succ (head i : ℕ) : ((head + 1) % capacity + i) % capacity = (head + (i + 1)) % capacity := by
  rw [Nat.mod_add_mod, add_assoc, add_comm 1]

theorem Holds.empty (hcapacity : 0 < capacity) : (empty : RingBuffer α).Holds capacity [] where
  count_eq := rfl
  count_le := Nat.zero_le _
  head_lt := hcapacity
  slots_le := Nat.zero_le _
  growing := fun _ => rfl
  sample_eq := fun _ => rfl

/-- Every live index is a slot. -/
theorem Holds.slot_lt (hholds : b.Holds capacity live) (hi : i < b.count) :
    (b.head + i) % capacity < b.slots.length := by
  have hsample := hholds.sample_eq i
  have hlive : i < live.length := hholds.count_eq ▸ hi
  rw [sample, if_neg (not_le.mpr hi), List.getElem?_eq_getElem hlive] at hsample
  exact (List.getElem?_eq_some_iff.mp hsample).1

/-- The slot after the newest value is allocated, or is the next one to allocate. -/
theorem Holds.next_slot (hholds : b.Holds capacity live) (hroom : b.count < capacity) :
    (b.head + b.count) % capacity ≤ b.slots.length := by
  rcases hholds.slots_le.lt_or_eq with hshort | hfull
  · rw [hholds.growing hshort, Nat.mod_eq_of_lt hshort]
  · rw [hfull]
    exact (Nat.mod_lt _ (by omega)).le

/-- A write to the slot after the newest value appends it. -/
theorem sample_append {slots : List α} {x : α} {index : ℕ} (hholds : b.Holds capacity live)
    (hroom : b.count < capacity) (hnew : slots[(b.head + b.count) % capacity]? = some x)
    (hold : ∀ slot, slot < b.slots.length → slot ≠ (b.head + b.count) % capacity →
      slots[slot]? = b.slots[slot]?) :
    (⟨slots, b.head, b.count + 1⟩ : RingBuffer α).sample capacity index = (live ++ [x])[index]? := by
  have hlength := hholds.count_eq
  rcases lt_trichotomy index b.count with hlt | rfl | hgt
  · have hkept := hold _ (hholds.slot_lt hlt) (offset_ne b.head (by omega) hroom hlt.ne)
    have hsample := hholds.sample_eq index
    rw [sample, if_neg (by omega)] at hsample
    rw [sample, if_neg (by simp only; omega), hkept, hsample, List.getElem?_append_left (by omega)]
  · rw [sample, if_neg (by simp only; omega), hnew, hlength, List.getElem?_concat_length]
  · rw [sample, if_pos (by simp only; omega), List.getElem?_eq_none]
    rw [List.length_append, List.length_singleton]
    omega

theorem Holds.push_of_lt (hholds : b.Holds capacity live) (hroom : live.length < capacity) (x : α) :
    ∃ b', b.push capacity x = some b' ∧ b'.Holds capacity (live ++ [x]) := by
  have hcount : b.count < capacity := hholds.count_eq ▸ hroom
  have hlength : (live ++ [x]).length = b.count + 1 := by
    rw [List.length_append, List.length_singleton, hholds.count_eq]
  set slot := (b.head + b.count) % capacity with hslot
  rw [push, if_pos hcount]
  by_cases hallocated : slot < b.slots.length
  · refine ⟨_, if_pos hallocated, hlength.symm, by omega, hholds.head_lt, ?_, ?_, fun index => ?_⟩
    · rw [List.length_set]
      exact hholds.slots_le
    · intro hshort
      rw [List.length_set] at hshort
      have hend := hholds.growing hshort
      rw [hslot, hend, Nat.mod_eq_of_lt hshort] at hallocated
      exact absurd hallocated (lt_irrefl _)
    · refine sample_append hholds hcount (List.getElem?_set_self hallocated) ?_
      intro other _ hne
      exact List.getElem?_set_ne hne.symm
  · have hend : slot = b.slots.length := le_antisymm (hholds.next_slot hcount) (not_lt.mp hallocated)
    have hlt : slot < capacity := Nat.mod_lt _ (by omega)
    refine ⟨_, if_neg hallocated, hlength.symm, by omega, hholds.head_lt, ?_, ?_, fun index => ?_⟩
    · rw [List.length_append, List.length_singleton]
      omega
    · intro _
      rw [List.length_append, List.length_singleton, ← add_assoc, hholds.growing (by omega)]
    · refine sample_append hholds hcount ?_ ?_
      · rw [← hslot, hend, List.getElem?_concat_length]
      · intro other hother _
        exact List.getElem?_append_left hother

theorem Holds.push_of_full (hholds : b.Holds capacity live) (hfull : live.length = capacity) (x : α) :
    ∃ b', b.push capacity x = some b' ∧ b'.Holds capacity (live.tail ++ [x]) := by
  have hcount : b.count = capacity := hholds.count_eq.trans hfull
  have hhead := hholds.head_lt
  have hallocated : b.head < b.slots.length := by
    have hfirst := hholds.slot_lt (i := 0) (by omega)
    rwa [add_zero, Nat.mod_eq_of_lt hhead] at hfirst
  rw [push, if_neg (by omega), if_pos hallocated]
  refine ⟨_, rfl, ?_, ?_, Nat.mod_lt _ (by omega), ?_, ?_, fun index => ?_⟩
  · rw [List.length_append, List.length_tail, List.length_singleton, hcount]
    omega
  · rw [List.length_append, List.length_tail, List.length_singleton]
    omega
  · rw [List.length_set]
    exact hholds.slots_le
  · intro hshort
    rw [List.length_set] at hshort
    have hend := hholds.growing hshort
    omega
  · have htail : live.tail.length = capacity - 1 := by rw [List.length_tail, hfull]
    rcases lt_trichotomy (index + 1) capacity with hlt | hlast | hgt
    · have hsample := hholds.sample_eq (index + 1)
      rw [sample, if_neg (by omega)] at hsample
      have hother : b.head ≠ (b.head + (index + 1)) % capacity := by
        have hne := offset_ne b.head (i := 0) (by omega) hlt (by omega)
        rwa [add_zero, Nat.mod_eq_of_lt hhead] at hne
      rw [sample, if_neg (by simp only; omega), offset_succ, List.getElem?_set_ne hother, hsample,
        List.getElem?_append_left (by omega), List.getElem?_tail]
    · have hback : (b.head + (index + 1)) % capacity = b.head := by
        rw [hlast, Nat.add_mod_right, Nat.mod_eq_of_lt hhead]
      rw [sample, if_neg (by simp only; omega), offset_succ, hback, List.getElem?_set_self hallocated]
      obtain rfl : index = live.tail.length := by omega
      rw [List.getElem?_concat_length]
    · rw [sample, if_pos (by simp only; omega), List.getElem?_eq_none]
      rw [List.length_append, List.length_singleton]
      omega

/-- **Pushes** keep the newest values, as many as the ring has room for. -/
theorem Holds.push (hholds : b.Holds capacity live) (x : α) :
    ∃ b', b.push capacity x = some b' ∧ b'.Holds capacity ((live ++ [x]).rtake capacity) := by
  rcases hholds.count_le.lt_or_eq with hroom | hfull
  · rw [rtake_of_length_le (by simpa using hroom)]
    exact hholds.push_of_lt hroom x
  · have hpos : 0 < live.length := hfull ▸ hholds.head_lt.pos
    have hlast : (live ++ [x]).rtake capacity = live.tail ++ [x] := by
      rw [List.rtake, List.length_append, List.length_singleton, ← hfull, Nat.add_sub_cancel_left,
        List.drop_append_of_le_length hpos, List.drop_one]
    rw [hlast]
    exact hholds.push_of_full hfull x

theorem Holds.dropOldest {x : α} (hholds : b.Holds capacity (x :: live)) :
    (b.dropOldest capacity).Holds capacity live := by
  have hcount := hholds.count_eq
  have hle := hholds.count_le
  rw [List.length_cons] at hcount hle
  refine ⟨?_, by omega, Nat.mod_lt _ (by omega), hholds.slots_le, ?_, fun index => ?_⟩
  · rw [RingBuffer.dropOldest, hcount, Nat.add_sub_cancel]
  · intro hshort
    have hend := hholds.growing hshort
    have hnext : (b.head + 1) % capacity = b.head + 1 := Nat.mod_eq_of_lt (by
      have : b.slots.length < capacity := hshort
      omega)
    rw [RingBuffer.dropOldest, hnext]
    show b.head + 1 + (b.count - 1) = b.slots.length
    omega
  · have hsample := hholds.sample_eq (index + 1)
    rw [List.getElem?_cons_succ] at hsample
    rw [← hsample, sample, sample, RingBuffer.dropOldest, offset_succ]
    exact if_congr (by simp only; omega) rfl rfl

end RingBuffer
