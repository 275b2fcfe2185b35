import Mathlib.Data.List.Dedup
import Mathlib.Data.List.Nodup
import Mathlib.Tactic

/-!
# Majorities

A quorum of a list of members is a list of distinct members longer than half of it. Two quorums share a
member, also where the members are listed with repetitions; repetitions can leave no quorum at all.
-/

namespace Majority

variable {Member : Type*} {members first second votes : List Member}

structure Quorum (members votes : List Member) : Prop where
  nodup : votes.Nodup
  subset : votes ⊆ members
  half : members.length < 2 * votes.length

theorem Quorum.inter (hfirst : Quorum members first) (hsecond : Quorum members second) :
    ∃ voter, voter ∈ first ∧ voter ∈ second := by
  by_contra hnone
  have hdisjoint : List.Disjoint first second := fun voter hvoter hvoter' =>
    hnone ⟨voter, hvoter, hvoter'⟩
  have hnodup : (first ++ second).Nodup := hfirst.nodup.append hsecond.nodup hdisjoint
  have hsubset : first ++ second ⊆ members := List.append_subset.mpr ⟨hfirst.subset, hsecond.subset⟩
  have hlength := (hnodup.subperm hsubset).length_le
  rw [List.length_append] at hlength
  have hhalf := hfirst.half
  have hhalf' := hsecond.half
  omega

variable [DecidableEq Member]

theorem Quorum.length_le_dedup (hquorum : Quorum members votes) :
    votes.length ≤ members.dedup.length := by
  refine (hquorum.nodup.subperm fun voter hvoter => ?_).length_le
  exact List.mem_dedup.mpr (hquorum.subset hvoter)

/-- A quorum whose voters all meet `p` finds a majority of the members that do. -/
theorem Quorum.half_of_filter {p : Member → Bool} (hquorum : Quorum members votes)
    (hvotes : ∀ voter ∈ votes, p voter = true) : members.length < 2 * (members.dedup.filter p).length := by
  have hsubset : votes ⊆ members.dedup.filter p := fun voter hvoter =>
    List.mem_filter.mpr ⟨List.mem_dedup.mpr (hquorum.subset hvoter), hvotes voter hvoter⟩
  have hle := (hquorum.nodup.subperm hsubset).length_le
  have hhalf := hquorum.half
  omega

/-- There is a quorum exactly when the distinct members are one. -/
theorem exists_quorum_iff :
    (∃ votes, Quorum members votes) ↔ members.length < 2 * members.dedup.length := by
  constructor
  · rintro ⟨votes, hquorum⟩
    have hle := hquorum.length_le_dedup
    have hhalf := hquorum.half
    omega
  · intro hhalf
    exact ⟨members.dedup, members.nodup_dedup, members.dedup_subset, hhalf⟩

end Majority
