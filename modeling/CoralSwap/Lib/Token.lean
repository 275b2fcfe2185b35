import CoralSwap.Lib.Word
import Mathlib.Logic.Relation

/-!
# Standard tokens

A standard token keeps a balance per address. A transfer moves exactly its amount, a transfer to
oneself changes nothing, and no balance ever leaves `0 .. i128::MAX`. The range is part of the type,
so a ledger that breaks it cannot be built.
-/

namespace Host

structure Token (Address : Type) where
  balance : Address → ℤ
  nonneg : ∀ who, 0 ≤ balance who
  bounded : ∀ who, balance who ≤ i128.max

namespace Token

variable {Address : Type} [DecidableEq Address]

def moved (balance : Address → ℤ) (src dst : Address) (amount : ℤ) : Address → ℤ :=
  fun who =>
    if src = dst then balance who
    else if who = src then balance src - amount
    else if who = dst then balance dst + amount
    else balance who

def Movable (t : Token Address) (src dst : Address) (amount : ℤ) : Prop :=
  0 ≤ amount ∧ amount ≤ t.balance src ∧ (src ≠ dst → t.balance dst + amount ≤ i128.max)

instance (t : Token Address) (src dst : Address) (amount : ℤ) :
    Decidable (t.Movable src dst amount) :=
  inferInstanceAs (Decidable (_ ∧ _ ∧ _))

theorem moved_mem {t : Token Address} {src dst : Address} {amount : ℤ}
    (hmove : t.Movable src dst amount) (who : Address) :
    0 ≤ moved t.balance src dst amount who ∧ moved t.balance src dst amount who ≤ i128.max := by
  obtain ⟨hamount, hfunds, hroom⟩ := hmove
  have hnonneg := t.nonneg who
  have hbounded := t.bounded who
  unfold moved
  split_ifs with hself hsrc hdst
  · exact ⟨hnonneg, hbounded⟩
  · subst hsrc
    constructor <;> omega
  · subst hdst
    have := hroom hself
    constructor <;> omega
  · exact ⟨hnonneg, hbounded⟩

def transfer (t : Token Address) (src dst : Address) (amount : ℤ) : Option (Token Address) :=
  if hmove : t.Movable src dst amount then
    some
      { balance := moved t.balance src dst amount
        nonneg := fun who => (moved_mem hmove who).1
        bounded := fun who => (moved_mem hmove who).2 }
  else none

/-- A token whose whole supply has one holder. -/
def issued (holder : Address) (supply : ℤ) (hsupply : 0 ≤ supply ∧ supply ≤ i128.max) :
    Token Address where
  balance := fun who => if who = holder then supply else 0
  nonneg := by
    intro who
    split_ifs
    · exact hsupply.1
    · exact le_rfl
  bounded := by
    intro who
    split_ifs
    · exact hsupply.2
    · decide

variable {t t' : Token Address} {src dst who : Address} {amount : ℤ}

theorem transfer_eq_some (htransfer : t.transfer src dst amount = some t') :
    t.Movable src dst amount ∧ t'.balance = moved t.balance src dst amount := by
  unfold transfer at htransfer
  split at htransfer
  · rename_i hmove
    cases htransfer
    exact ⟨hmove, rfl⟩
  · cases htransfer

theorem amount_nonneg_of_transfer (htransfer : t.transfer src dst amount = some t') :
    0 ≤ amount :=
  (transfer_eq_some htransfer).1.1

theorem balance_self_of_transfer (htransfer : t.transfer src src amount = some t') :
    t'.balance who = t.balance who := by
  simp [(transfer_eq_some htransfer).2, moved]

theorem balance_src_of_transfer (htransfer : t.transfer src dst amount = some t')
    (hne : src ≠ dst) : t'.balance src = t.balance src - amount := by
  simp [(transfer_eq_some htransfer).2, moved, hne]

theorem balance_dst_of_transfer (htransfer : t.transfer src dst amount = some t')
    (hne : src ≠ dst) : t'.balance dst = t.balance dst + amount := by
  simp [(transfer_eq_some htransfer).2, moved, hne, hne.symm]

theorem sub_le_balance_src_of_transfer (htransfer : t.transfer src dst amount = some t') :
    t.balance src - amount ≤ t'.balance src := by
  have hamount := amount_nonneg_of_transfer htransfer
  by_cases hself : src = dst
  · subst hself
    rw [balance_self_of_transfer htransfer]
    omega
  · rw [balance_src_of_transfer htransfer hself]

theorem le_moved {balance : Address → ℤ} (hamount : 0 ≤ amount) (hne : who ≠ src) :
    balance who ≤ moved balance src dst amount who := by
  unfold moved
  split_ifs with hself hdst
  · exact le_rfl
  · subst hdst
    omega
  · exact le_rfl

theorem balance_le_of_transfer (htransfer : t.transfer src dst amount = some t')
    (hne : who ≠ src) : t.balance who ≤ t'.balance who := by
  obtain ⟨⟨hamount, -, -⟩, hmoved⟩ := transfer_eq_some htransfer
  rw [hmoved]
  exact le_moved hamount hne

/-! ### Sequences of transfers -/

/-- One transfer, by an address that may send. -/
def Sent (sends : Address → Prop) (t t' : Token Address) : Prop :=
  ∃ src dst amount, sends src ∧ t.transfer src dst amount = some t'

/-- Any number of transfers, each by an address that may send. -/
abbrev Moves (sends : Address → Prop) : Token Address → Token Address → Prop :=
  Relation.ReflTransGen (Sent sends)

variable {sends sends' : Address → Prop}

theorem Moves.transfer (hsends : sends src) (htransfer : t.transfer src dst amount = some t') :
    Moves sends t t' :=
  Relation.ReflTransGen.single ⟨src, dst, amount, hsends, htransfer⟩

theorem Moves.mono (himplies : ∀ who, sends who → sends' who) (hmoves : Moves sends t t') :
    Moves sends' t t' := by
  refine Relation.ReflTransGen.mono ?_ _ _ hmoves
  rintro before after ⟨src, dst, amount, hsends, htransfer⟩
  exact ⟨src, dst, amount, himplies src hsends, htransfer⟩

/-- Whoever may not send holds at least as much afterwards. -/
theorem balance_le_of_moves (hmoves : Moves sends t t') (hkept : ¬sends who) :
    t.balance who ≤ t'.balance who := by
  induction hmoves with
  | refl => exact le_rfl
  | tail _ hsent ih =>
      obtain ⟨src, dst, amount, hsends, htransfer⟩ := hsent
      refine ih.trans (balance_le_of_transfer htransfer ?_)
      rintro rfl
      exact hkept hsends

end Token

end Host
