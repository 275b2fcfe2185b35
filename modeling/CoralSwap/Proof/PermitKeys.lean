import CoralSwap.LpToken

/-!
# The key a permit is verified under

The encoding of an account is a header and the account's public key. `permit` verifies under the first
32 bytes of the encoding, which are the header and the front of the key.
-/

namespace CoralSwap.LpToken

open Host Host.Call

variable {Address : Type} [DecidableEq Address]

/-- A permit that goes through exactly on the signatures of the key `publicKey`, and then grants what was
signed and counts the nonce up. -/
structure HonoursKey (env : LpEnv Address) (t : LpToken Address) (owner spender : Address) (amount : ℤ)
    (deadline : ℕ) (signature publicKey : List UInt8) : Prop where
  accepted : (∃ t', permit env t owner spender amount deadline signature = .ok t') ↔
    env.crypto.ed25519Verify publicKey (permitDigest env.crypto owner spender amount (t.nonce owner) deadline)
      signature = true
  granted : ∀ t', permit env t owner spender amount deadline signature = .ok t' →
    t'.allowance owner spender = some ⟨amount, deadline⟩ ∧ t'.nonce owner = t.nonce owner + 1

variable {env : LpEnv Address} {t t' : LpToken Address} {owner spender : Address} {amount : ℤ} {deadline : ℕ}
variable {signature header publicKey : List UInt8}

theorem permit_eq_ok (hdeadline : env.sequence ≤ deadline) (hlength : 32 ≤ (env.crypto.toXdr owner).length) :
    permit env t owner spender amount deadline signature = .ok t' ↔
      (env.crypto.ed25519Verify ((env.crypto.toXdr owner).take 32)
          (permitDigest env.crypto owner spender amount (t.nonce owner) deadline) signature = true ∧
        (t.nonce owner : ℤ) < u64.max) ∧
      { t.writeAllowance owner spender (some ⟨amount, deadline⟩) with
        nonce := Function.update t.nonce owner (t.nonce owner + 1) } = t' := by
  have hnext : ((t.nonce owner : ℤ) + 1).toNat = t.nonce owner + 1 := by omega
  simp only [permit, bind_eq_ok, require_eq_ok, failIf_eq_ok, orTrap_eq_ok, pure_eq_ok, Word.checkedAdd_eq_some,
    exists_const, and_assoc, exists_and_left, exists_eq_left', not_lt, hnext]
  constructor
  · rintro ⟨-, -, hverify, -, hfits, hresult⟩
    exact ⟨hverify, Int.lt_of_add_one_le hfits, hresult⟩
  · rintro ⟨hverify, hlt, hresult⟩
    have hmin : u64.min = 0 := rfl
    exact ⟨hdeadline, hlength, hverify, by omega, Int.add_one_le_of_lt hlt, hresult⟩

theorem granted_of_permit (hdeadline : env.sequence ≤ deadline) (hlength : 32 ≤ (env.crypto.toXdr owner).length)
    (hpermit : permit env t owner spender amount deadline signature = .ok t') :
    t'.allowance owner spender = some ⟨amount, deadline⟩ ∧ t'.nonce owner = t.nonce owner + 1 := by
  obtain ⟨-, rfl⟩ := (permit_eq_ok hdeadline hlength).mp hpermit
  refine ⟨?_, Function.update_self _ _ _⟩
  show Function.update t.allowance owner _ owner spender = _
  rw [Function.update_self, Function.update_self]

/-- A permit honours the signatures of the owner's key if and only if the verdict under the first 32 bytes of
the encoding, with a nonce left to count up, is the verdict under the key. -/
theorem permit_honours_iff (hdeadline : env.sequence ≤ deadline)
    (hxdr : env.crypto.toXdr owner = header ++ publicKey) (hkey : publicKey.length = 32) :
    HonoursKey env t owner spender amount deadline signature publicKey ↔
      ((env.crypto.ed25519Verify ((header ++ publicKey).take 32)
          (permitDigest env.crypto owner spender amount (t.nonce owner) deadline) signature = true ∧
        (t.nonce owner : ℤ) < u64.max) ↔
      env.crypto.ed25519Verify publicKey
        (permitDigest env.crypto owner spender amount (t.nonce owner) deadline) signature = true) := by
  have hlength : 32 ≤ (env.crypto.toXdr owner).length := by
    rw [hxdr, List.length_append, hkey]
    omega
  have haccepted : (∃ t', permit env t owner spender amount deadline signature = .ok t') ↔
      env.crypto.ed25519Verify ((header ++ publicKey).take 32)
          (permitDigest env.crypto owner spender amount (t.nonce owner) deadline) signature = true ∧
        (t.nonce owner : ℤ) < u64.max := by
    simp only [permit_eq_ok hdeadline hlength, hxdr, exists_and_left, exists_eq', and_true]
  constructor
  · intro hhonours
    exact haccepted.symm.trans hhonours.accepted
  · intro hverdict
    exact ⟨haccepted.trans hverdict, fun t' hpermit => granted_of_permit hdeadline hlength hpermit⟩

/-! ### An account with a header of eight bytes -/

/-- The key of account `who` is its number 32 times over, and a signature is the key followed by what is
signed. -/
def accountCrypto : Crypto ℕ where
  toXdr := fun who => List.replicate 8 0 ++ List.replicate 32 (UInt8.ofNat who)
  sha256 := fun bytes => bytes.drop 80
  ed25519Verify := fun key digest signature => key ++ digest == signature

def accountEnv : LpEnv ℕ := ⟨5, fun _ => false, accountCrypto⟩

def accountKey : List UInt8 := List.replicate 32 1

/-- Account 1 signs with its own key that account 2 may spend 2500 until ledger 100. -/
def ownSignature : List UInt8 := accountKey ++ permitDigest accountCrypto 1 2 2500 0 100

/-- The owner's own signature is refused. -/
theorem permit_refuses_owner :
    accountCrypto.toXdr 1 = List.replicate 8 0 ++ accountKey ∧
      accountCrypto.ed25519Verify accountKey (permitDigest accountCrypto 1 2 2500 0 100) ownSignature = true ∧
      permit accountEnv (fresh 10) 1 2 2500 100 ownSignature = .error .trap ∧
      ¬HonoursKey accountEnv (fresh 10) 1 2 2500 100 ownSignature accountKey := by
  have hverify : accountCrypto.ed25519Verify accountKey (permitDigest accountCrypto 1 2 2500 0 100) ownSignature =
      true := by decide +kernel
  have hrefused : permit accountEnv (fresh 10) 1 2 2500 100 ownSignature = .error .trap := rfl
  refine ⟨rfl, hverify, hrefused, fun hhonours => ?_⟩
  obtain ⟨t', hpermit⟩ := hhonours.accepted.mpr hverify
  rw [hrefused] at hpermit
  cases hpermit

/-- A signature that is neither of the two keys' is refused, as it should be. -/
theorem permit_honours_forged :
    HonoursKey accountEnv (fresh 10) 1 2 2500 100 [] accountKey :=
  (permit_honours_iff (by decide) (show accountEnv.crypto.toXdr 1 = List.replicate 8 0 ++ accountKey from rfl)
    (by decide)).mpr (by decide +kernel)

end CoralSwap.LpToken
