import CoralSwap.Proof.IntegerBytes

/-!
# Permits across token contracts

A permit is signed over its owner, spender, amount and deadline, and over the nonce the contract holds
for the owner; the contract itself is not among the signed fields. Within one contract the nonce
grows, so a signature is used once. Another contract accepts it again exactly when its own nonce for
the owner is the one signed.
-/

namespace CoralSwap.LpToken

open Host Host.Call Host.Encoding

variable {Address : Type}

/-- A permit submitted to one of the token contracts, within the types of the entry point. -/
structure PermitCall (Address : Type) where
  token : Address
  sequence : ℕ
  auth : Address → Bool
  owner : Address
  spender : Address
  amount : ℤ
  deadline : ℕ
  signature : List UInt8
  amount_fits : i128.min ≤ amount ∧ amount ≤ i128.max
  deadline_fits : (deadline : ℤ) ≤ u32.max

/-- The token contracts of a ledger, by their addresses. -/
abbrev Tokens (Address : Type) := Address → LpToken Address

namespace PermitCall

variable (crypto : Crypto Address) (call : PermitCall Address)

def publicKey : List UInt8 := (crypto.toXdr call.owner).take 32

/-- What `permit_digest` hashes. -/
def bytes (nonce : ℕ) : List UInt8 :=
  crypto.toXdr call.owner ++ crypto.toXdr call.spender ++ toBeBytes 16 call.amount ++
    toBeBytes 8 nonce ++ toBeBytes 4 call.deadline

def digest (nonce : ℕ) : List UInt8 :=
  permitDigest crypto call.owner call.spender call.amount nonce call.deadline

theorem digest_eq (nonce : ℕ) : call.digest crypto nonce = crypto.sha256 (call.bytes crypto nonce) :=
  rfl

def Verifies (nonce : ℕ) : Prop :=
  crypto.ed25519Verify (call.publicKey crypto) (call.digest crypto nonce) call.signature = true

/-- The nonce the contract holds for the owner. -/
def nonceAt (tokens : Tokens Address) : ℕ := (tokens call.token).nonce call.owner

/-- The fields of a permit, with the nonce it is signed under. -/
structure SamePermit (x y : PermitCall Address) (n m : ℕ) : Prop where
  owner : x.owner = y.owner
  spender : x.spender = y.spender
  amount : x.amount = y.amount
  nonce : n = m
  deadline : x.deadline = y.deadline

/-- **Injectivity.** Among the permits of one owner the hashed bytes determine the permit. -/
theorem samePermit_of_bytes {crypto : Crypto Address} (hxdr : Function.Injective crypto.toXdr)
    {x y : PermitCall Address} {n m : ℕ} (hn : (n : ℤ) ≤ u64.max) (hm : (m : ℤ) ≤ u64.max)
    (howner : x.owner = y.owner) (hbytes : x.bytes crypto n = y.bytes crypto m) :
    SamePermit x y n m := by
  have hfields := i128_bytes.append (u64_bytes.append u32_bytes)
  have hmem : ∀ (call : PermitCall Address) (nonce : ℕ), (nonce : ℤ) ≤ u64.max →
      (call.amount, (nonce : ℤ), (call.deadline : ℤ)) ∈
        Set.Icc i128.min i128.max ×ˢ Set.Icc u64.min u64.max ×ˢ Set.Icc u32.min u32.max :=
    fun call nonce hnonce => ⟨call.amount_fits, ⟨Int.natCast_nonneg _, hnonce⟩,
      ⟨Int.natCast_nonneg _, call.deadline_fits⟩⟩
  rw [bytes, bytes, howner] at hbytes
  simp only [List.append_assoc, List.append_cancel_left_eq] at hbytes
  -- the integers end the bytes with a fixed length, so the spender's encoding is what precedes them
  obtain ⟨hspender, hrest⟩ := List.append_inj' hbytes (by
    simp only [List.length_append, length_toBeBytes])
  have heq := hfields.injOn (hmem x n hn) (hmem y m hm) hrest
  simp only [Prod.mk.injEq, Nat.cast_inj] at heq
  obtain ⟨hamount, hnonce, hdeadline⟩ := heq
  exact ⟨howner, hxdr hspender, hamount, hnonce, hdeadline⟩

end PermitCall

/-! ### The contracts -/

section Machine

variable [DecidableEq Address] (crypto : Crypto Address)

/-- The token contracts under permits: each call runs on one of them. -/
def permitMachine : Machine (Tokens Address) (PermitCall Address) LpTokenError where
  exec tokens call := do
    let token ← permit ⟨call.sequence, call.auth, crypto⟩ (tokens call.token) call.owner call.spender
      call.amount call.deadline call.signature
    pure (Function.update tokens call.token token)

/-- What `permit` checks. -/
structure Honoured (tokens : Tokens Address) (call : PermitCall Address) : Prop where
  in_time : call.sequence ≤ call.deadline
  key : 32 ≤ (crypto.toXdr call.owner).length
  signed : call.Verifies crypto (call.nonceAt tokens)
  next_fits : (call.nonceAt tokens : ℤ) + 1 ≤ u64.max

variable {crypto} {tokens tokens' : Tokens Address} {call : PermitCall Address}

theorem permitMachine_eq_ok :
    (permitMachine crypto).exec tokens call = .ok tokens' ↔
      Honoured crypto tokens call ∧
        tokens' = Function.update tokens call.token
          { (tokens call.token).writeAllowance call.owner call.spender
              (some ⟨call.amount, call.deadline⟩) with
            nonce := Function.update (tokens call.token).nonce call.owner
              (call.nonceAt tokens + 1) } := by
  have hnext : (call.nonceAt tokens + 1 : ℤ).toNat = call.nonceAt tokens + 1 := by omega
  have hlow : u64.min ≤ (call.nonceAt tokens : ℤ) + 1 := by
    have hmin : u64.min = 0 := rfl
    omega
  simp only [permitMachine, permit, bind_eq_ok, require_eq_ok, failIf_eq_ok, orTrap_eq_ok, pure_eq_ok,
    Word.checkedAdd_eq_some, exists_const, and_assoc, exists_and_left, exists_eq_left', not_lt]
  constructor
  · rintro ⟨hin, hkey, hsigned, -, hfits, hupdate⟩
    refine ⟨⟨hin, hkey, hsigned, hfits⟩, ?_⟩
    rw [← hnext]
    exact hupdate.symm
  · rintro ⟨⟨hin, hkey, hsigned, hfits⟩, hupdate⟩
    refine ⟨hin, hkey, hsigned, hlow, hfits, ?_⟩
    rw [← hnext] at hupdate
    exact hupdate.symm

theorem accepts_iff : (permitMachine crypto).Accepts tokens call ↔ Honoured crypto tokens call := by
  constructor
  · rintro ⟨tokens', hexec⟩
    exact (permitMachine_eq_ok.mp hexec).1
  · intro hhonoured
    exact ⟨_, permitMachine_eq_ok.mpr ⟨hhonoured, rfl⟩⟩

/-- An accepted permit counts its owner's nonce up by one, at its own contract. -/
theorem nonce_of_exec (hexec : (permitMachine crypto).exec tokens call = .ok tokens') :
    (tokens' call.token).nonce call.owner = call.nonceAt tokens + 1 := by
  obtain ⟨-, rfl⟩ := permitMachine_eq_ok.mp hexec
  rw [Function.update_self]
  exact Function.update_self _ _ _

theorem nonce_le_of_exec (hexec : (permitMachine crypto).exec tokens call = .ok tokens')
    (token owner : Address) : (tokens token).nonce owner ≤ (tokens' token).nonce owner := by
  by_cases htoken : token = call.token
  · by_cases howner : owner = call.owner
    · subst htoken howner
      exact (Nat.le_succ _).trans_eq (nonce_of_exec hexec).symm
    · obtain ⟨-, rfl⟩ := permitMachine_eq_ok.mp hexec
      subst htoken
      rw [Function.update_self]
      exact (Function.update_of_ne howner _ _).ge
  · obtain ⟨-, rfl⟩ := permitMachine_eq_ok.mp hexec
    rw [Function.update_of_ne htoken]

/-- Once a permit is accepted, its contract never again holds the nonce it was signed under. -/
theorem nonce_lt_of_precedes {calls : List (PermitCall Address)}
    {earlier later : Tokens Address × PermitCall Address}
    (hcalls : (permitMachine crypto).Precedes tokens calls earlier later)
    (haccepts : (permitMachine crypto).Accepts earlier.1 earlier.2) :
    earlier.2.nonceAt earlier.1 < (later.1 earlier.2.token).nonce earlier.2.owner := by
  obtain ⟨next, hexec⟩ := haccepts
  apply hcalls.invariant
    (I := fun s => earlier.2.nonceAt earlier.1 < (s earlier.2.token).nonce earlier.2.owner)
  · intro s call s' hbelow hcall
    exact hbelow.trans_le (nonce_le_of_exec hcall _ _)
  · rw [Machine.step_of_exec_ok hexec, nonce_of_exec hexec]
    exact Nat.lt_succ_self _

end Machine

/-! ### One signature, one permit -/

variable (crypto : Crypto Address)

/-- SHA-256 tells apart what the permits of a run are signed over. -/
def NoCollision (calls : List (PermitCall Address)) : Prop :=
  ∀ x ∈ calls, ∀ y ∈ calls, ∀ n m : ℕ, (n : ℤ) ≤ u64.max → (m : ℤ) ≤ u64.max →
    crypto.sha256 (x.bytes crypto n) = crypto.sha256 (y.bytes crypto m) →
      x.bytes crypto n = y.bytes crypto m

/-- A signature verifies only for the digest its owner signed. -/
def Unforgeable (calls : List (PermitCall Address)) : Prop :=
  ∀ x ∈ calls, ∀ y ∈ calls, ∀ n m : ℕ, x.owner = y.owner → x.signature = y.signature →
    x.Verifies crypto n → y.Verifies crypto m → x.digest crypto n = y.digest crypto m

/-- `later` takes the permit of `earlier` to another contract, before the deadline. -/
structure Carries (earlier later : PermitCall Address) : Prop where
  token : later.token ≠ earlier.token
  owner : later.owner = earlier.owner
  spender : later.spender = earlier.spender
  amount : later.amount = earlier.amount
  deadline : later.deadline = earlier.deadline
  signature : later.signature = earlier.signature
  in_time : later.sequence ≤ earlier.deadline

variable {crypto} {calls : List (PermitCall Address)}

/-- A permit honoured once is honoured by every contract it is carried to that holds its nonce. -/
theorem Honoured.carried {s s' : Tokens Address} {x y : PermitCall Address}
    (hhonoured : Honoured crypto s x) (hcarries : Carries x y)
    (hnonce : y.nonceAt s' = x.nonceAt s) : Honoured crypto s' y := by
  obtain ⟨-, howner, hspender, hamount, hdeadline, hsignature, hin⟩ := hcarries
  refine ⟨hdeadline ▸ hin, howner ▸ hhonoured.key, ?_, hnonce ▸ hhonoured.next_fits⟩
  have hsigned := hhonoured.signed
  unfold PermitCall.Verifies PermitCall.publicKey PermitCall.digest at hsigned ⊢
  rw [howner, hspender, hamount, hdeadline, hsignature, hnonce]
  exact hsigned

/-- Two honoured permits with one signature of one owner are the same permit, under one nonce. -/
theorem samePermit_of_signature (hxdr : Function.Injective crypto.toXdr)
    (hcollision : NoCollision crypto calls) (hunforgeable : Unforgeable crypto calls)
    {s s' : Tokens Address} {x y : PermitCall Address} (hx : x ∈ calls) (hy : y ∈ calls)
    (hhonoured : Honoured crypto s x) (hhonoured' : Honoured crypto s' y)
    (howner : x.owner = y.owner) (hsignature : x.signature = y.signature) :
    PermitCall.SamePermit x y (x.nonceAt s) (y.nonceAt s') := by
  have hn : (x.nonceAt s : ℤ) ≤ u64.max := (Int.le_add_one le_rfl).trans hhonoured.next_fits
  have hm : (y.nonceAt s' : ℤ) ≤ u64.max := (Int.le_add_one le_rfl).trans hhonoured'.next_fits
  have hdigest := hunforgeable x hx y hy _ _ howner hsignature hhonoured.signed hhonoured'.signed
  rw [PermitCall.digest_eq, PermitCall.digest_eq] at hdigest
  have hbytes := hcollision x hx y hy _ _ hn hm hdigest
  exact PermitCall.samePermit_of_bytes hxdr hn hm howner hbytes

section SingleUse

variable [DecidableEq Address] (crypto)

/-- No signature of an owner is behind two accepted permits of a run. -/
def SingleUse (tokens : Tokens Address) (calls : List (PermitCall Address)) : Prop :=
  ∀ earlier later, (permitMachine crypto).Precedes tokens calls earlier later →
    (permitMachine crypto).Accepts earlier.1 earlier.2 →
    (permitMachine crypto).Accepts later.1 later.2 →
    ¬(later.2.owner = earlier.2.owner ∧ later.2.signature = earlier.2.signature)

/-- No permit that passed its checks is taken to a contract that holds the nonce it was signed under. -/
def Confined (tokens : Tokens Address) (calls : List (PermitCall Address)) : Prop :=
  ∀ earlier later, (permitMachine crypto).Precedes tokens calls earlier later →
    Honoured crypto earlier.1 earlier.2 → Carries earlier.2 later.2 →
    later.2.nonceAt later.1 ≠ earlier.2.nonceAt earlier.1

variable {crypto} {tokens : Tokens Address}

/-- Submitted to one contract only, permits stay confined. -/
theorem confined_of_token {token : Address} (htoken : ∀ call ∈ calls, call.token = token) :
    Confined crypto tokens calls := by
  intro earlier later hcalls _ hcarries
  obtain ⟨hearlier, hlater⟩ := hcalls.mem
  exact absurd ((htoken _ hlater).trans (htoken _ hearlier).symm) hcarries.token

end SingleUse

/-! ### A permit at two contracts -/

/-- A digest is the end of what is hashed, and a signature is the key followed by the digest. -/
def signingCrypto : Crypto ℕ where
  toXdr := fun who => List.replicate 31 0 ++ List.replicate who 1 ++ [0]
  sha256 := fun bytes => bytes.drop 63
  ed25519Verify := fun key digest signature => key ++ digest == signature

theorem signingCrypto_toXdr_injective : Function.Injective signingCrypto.toXdr := by
  intro x y hxdr
  have hlength := congrArg List.length hxdr
  simpa [signingCrypto] using hlength

theorem unforgeable_signingCrypto (calls : List (PermitCall ℕ)) :
    Unforgeable signingCrypto calls := by
  intro x _ y _ n m howner hsignature hx hy
  have hx' := beq_iff_eq.mp hx
  have hy' := beq_iff_eq.mp hy
  have hkey : x.publicKey signingCrypto = y.publicKey signingCrypto := by
    rw [PermitCall.publicKey, PermitCall.publicKey, howner]
  rw [← hkey, ← hsignature, ← hx'] at hy'
  exact (List.append_cancel_left hy').symm

/-- Address 1 lets address 2 spend 2500 until ledger 100, signed under nonce 0. -/
def permitAt (token : ℕ) : PermitCall ℕ where
  token
  sequence := 5
  auth := fun _ => false
  owner := 1
  spender := 2
  amount := 2500
  deadline := 100
  signature := (signingCrypto.toXdr 1).take 32 ++ permitDigest signingCrypto 1 2 2500 0 100
  amount_fits := by decide
  deadline_fits := by decide

theorem noCollision_permitAt (tokens : List ℕ) :
    NoCollision signingCrypto (tokens.map permitAt) := by
  have hstart : ∀ token nonce, ((permitAt token).bytes signingCrypto nonce).take 63 =
      (signingCrypto.toXdr 1 ++ signingCrypto.toXdr 2).take 63 := fun _ _ => rfl
  intro x hx y hy n m _ _ hdigest
  obtain ⟨token, -, rfl⟩ := List.mem_map.mp hx
  obtain ⟨token', -, rfl⟩ := List.mem_map.mp hy
  rw [← List.take_append_drop 63 ((permitAt token).bytes signingCrypto n), hstart,
    ← hstart token' m]
  exact (congrArg _ hdigest).trans (List.take_append_drop 63 _)

/-- The token contracts as they are deployed, each with its own admin. -/
def freshTokens : Tokens ℕ := fun token => fresh (token + 10)

theorem honoured_permitAt {tokens : Tokens ℕ} {token : ℕ} (hnonce : (tokens token).nonce 1 = 0) :
    Honoured signingCrypto tokens (permitAt token) := by
  have hzero : (permitAt token).nonceAt tokens = 0 := hnonce
  refine ⟨show 5 ≤ 100 by decide, show 32 ≤ (signingCrypto.toXdr 1).length by decide, ?_, ?_⟩
  · rw [hzero]
    exact beq_self_eq_true _
  · rw [hzero]
    decide

end CoralSwap.LpToken
