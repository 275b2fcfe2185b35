import CoralSwap.Proof.IntegerBytes
import CoralSwap.Router.Commit

/-!
# What a swap hash determines

The hashed bytes are the fields of the swap one after the other, each self-delimiting, so they
determine the swap. What its hash determines is up to a collision of two such byte strings.
-/

namespace CoralSwap.Router

open Host Host.Encoding

variable {Address : Type}

/-- The arguments of a reveal, within the types of the entry point. -/
structure SwapIntent (Address : Type) where
  sender : Address
  tokenIn : Address
  tokenOut : Address
  amountIn : ℤ
  minOut : ℤ
  nonce : ℕ
  salt : Bytes32
  amountIn_fits : i128.min ≤ amountIn ∧ amountIn ≤ i128.max
  minOut_fits : i128.min ≤ minOut ∧ minOut ≤ i128.max
  nonce_fits : (nonce : ℤ) ≤ u64.max

namespace SwapIntent

variable (crypto : Crypto Address) (intent : SwapIntent Address)

/-- What `compute_swap_hash` hashes. -/
def bytes : List UInt8 :=
  crypto.toXdr intent.sender ++ crypto.toXdr intent.tokenIn ++ crypto.toXdr intent.tokenOut ++
    LpToken.toBeBytes 16 intent.amountIn ++ LpToken.toBeBytes 16 intent.minOut ++
    LpToken.toBeBytes 8 intent.nonce ++ intent.salt.toList

def hash : List UInt8 :=
  computeSwapHash crypto intent.sender intent.tokenIn intent.tokenOut intent.amountIn intent.minOut
    intent.nonce intent.salt

theorem hash_eq : intent.hash crypto = crypto.sha256 (intent.bytes crypto) := rfl

theorem salt_selfDelimiting : SelfDelimiting Set.univ (Vector.toList : Bytes32 → List UInt8) :=
  .of_length (fun salt _ => salt.length_toList) fun _ _ _ _ hsalt => Vector.toList_inj.mp hsalt

/-- **Injectivity.** The hashed bytes determine the swap. -/
theorem bytes_injective {crypto : Crypto Address} (hxdr : PrefixFree crypto.toXdr) :
    Function.Injective (bytes crypto) := by
  intro x y hbytes
  have haddress : SelfDelimiting Set.univ crypto.toXdr := .of_prefixFree hxdr _
  have hfields := (haddress.append (haddress.append (haddress.append (LpToken.i128_bytes.append
    (LpToken.i128_bytes.append (LpToken.u64_bytes.append salt_selfDelimiting)))))).injOn
  have hmem : ∀ intent : SwapIntent Address,
      (intent.sender, intent.tokenIn, intent.tokenOut, intent.amountIn, intent.minOut,
        (intent.nonce : ℤ), intent.salt) ∈ Set.univ ×ˢ Set.univ ×ˢ Set.univ ×ˢ
          Set.Icc i128.min i128.max ×ˢ Set.Icc i128.min i128.max ×ˢ Set.Icc u64.min u64.max ×ˢ
            Set.univ :=
    fun intent => ⟨trivial, trivial, trivial, intent.amountIn_fits, intent.minOut_fits,
      ⟨Int.natCast_nonneg _, intent.nonce_fits⟩, trivial⟩
  have heq := hfields (hmem x) (hmem y) (by simpa only [bytes, List.append_assoc] using hbytes)
  cases x
  cases y
  simp only [Prod.mk.injEq, Nat.cast_inj] at heq
  obtain ⟨rfl, rfl, rfl, rfl, rfl, rfl, rfl⟩ := heq
  rfl

/-- SHA-256 tells the two swaps apart, if their bytes differ. -/
def NoCollision (x y : SwapIntent Address) : Prop :=
  crypto.sha256 (x.bytes crypto) = crypto.sha256 (y.bytes crypto) → x.bytes crypto = y.bytes crypto

theorem eq_of_hash {crypto : Crypto Address} (hxdr : PrefixFree crypto.toXdr)
    {x y : SwapIntent Address} (hcollision : NoCollision crypto x y)
    (hhash : x.hash crypto = y.hash crypto) : x = y := by
  rw [hash_eq, hash_eq] at hhash
  exact bytes_injective hxdr (hcollision hhash)

end SwapIntent

end CoralSwap.Router
