import CoralSwap.Lib.Call
import CoralSwap.Lib.Machine
import CoralSwap.Lib.Word

/-!
# The LP token

The SEP-41 token a pair mints and burns its shares on. Storage entries that are absent read as zero,
and a balance that reaches zero is removed, so a balance map is a total function. Amounts are signed:
each operation checks what it checks and nothing else.

Serialization, hashing and signature verification are functions of the host, and part of the
environment of a call.
-/

namespace CoralSwap

open Host Host.Call

inductive LpTokenError where
  | alreadyInitialized
  | notInitialized
  | unauthorized
  | insufficientBalance
  | insufficientAllowance
  | overflow
  | invalidExpiration
  | contractPaused
  | permitExpired
  | invalidSignature
  | invalidMetadata
  | mintAmountTooLarge
  | totalSupplyExceeded
  deriving DecidableEq, Repr

structure AllowanceEntry where
  amount : ℤ
  expirationLedger : ℕ
  deriving DecidableEq, Repr

structure LpToken (Address : Type) where
  admin : Option Address
  paused : Bool
  totalSupply : ℤ
  balance : Address → ℤ
  allowance : Address → Address → Option AllowanceEntry
  nonce : Address → ℕ

structure Crypto (Address : Type) where
  toXdr : Address → List UInt8
  sha256 : List UInt8 → List UInt8
  ed25519Verify : List UInt8 → List UInt8 → List UInt8 → Bool

def Crypto.rejecting (Address : Type) : Crypto Address where
  toXdr := fun _ => []
  sha256 := fun _ => []
  ed25519Verify := fun _ _ _ => false

/-- What an LP token call sees of the host: the ledger sequence, who authorised the call, and the
cryptography. -/
structure LpEnv (Address : Type) where
  sequence : ℕ
  auth : Address → Bool
  crypto : Crypto Address

namespace LpToken

variable {Address : Type} [DecidableEq Address]

def maxMintPerCall : ℤ := 1000000000000000000

def maxTotalSupply : ℤ := 1000000000000000000000000000

def fresh (admin : Address) : LpToken Address where
  admin := some admin
  paused := false
  totalSupply := 0
  balance := fun _ => 0
  allowance := fun _ _ => none
  nonce := fun _ => 0

/-- A token as it is deployed, before `initialize`. -/
def deployed : LpToken Address where
  admin := none
  paused := false
  totalSupply := 0
  balance := fun _ => 0
  allowance := fun _ _ => none
  nonce := fun _ => 0

variable (env : LpEnv Address) (t : LpToken Address)

def lpName : String := "Coral LP"

def lpSymbol : String := "CLP"

/-- The metadata is checked and stored; no other call reads it. -/
def initializeLpToken (admin : Address) (decimals : ℕ) (name symbol : String) :
    Call LpTokenError (LpToken Address) := do
  failIf (t.admin.isSome = true) .alreadyInitialized
  failIf (18 < decimals) .invalidMetadata
  let effectiveName := if name = "" then lpName else name
  let effectiveSymbol := if symbol = "" then lpSymbol else symbol
  failIf (32 < effectiveName.utf8ByteSize ∨ 32 < effectiveSymbol.utf8ByteSize) .invalidMetadata
  pure { t with admin := some admin, totalSupply := 0, paused := false }

def writeBalance (who : Address) (amount : ℤ) : LpToken Address :=
  { t with balance := Function.update t.balance who amount }

def writeAllowance (owner spender : Address) (entry : Option AllowanceEntry) : LpToken Address :=
  { t with
    allowance := Function.update t.allowance owner
      (Function.update (t.allowance owner) spender entry) }

def requireAdmin : Call LpTokenError Address := do
  let admin ← okOr t.admin .notInitialized
  require (env.auth admin = true)
  pure admin

def adminTransfer (newAdmin : Address) : Call LpTokenError (LpToken Address) := do
  let _ ← requireAdmin env t
  pure { t with admin := some newAdmin }

def setPaused (paused : Bool) : Call LpTokenError (LpToken Address) := do
  let _ ← requireAdmin env t
  pure { t with paused }

def pause : Call LpTokenError (LpToken Address) := setPaused env t true

def unpause : Call LpTokenError (LpToken Address) := setPaused env t false

def approve (owner spender : Address) (amount : ℤ) (expirationLedger : ℕ) :
    Call LpTokenError (LpToken Address) := do
  require (env.auth owner = true)
  failIf (amount ≠ 0 ∧ expirationLedger ≤ env.sequence) .invalidExpiration
  if amount = 0 then
    pure (t.writeAllowance owner spender none)
  else
    pure (t.writeAllowance owner spender (some ⟨amount, expirationLedger⟩))

def transferInternal (src dst : Address) (amount : ℤ) : Call LpTokenError (LpToken Address) := do
  failIf (amount < 0) .insufficientBalance
  if amount = 0 then
    pure t
  else do
    failIf (t.balance src < amount) .insufficientBalance
    let newFromBalance ← orTrap (i128.checkedSub (t.balance src) amount)
    let debited := t.writeBalance src newFromBalance
    let newToBalance ← okOr (i128.checkedAdd (debited.balance dst) amount) .overflow
    pure (debited.writeBalance dst newToBalance)

def spendAllowance (owner spender : Address) (amount : ℤ) :
    Call LpTokenError (LpToken Address) := do
  let entry ← okOr (t.allowance owner spender) .insufficientAllowance
  failIf (entry.expirationLedger ≤ env.sequence) .insufficientAllowance
  failIf (entry.amount < amount) .insufficientAllowance
  let newAmount ← orTrap (i128.checkedSub entry.amount amount)
  if newAmount = 0 then
    pure (t.writeAllowance owner spender none)
  else
    pure (t.writeAllowance owner spender (some ⟨newAmount, entry.expirationLedger⟩))

def transfer (src dst : Address) (amount : ℤ) : Call LpTokenError (LpToken Address) := do
  failIf (t.paused = true) .contractPaused
  require (env.auth src = true)
  transferInternal t src dst amount

def transferFrom (spender src dst : Address) (amount : ℤ) :
    Call LpTokenError (LpToken Address) := do
  failIf (t.paused = true) .contractPaused
  require (env.auth spender = true)
  let spent ← if spender ≠ src then spendAllowance env t src spender amount else pure t
  transferInternal spent src dst amount

def mint (dst : Address) (amount : ℤ) : Call LpTokenError (LpToken Address) := do
  failIf (t.paused = true) .contractPaused
  let _ ← requireAdmin env t
  failIf (maxMintPerCall < amount) .mintAmountTooLarge
  let newBalance ← okOr (i128.checkedAdd (t.balance dst) amount) .overflow
  let newTotalSupply ← okOr (i128.checkedAdd t.totalSupply amount) .overflow
  failIf (maxTotalSupply < newTotalSupply) .totalSupplyExceeded
  pure { t.writeBalance dst newBalance with totalSupply := newTotalSupply }

/-- The debit `burn` and `burn_from` share: no check of the amount's sign. -/
def debitSupply (src : Address) (amount : ℤ) : Call LpTokenError (LpToken Address) := do
  failIf (t.balance src < amount) .insufficientBalance
  let newBalance ← orTrap (i128.checkedSub (t.balance src) amount)
  let newTotalSupply ← okOr (i128.checkedSub t.totalSupply amount) .insufficientBalance
  pure { t.writeBalance src newBalance with totalSupply := newTotalSupply }

def burn (src : Address) (amount : ℤ) : Call LpTokenError (LpToken Address) := do
  failIf (t.paused = true) .contractPaused
  require (env.auth src = true)
  debitSupply t src amount

def burnFrom (spender src : Address) (amount : ℤ) : Call LpTokenError (LpToken Address) := do
  failIf (t.paused = true) .contractPaused
  require (env.auth spender = true)
  let spent ← spendAllowance env t src spender amount
  debitSupply spent src amount

/-- The big-endian encoding of the low `bytes` bytes of `value`, in two's complement. -/
def toBeBytes (bytes : ℕ) (value : ℤ) : List UInt8 :=
  (List.range bytes).reverse.map fun i =>
    UInt8.ofNat ((value.emod (256 ^ bytes)).toNat / 256 ^ i % 256)

def permitDigest (crypto : Crypto Address) (owner spender : Address) (amount : ℤ) (nonce : ℕ)
    (deadline : ℕ) : List UInt8 :=
  crypto.sha256 (crypto.toXdr owner ++ crypto.toXdr spender ++ toBeBytes 16 amount ++
    toBeBytes 8 nonce ++ toBeBytes 4 deadline)

def permit (owner spender : Address) (amount : ℤ) (deadline : ℕ) (signature : List UInt8) :
    Call LpTokenError (LpToken Address) := do
  failIf (deadline < env.sequence) .permitExpired
  let nonce := t.nonce owner
  let digest := permitDigest env.crypto owner spender amount nonce deadline
  -- `slice(..32)` traps on a shorter encoding
  require (32 ≤ (env.crypto.toXdr owner).length)
  let publicKey := (env.crypto.toXdr owner).take 32
  require (env.crypto.ed25519Verify publicKey digest signature = true)
  let next ← orTrap (u64.checkedAdd nonce 1)
  let approved := t.writeAllowance owner spender (some ⟨amount, deadline⟩)
  pure { approved with nonce := Function.update t.nonce owner next.toNat }

inductive Op (Address : Type) where
  | mint (dst : Address) (amount : ℤ)
  | burn (src : Address) (amount : ℤ)
  | burnFrom (spender src : Address) (amount : ℤ)
  | transfer (src dst : Address) (amount : ℤ)
  | transferFrom (spender src dst : Address) (amount : ℤ)
  | approve (owner spender : Address) (amount : ℤ) (expirationLedger : ℕ)
  | permit (owner spender : Address) (amount : ℤ) (deadline : ℕ) (signature : List UInt8)
  | pause
  | unpause
  | adminTransfer (newAdmin : Address)

def exec (t : LpToken Address) :
    LpEnv Address × Op Address → Call LpTokenError (LpToken Address)
  | (env, .mint dst amount) => mint env t dst amount
  | (env, .burn src amount) => burn env t src amount
  | (env, .burnFrom spender src amount) => burnFrom env t spender src amount
  | (env, .transfer src dst amount) => transfer env t src dst amount
  | (env, .transferFrom spender src dst amount) => transferFrom env t spender src dst amount
  | (env, .approve owner spender amount expirationLedger) =>
      approve env t owner spender amount expirationLedger
  | (env, .permit owner spender amount deadline signature) =>
      permit env t owner spender amount deadline signature
  | (env, .pause) => pause env t
  | (env, .unpause) => unpause env t
  | (env, .adminTransfer newAdmin) => adminTransfer env t newAdmin

/-- The token as a machine: every call comes with its own ledger and its own authorisations. -/
def machine : Machine (LpToken Address) (LpEnv Address × Op Address) LpTokenError :=
  ⟨exec⟩

end LpToken

end CoralSwap
