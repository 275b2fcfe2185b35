import CoralSwap.Factory.Registry
import CoralSwap.Pair.Machine

/-!
# The factory and its pools

The factory together with the pools it has deployed, and `create_pair`. The factory deploys a pair and its LP token
at addresses derived from its own and a salt, initialises both, and records the pair. While it does so it is on the
call stack, so the host refuses every query that the new pair makes to it.
-/

namespace CoralSwap

open Host Host.Call

/-- What a deployment of the factory takes from the host: its own address, the cryptography, and the address at
which a contract that it deploys with some salt is found. -/
structure Deployment (Address : Type) where
  factory : Address
  crypto : Crypto Address
  deployedAddress : List UInt8 → Address

structure Protocol (Address : Type) where
  factory : FactoryContract Address
  pool : Address → Option (World Address)
  /-- The addresses at which there is a contract already. -/
  occupied : Address → Bool

variable {Address : Type} [LinearOrder Address]

/-! ### LP metadata -/

def lpDecimals : ℕ := 7

def lpNamePrefix : String := "CORAL-SWAP-LP-"

def lpSymbolPrefix : String := "CLP-"

/-- `0` to `9`, then `A` to `F`. -/
def hexDigit (digit : ℕ) : Char := Char.ofNat (if digit < 10 then 48 + digit else 55 + digit)

def appendHex (text : String) (bytes : List UInt8) : String :=
  bytes.foldl
    (fun text byte => (text.push (hexDigit (byte.toNat / 16))).push (hexDigit (byte.toNat % 16))) text

theorem utf8Size_hexDigit (digit : ℕ) (hdigit : digit < 16) : (hexDigit digit).utf8Size = 1 := by
  interval_cases digit <;> decide

theorem utf8ByteSize_appendHex (text : String) (bytes : List UInt8) :
    (appendHex text bytes).utf8ByteSize = text.utf8ByteSize + 2 * bytes.length := by
  unfold appendHex
  induction bytes generalizing text with
  | nil => simp
  | cons byte rest ih =>
      have hbyte := byte.toNat_lt
      have hhigh := utf8Size_hexDigit (byte.toNat / 16) (by omega)
      have hlow := utf8Size_hexDigit (byte.toNat % 16) (by omega)
      rw [List.foldl_cons, ih, String.utf8ByteSize_push, String.utf8ByteSize_push, hhigh, hlow,
        List.length_cons]
      omega

namespace Deployment

variable (d : Deployment Address)

def sortTokens (tokenA tokenB : Address) : Address × Address :=
  if tokenA < tokenB then (tokenA, tokenB) else (tokenB, tokenA)

omit [LinearOrder Address] in
def pairSalt (token0 token1 : Address) : List UInt8 :=
  d.crypto.sha256 (d.crypto.toXdr token0 ++ d.crypto.toXdr token1)

omit [LinearOrder Address] in
def lpSalt (pair : Address) : List UInt8 := d.crypto.sha256 (d.crypto.toXdr pair)

/-- The address derived for the pair of two tokens, whether it exists or not. -/
def getPairAddress (tokenA tokenB : Address) : Call FactoryError Address := do
  failIf (tokenA = tokenB) .identicalTokens
  let (token0, token1) := sortTokens tokenA tokenB
  pure (d.deployedAddress (d.pairSalt token0 token1))

def deriveLpMetadata (tokenA tokenB : Address) : String × String :=
  let (token0, token1) := sortTokens tokenA tokenB
  let hash := d.crypto.sha256 (d.crypto.toXdr token0 ++ d.crypto.toXdr token1)
  (appendHex lpNamePrefix (hash.take 4), appendHex lpSymbolPrefix (hash.take 4))

/-- The LP token accepts the metadata that the factory derives for it. -/
theorem initializeLpToken_deriveLpMetadata (tokenA tokenB pair : Address) :
    LpToken.deployed.initializeLpToken pair lpDecimals (d.deriveLpMetadata tokenA tokenB).1
      (d.deriveLpMetadata tokenA tokenB).2 = .ok (LpToken.fresh pair) := by
  have hbound : ∀ text : String, text.utf8ByteSize ≤ 24 → ∀ (bytes : List UInt8) (fallback : String),
      fallback.utf8ByteSize ≤ 32 →
        ¬32 < (if appendHex text (bytes.take 4) = "" then fallback
          else appendHex text (bytes.take 4)).utf8ByteSize := by
    intro text htext bytes fallback hfallback
    have hlength := List.length_take_le 4 bytes
    split
    · omega
    · rw [utf8ByteSize_appendHex]
      omega
  simp only [LpToken.initializeLpToken, deriveLpMetadata, bind_eq_ok, failIf_eq_ok, pure_eq_ok,
    exists_const]
  refine ⟨Bool.false_ne_true, by decide, (), failIf_eq_ok.mpr (not_or.mpr ⟨?_, ?_⟩), rfl⟩
  · exact hbound _ (by decide) _ _ (by decide)
  · exact hbound _ (by decide) _ _ (by decide)

end Deployment

namespace FactoryContract

/-- The answers to `pair`'s queries. The host does not enter a contract that is on the call stack. -/
def answers (f : FactoryContract Address) (onStack : Bool) (pair : Address) : FactoryAnswers Address where
  getPairFeeOverride := if onStack then none else some (f.toFactory.getPairFeeOverride pair)
  getFeeTo := if onStack then none else some f.toFactory.getFeeTo
  getFeeBps := if onStack then none else some f.toFactory.getFeeBps
  isPair := fun who => if onStack then none else some (f.isPair who)
  isLpToken := fun token => if onStack then none else some (f.isLpToken token)

end FactoryContract

namespace Protocol

variable (d : Deployment Address) (env : ProtocolEnv Address) (p : Protocol Address)

def deployed : Protocol Address where
  factory := FactoryContract.deployed
  pool := fun _ => none
  occupied := fun who => decide (who = d.factory)

/-- The environment in which `pair` runs, called by the factory or by anyone else. A contract signs the calls it
makes itself, and no others. -/
def pairEnv (byFactory : Bool) (pair : Address) : Env pair where
  sequence := env.sequence
  timestamp := env.timestamp
  auth := fun who => who ≠ pair && (if who = d.factory then byFactory else env.auth who)
  crypto := d.crypto
  factory := p.factory.answers byFactory pair
  auth_contract := by simp

def setPool (pair : Address) (w : World Address) : Protocol Address :=
  { p with pool := Function.update p.pool pair (some w) }

variable {p} in
@[simp]
theorem pool_setPool_self (pair : Address) (w : World Address) : (p.setPool pair w).pool pair = some w :=
  Function.update_self ..

variable {p} in
theorem pool_setPool_of_ne {pair other : Address} (hne : other ≠ pair) (w : World Address) :
    (p.setPool pair w).pool other = p.pool other :=
  Function.update_of_ne hne ..

/-- A call of `pair`. A contract that is none of the pools accepts it or does not, and what else it does to the
protocol it does by calls of its own. -/
def callPair (byFactory : Bool) (pair : Address) (op : CoralSwap.Op Address) :
    Call PairError (Protocol Address) :=
  match p.pool pair with
  | some w => do
      let w' ← CoralSwap.exec w (pairEnv d env p byFactory pair, op)
      pure (p.setPool pair w')
  | none => do
      require (env.accepts pair = true)
      pure p

/-- `deploy_v2` traps unless the code was uploaded and there is nothing yet at the address. -/
def deploy (wasmHash : Bytes32) (contract : Address) : Call FactoryError (Protocol Address) := do
  require (env.uploaded wasmHash = true)
  require (p.occupied contract = false)
  pure { p with occupied := Function.update p.occupied contract true }

def createPair (tokenA tokenB : Address) : Call FactoryError (Protocol Address × Address) := do
  failIf (tokenA = tokenB) .identicalTokens
  let (token0, token1) := Deployment.sortTokens tokenA tokenB
  failIf ((p.factory.getPair token0 token1).isSome = true) .pairExists
  let storage ← p.factory.getStorage
  failIf (storage.paused = true) .protocolPaused
  let pair := d.deployedAddress (d.pairSalt token0 token1)
  let withPair ← p.deploy env storage.pairWasmHash pair
  let lpToken := d.deployedAddress (d.lpSalt pair)
  let deployed ← withPair.deploy env storage.lpTokenWasmHash lpToken
  let (lpName, lpSymbol) := d.deriveLpMetadata token0 token1
  let lp ← orFail (LpToken.deployed.initializeLpToken pair lpDecimals lpName lpSymbol) .notInitialized
  let w := { World.deployed pair (env.token token0) (env.token token1) with lp }
  let w' ← orFail (initializePair (pairEnv d env p true pair) w d.factory token0 token1 lpToken)
    .notInitialized
  let pairCount ← orTrap (u32.checkedAdd storage.pairCount 1)
  let stored := deployed.factory.storePair storage pairCount.toNat token0 token1 pair lpToken
  pure ({ deployed.setPool pair w' with factory := stored }, pair)

end Protocol

end CoralSwap
