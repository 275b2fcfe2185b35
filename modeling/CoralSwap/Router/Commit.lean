import CoralSwap.Router.BestPath
import CoralSwap.Router.Swap

/-!
# Commit and reveal

A commit stores the hash of a swap and the ledger it was made at. It can be revealed from the next
ledger on and until it expires; the swap then runs over the best path.
-/

namespace CoralSwap.Router

open Host Host.Call

variable {Address χ : Type} [LinearOrder Address] {router : Address}
variable (env : RouterEnv router χ)

def maxCommitsHardCap : ℕ := 1000

def commitExpiryHardCap : ℕ := 518400

omit [LinearOrder Address] in
/-- `sha256(sender || token_in || token_out || amount_in || min_out || nonce || salt)` -/
def computeSwapHash (crypto : Crypto Address) (sender tokenIn tokenOut : Address)
    (amountIn minOut : ℤ) (nonce : ℕ) (salt : Bytes32) : List UInt8 :=
  crypto.sha256 (crypto.toXdr sender ++ crypto.toXdr tokenIn ++ crypto.toXdr tokenOut ++
    LpToken.toBeBytes 16 amountIn ++ LpToken.toBeBytes 16 minOut ++ LpToken.toBeBytes 8 nonce ++
    salt.toList)

omit [LinearOrder Address] in
def lastLedger (config : RouterCommitConfig) (entry : CommitEntry) : ℕ :=
  (u32.saturatingAdd entry.ledger config.expiryLedgers).toNat

omit [LinearOrder Address] in
/-- `get_commit_count(env).saturating_sub(1)` -/
def releaseSlot (storage : RouterStorage Address) : RouterStorage Address :=
  storage.setCommitCount (storage.commitCount - 1)

/-- A sender without a commit takes a new slot; one with a live commit replaces it, and one with an
expired commit reuses its slot, if the slots are not used up. -/
def commitSwap (storage : RouterStorage Address) (sender : Address) (hash : Bytes32) :
    Call RouterError (RouterStorage Address) := do
  require (env.auth sender = true)
  let entry : CommitEntry := ⟨hash, env.sequence⟩
  match storage.commit sender with
  | none => do
      failIf (storage.commitConfig.maxCommits ≤ storage.commitCount) .tooManyCommits
      let counted := storage.setCommitCount (u32.saturatingAdd storage.commitCount 1).toNat
      pure (counted.setCommit sender (some entry))
  | some existing => do
      failIf (lastLedger storage.commitConfig existing < env.sequence ∧
        storage.commitConfig.maxCommits ≤ storage.commitCount) .tooManyCommits
      pure (storage.setCommit sender (some entry))

def pruneExpiredCommit (storage : RouterStorage Address) (sender : Address) :
    RouterStorage Address × Bool :=
  match storage.commit sender with
  | some entry =>
      if lastLedger storage.commitConfig entry < env.sequence then
        (releaseSlot (storage.setCommit sender none), true)
      else (storage, false)
  | none => (storage, false)

def revealSwap (storage : RouterStorage Address) (rest : χ) (sender tokenIn tokenOut : Address)
    (amountIn minOut : ℤ) (nonce : ℕ) (salt : Bytes32) :
    Call RouterError (RouterStorage Address × χ × ℤ) := do
  let entry ← okOr (storage.commit sender) .commitNotFound
  failIf (env.sequence ≤ entry.ledger) .commitRevealTooEarly
  -- the source frees the slot first, but the error it returns rolls that back
  failIf (lastLedger storage.commitConfig entry < env.sequence) .commitExpired
  failIf (storage.nonceUsed sender nonce = true) .nonceAlreadyUsed
  failIf (computeSwapHash env.crypto sender tokenIn tokenOut amountIn minOut nonce salt ≠
    entry.hash.toList) .commitHashMismatch
  let revealed := (releaseSlot (storage.setCommit sender none)).setNonceUsed sender nonce
  let (path, _) ← getBestPath env rest revealed tokenIn tokenOut amountIn
  let (executed, finalOut) ← swapExactTokensMultiHop env rest revealed path amountIn minOut sender
    u64.max.toNat none
  pure (revealed, executed, finalOut)

end CoralSwap.Router
