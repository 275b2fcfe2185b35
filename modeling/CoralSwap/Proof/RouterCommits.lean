import CoralSwap.Lib.Tally
import CoralSwap.Proof.RouterGovernance

/-!
# The router's commits

What an accepted call does to the commits, their counter and their bounds. The counter is exact and
bounded in every reachable state. A slot whose commit has expired is another matter: only a prune
frees it.
-/

namespace CoralSwap.Router

open Host Host.Call

variable {Address χ : Type} [LinearOrder Address] {router : Address}

omit [LinearOrder Address] in
def Expired (env : RouterEnv router χ) (s : RouterStorage Address) (entry : CommitEntry) : Prop :=
  lastLedger s.commitConfig entry < env.sequence

structure SameCommits (s s' : RouterStorage Address) : Prop where
  commit : s'.commit = s.commit
  nonceUsed : s'.nonceUsed = s.nonceUsed
  commitCount : s'.commitCount = s.commitCount
  commitConfig : s'.commitConfig = s.commitConfig

/-- What an accepted call does to the commits, one case for each way they change. -/
inductive CommitEffect (env : RouterEnv router χ) (s s' : RouterStorage Address) :
    Op Address χ → Prop where
  | opened {sender : Address} {hash : Bytes32} (hnone : s.commit sender = none)
      (hroom : s.commitCount < s.commitConfig.maxCommits)
      (hresult : s' = (s.setCommitCount (u32.saturatingAdd s.commitCount 1).toNat).setCommit sender
        (some ⟨hash, env.sequence⟩)) : CommitEffect env s s' (.commitSwap sender hash)
  | replaced {sender : Address} {hash : Bytes32} {existing : CommitEntry}
      (hstored : s.commit sender = some existing)
      (hroom : ¬(Expired env s existing ∧ s.commitConfig.maxCommits ≤ s.commitCount))
      (hresult : s' = s.setCommit sender (some ⟨hash, env.sequence⟩)) :
      CommitEffect env s s' (.commitSwap sender hash)
  | pruned {sender : Address} {entry : CommitEntry} (hstored : s.commit sender = some entry)
      (hexpired : Expired env s entry) (hresult : s' = releaseSlot (s.setCommit sender none)) :
      CommitEffect env s s' (.pruneExpiredCommit sender)
  | revealed {sender tokenIn tokenOut : Address} {amountIn minOut : ℤ} {nonce : ℕ} {salt : Bytes32}
      {entry : CommitEntry} (hstored : s.commit sender = some entry)
      (hresult : s' = (releaseSlot (s.setCommit sender none)).setNonceUsed sender nonce) :
      CommitEffect env s s' (.revealSwap sender tokenIn tokenOut amountIn minOut nonce salt)
  | configured {maxCommits expiryLedgers : ℕ} (hmax : maxCommits ≤ maxCommitsHardCap)
      (hresult : s' = { s with commitConfig := ⟨maxCommits, expiryLedgers⟩ }) :
      CommitEffect env s s' (.setCommitConfig maxCommits expiryLedgers)
  | kept {op : Op Address χ} (hsame : SameCommits s s') : CommitEffect env s s' op

/-! ### One call -/

section Call

variable {env : RouterEnv router χ} {w w' : RouterWorld Address χ} {s s' : RouterStorage Address}
variable {sender : Address}

omit [LinearOrder Address] in
theorem SameCommits.refl (s : RouterStorage Address) : SameCommits s s := ⟨rfl, rfl, rfl, rfl⟩

omit [LinearOrder Address] in
theorem SameCommits.of_eq (heq : s' = s) : SameCommits s s' := heq ▸ .refl s

theorem commitSwap_ok {hash : Bytes32} (hcommit : commitSwap env s sender hash = .ok s') :
    CommitEffect env s s' (.commitSwap sender hash) := by
  simp only [commitSwap, bind_eq_ok] at hcommit
  obtain ⟨-, -, hcommit⟩ := hcommit
  split at hcommit
  · rename_i hnone
    simp only [bind_eq_ok, failIf_eq_ok, pure_eq_ok, exists_const] at hcommit
    obtain ⟨hroom, hresult⟩ := hcommit
    exact .opened hnone (not_le.mp hroom) hresult.symm
  · rename_i existing hstored
    simp only [bind_eq_ok, failIf_eq_ok, pure_eq_ok, exists_const] at hcommit
    obtain ⟨hroom, hresult⟩ := hcommit
    exact .replaced hstored hroom hresult.symm

theorem pruneExpiredCommit_effect (env : RouterEnv router χ) (s : RouterStorage Address)
    (sender : Address) :
    CommitEffect env s (pruneExpiredCommit env s sender).1 (.pruneExpiredCommit sender) := by
  unfold pruneExpiredCommit
  split
  · rename_i entry hstored
    split
    · rename_i hexpired
      exact .pruned hstored hexpired rfl
    · exact .kept (.refl s)
  · exact .kept (.refl s)

/-- What an accepted reveal checked, and what it ran. -/
structure RevealSettles (env : RouterEnv router χ) (s : RouterStorage Address) (rest : χ)
    (sender tokenIn tokenOut : Address) (amountIn minOut : ℤ) (nonce : ℕ) (salt : Bytes32)
    (entry : CommitEntry) (s' : RouterStorage Address) (rest' : χ) (finalOut : ℤ) : Prop where
  stored : s.commit sender = some entry
  late : entry.ledger < env.sequence
  live : env.sequence ≤ lastLedger s.commitConfig entry
  unused : s.nonceUsed sender nonce = false
  hash : computeSwapHash env.crypto sender tokenIn tokenOut amountIn minOut nonce salt =
    entry.hash.toList
  result : s' = (releaseSlot (s.setCommit sender none)).setNonceUsed sender nonce
  executed : ∃ path quoted, getBestPath env rest s' tokenIn tokenOut amountIn = .ok (path, quoted) ∧
    swapExactTokensMultiHop env rest s' path amountIn minOut sender u64.max.toNat none =
      .ok (rest', finalOut)

theorem revealSwap_ok {rest rest' : χ} {tokenIn tokenOut : Address} {amountIn minOut finalOut : ℤ}
    {nonce : ℕ} {salt : Bytes32}
    (hreveal : revealSwap env s rest sender tokenIn tokenOut amountIn minOut nonce salt =
      .ok (s', rest', finalOut)) :
    ∃ entry, RevealSettles env s rest sender tokenIn tokenOut amountIn minOut nonce salt entry s' rest'
      finalOut := by
  simp only [revealSwap, bind_eq_ok, failIf_eq_ok, okOr_eq_ok, pure_eq_ok, exists_const, not_le,
    not_lt, not_not, Bool.not_eq_true, Prod.exists] at hreveal
  obtain ⟨entry, hstored, hlate, hlive, hunused, hhash, path, quoted, hbest, executed, out, hswap,
    hresult⟩ := hreveal
  cases hresult
  exact ⟨entry, hstored, hlate, hlive, hunused, hhash, rfl, path, quoted, hbest, hswap⟩

/-- **Inversion of a call**, as far as the commits go. -/
theorem commitEffect_of_exec {op : Op Address χ} (hexec : exec w (env, op) = .ok w') :
    CommitEffect env w.storage w'.storage op := by
  cases op with
  | initializeRouter factory hubs =>
      obtain rfl := pure_eq_ok.mp hexec
      exact .kept ⟨rfl, rfl, rfl, rfl⟩
  | setHubs hubs =>
      obtain rfl := pure_eq_ok.mp hexec
      exact .kept ⟨rfl, rfl, rfl, rfl⟩
  | sweep token recipient =>
      simp only [exec, sweep, bind_eq_ok, pure_eq_ok] at hexec
      obtain ⟨_, ⟨_, -, _, -, _, -, _, -, rfl⟩, rfl⟩ := hexec
      exact .kept (.refl _)
  | getBestPath =>
      simp only [exec, bind_eq_ok, pure_eq_ok] at hexec
      obtain ⟨_, -, rfl⟩ := hexec
      exact .kept (.refl _)
  | swapExactTokensMultiHop => exact .kept (.of_eq (storage_of_rest hexec))
  | swapExactTokensForTokens => exact .kept (.of_eq (storage_of_rest hexec))
  | swapTokensForExactTokens => exact .kept (.of_eq (storage_of_rest hexec))
  | addLiquidity => exact .kept (.of_eq (storage_of_rest hexec))
  | removeLiquidity => exact .kept (.of_eq (storage_of_rest hexec))
  | commitSwap sender hash =>
      simp only [exec, bind_eq_ok, pure_eq_ok] at hexec
      obtain ⟨_, hcommit, rfl⟩ := hexec
      exact commitSwap_ok hcommit
  | setCommitConfig maxCommits expiryLedgers =>
      simp only [exec, setCommitConfig, bind_eq_ok, failIf_eq_ok, pure_eq_ok, not_or,
        not_lt] at hexec
      obtain ⟨_, -, _, ⟨-, hmax, -⟩, rfl⟩ := hexec
      exact .configured hmax rfl
  | pruneExpiredCommit sender =>
      obtain rfl := pure_eq_ok.mp hexec
      exact pruneExpiredCommit_effect env _ sender
  | revealSwap sender tokenIn tokenOut amountIn minOut nonce salt =>
      simp only [exec, bind_eq_ok, pure_eq_ok] at hexec
      obtain ⟨⟨_, _, _⟩, hreveal, rfl⟩ := hexec
      obtain ⟨entry, hsettles⟩ := revealSwap_ok hreveal
      exact .revealed hsettles.stored hsettles.result
  | elsewhere rest =>
      obtain rfl := pure_eq_ok.mp hexec
      exact .kept (.refl _)

end Call

/-! ### The counter -/

/-- The counter is the number of senders with a commit, and neither it nor the configured bound
exceeds the hard cap. -/
structure CommitsCounted (s : RouterStorage Address) : Prop where
  exact : Tally.Counts s.commit s.commitCount
  bounded : s.commitCount ≤ maxCommitsHardCap
  configured : s.commitConfig.maxCommits ≤ maxCommitsHardCap

section Counter

variable {env : RouterEnv router χ} {s s' : RouterStorage Address} {op : Op Address χ}

theorem saturatingAdd_one {count : ℕ} (hcount : count < maxCommitsHardCap) :
    (u32.saturatingAdd count 1).toNat = count + 1 := by
  have hbound : (count : ℤ) < 1000 := by exact_mod_cast hcount
  unfold Word.saturatingAdd Word.saturate u32
  dsimp only
  omega

omit [LinearOrder Address] in
theorem CommitsCounted.of_same (hcounted : CommitsCounted s) (hsame : SameCommits s s') :
    CommitsCounted s' := by
  refine ⟨?_, ?_, ?_⟩
  · rw [hsame.commit, hsame.commitCount]
    exact hcounted.exact
  · rw [hsame.commitCount]
    exact hcounted.bounded
  · rw [hsame.commitConfig]
    exact hcounted.configured

/-- A commit is cleared together with its slot. -/
theorem CommitsCounted.release {sender : Address} {entry : CommitEntry}
    (hcounted : CommitsCounted s) (hstored : s.commit sender = some entry) :
    CommitsCounted (releaseSlot (s.setCommit sender none)) :=
  ⟨hcounted.exact.clear hstored, (Nat.sub_le _ _).trans hcounted.bounded, hcounted.configured⟩

/-- **Step.** Every accepted call adjusts the counter by what it does to the commits. -/
theorem CommitsCounted.of_effect (hcounted : CommitsCounted s)
    (heffect : CommitEffect env s s' op) : CommitsCounted s' := by
  cases heffect with
  | opened hnone hroom hresult =>
      have hcount := saturatingAdd_one (hroom.trans_le hcounted.configured)
      subst hresult
      rw [hcount]
      exact ⟨hcounted.exact.open_entry hnone _, hroom.trans_le hcounted.configured,
        hcounted.configured⟩
  | replaced hstored hroom hresult =>
      subst hresult
      exact ⟨hcounted.exact.overwrite hstored _, hcounted.bounded, hcounted.configured⟩
  | pruned hstored hexpired hresult =>
      subst hresult
      exact hcounted.release hstored
  | revealed hstored hresult =>
      subst hresult
      have hreleased := hcounted.release hstored
      exact ⟨hreleased.exact, hreleased.bounded, hreleased.configured⟩
  | configured hmax hresult =>
      subst hresult
      exact ⟨hcounted.exact, hcounted.bounded, hmax⟩
  | kept hsame => exact hcounted.of_same hsame

theorem commitCount_le_of_raised {sender : Address} {hash : Bytes32} (hcounted : CommitsCounted s)
    (heffect : CommitEffect env s s' (.commitSwap sender hash))
    (hraised : s.commitCount < s'.commitCount) : s'.commitCount ≤ s.commitConfig.maxCommits := by
  cases heffect with
  | opened hnone hroom hresult =>
      have hcount := saturatingAdd_one (hroom.trans_le hcounted.configured)
      subst hresult
      rw [hcount]
      exact hroom
  | replaced hstored hroom hresult =>
      subst hresult
      exact absurd hraised (lt_irrefl _)
  | kept hsame =>
      rw [hsame.commitCount] at hraised
      exact absurd hraised (lt_irrefl _)

end Counter

omit [LinearOrder Address] in
theorem commitsCounted_deployed : CommitsCounted (RouterStorage.deployed : RouterStorage Address) :=
  ⟨Tally.counts_empty, Nat.zero_le _, show 32 ≤ 1000 by decide⟩

theorem commitsCounted_of_run (rest : χ) (calls : List (RouterCall router χ)) :
    CommitsCounted ((machine router χ).run ⟨.deployed, rest⟩ calls).storage :=
  Machine.run_invariant_all (m := machine router χ) (I := fun w => CommitsCounted w.storage)
    (fun _ _ _ hcounted hexec => hcounted.of_effect (commitEffect_of_exec hexec))
    commitsCounted_deployed calls

/-- **The counter.** After any run of a deployed router, `CommitCount` is the number of senders with a
commit, it is within the hard cap, and a commit that raises it leaves it within the bound configured
at the time. -/
theorem commitCount_exact (rest : χ) (calls : List (RouterCall router χ)) :
    let w := (machine router χ).run ⟨.deployed, rest⟩ calls
    Tally.Counts w.storage.commit w.storage.commitCount ∧
      w.storage.commitCount ≤ maxCommitsHardCap ∧
      ∀ (env : RouterEnv router χ) (sender : Address) (hash : Bytes32) (w' : RouterWorld Address χ),
        exec w (env, .commitSwap sender hash) = .ok w' →
          w.storage.commitCount < w'.storage.commitCount →
            w'.storage.commitCount ≤ w.storage.commitConfig.maxCommits := by
  intro w
  have hcounted : CommitsCounted w.storage := commitsCounted_of_run rest calls
  refine ⟨hcounted.exact, hcounted.bounded, fun env sender hash w' hexec hraised => ?_⟩
  exact commitCount_le_of_raised hcounted (commitEffect_of_exec hexec) hraised

/-! ### Expired commits -/

/-- A sender whose commit has expired can commit again, and a reveal that is answered with
`CommitExpired` frees the slot. -/
structure ExpiredFreesSlot (env : RouterEnv router χ) (w : RouterWorld Address χ) (sender : Address) :
    Prop where
  commit : ∀ hash, commitSwap env w.storage sender hash ≠ fail .tooManyCommits
  reveal : ∀ tokenIn tokenOut amountIn minOut nonce salt,
    exec w (env, .revealSwap sender tokenIn tokenOut amountIn minOut nonce salt) =
        fail .commitExpired →
      let w' := (machine router χ).step w
        (env, .revealSwap sender tokenIn tokenOut amountIn minOut nonce salt)
      w'.storage.commit sender = none ∧ w'.storage.commitCount + 1 = w.storage.commitCount

section Expired

variable {env : RouterEnv router χ} {w : RouterWorld Address χ} {s : RouterStorage Address}
variable {sender : Address} {entry : CommitEntry}

theorem commitSwap_ne_tooManyCommits_iff (hauth : env.auth sender = true)
    (hstored : s.commit sender = some entry) (hexpired : Expired env s entry) (hash : Bytes32) :
    commitSwap env s sender hash ≠ fail .tooManyCommits ↔
      s.commitCount < s.commitConfig.maxCommits := by
  have hcall : commitSwap env s sender hash =
      if s.commitConfig.maxCommits ≤ s.commitCount then fail .tooManyCommits
      else pure (s.setCommit sender (some ⟨hash, env.sequence⟩)) := by
    have hlast : lastLedger s.commitConfig entry < env.sequence := hexpired
    by_cases hfull : s.commitConfig.maxCommits ≤ s.commitCount
    · simp [commitSwap, require, failIf, hauth, hstored, hlast, hfull, bind, Except.bind, fail]
    · simp [commitSwap, require, failIf, hauth, hstored, hlast, hfull, bind, Except.bind]
  rw [hcall]
  constructor
  · intro haccepted
    by_contra hfull
    exact haccepted (if_pos (not_lt.mp hfull))
  · intro hroom
    rw [if_neg (not_le.mpr hroom)]
    exact fun h => by cases h

omit [LinearOrder Address] in
/-- The ledger of an expired commit is past, also where the sum saturates. -/
theorem ledger_lt_of_expired (hledger : (env.sequence : ℤ) ≤ u32.max)
    (hexpired : Expired env s entry) : entry.ledger < env.sequence := by
  have hlast : (u32.saturatingAdd entry.ledger s.commitConfig.expiryLedgers).toNat < env.sequence :=
    hexpired
  unfold Word.saturatingAdd Word.saturate u32 at hlast
  unfold u32 at hledger
  dsimp only at hlast hledger
  omega

theorem exec_reveal_of_expired (hledger : (env.sequence : ℤ) ≤ u32.max)
    (hstored : w.storage.commit sender = some entry) (hexpired : Expired env w.storage entry)
    (tokenIn tokenOut : Address) (amountIn minOut : ℤ) (nonce : ℕ) (salt : Bytes32) :
    exec w (env, .revealSwap sender tokenIn tokenOut amountIn minOut nonce salt) =
      fail .commitExpired := by
  have hlate := not_le.mpr (ledger_lt_of_expired hledger hexpired)
  have hlast : lastLedger w.storage.commitConfig entry < env.sequence := hexpired
  simp [exec, revealSwap, okOr, failIf, hstored, hlate, hlast, bind, Except.bind, fail]

/-- **Expired commits.** A sender whose commit has expired can commit again exactly while the slots are
not used up, and a reveal of the commit never frees its slot: the error undoes the cleanup. -/
theorem expired_keeps_slot (hledger : (env.sequence : ℤ) ≤ u32.max) (hauth : env.auth sender = true)
    (hstored : w.storage.commit sender = some entry) (hexpired : Expired env w.storage entry) :
    ¬ExpiredFreesSlot env w sender ∧
      ((∀ hash, commitSwap env w.storage sender hash ≠ fail .tooManyCommits) ↔
        w.storage.commitCount < w.storage.commitConfig.maxCommits) := by
  constructor
  · intro hfrees
    let salt : Bytes32 := Vector.replicate 32 0
    have hreveal := exec_reveal_of_expired hledger hstored hexpired sender sender 0 0 0 salt
    obtain ⟨hcleared, -⟩ := hfrees.reveal _ _ _ _ _ _ hreveal
    have hstay : (machine router χ).step w (env, .revealSwap sender sender sender 0 0 0 salt) = w := by
      unfold Machine.step
      rw [show (machine router χ).exec = exec from rfl, hreveal]
      rfl
    rw [hstay, hstored] at hcleared
    cases hcleared
  · have hiff := commitSwap_ne_tooManyCommits_iff hauth hstored hexpired
    exact ⟨fun hall => (hiff (Vector.replicate 32 0)).mp (hall _), fun hroom hash => (hiff hash).mpr hroom⟩

end Expired

/-- Governance allows one commit of one ledger, and 20 takes it. -/
def oneCommitCalls : List (RouterCall 0 ℤ) :=
  [(signedBy 10, .initializeRouter 1 []), (signedBy 10, .setCommitConfig 1 1),
    (signedBy 20, .commitSwap 20 (Vector.replicate 32 7))]

theorem expired_keeps_slot_at_capacity :
    let w := (machine 0 ℤ).run ⟨.deployed, 0⟩ oneCommitCalls
    let env : RouterEnv 0 ℤ := { signedBy 20 with sequence := 10 }
    ¬ExpiredFreesSlot env w 20 ∧
      ((∀ hash, commitSwap env w.storage 20 hash ≠ fail .tooManyCommits) ↔
        w.storage.commitCount < w.storage.commitConfig.maxCommits) :=
  expired_keeps_slot (by decide) (by decide)
    (show _ = some (⟨Vector.replicate 32 7, 1⟩ : CommitEntry) from rfl) (by unfold Expired; decide)

theorem expired_frees_slot_fails :
    ¬∀ (calls : List (RouterCall (0 : ℕ) ℤ)) (env : RouterEnv (0 : ℕ) ℤ) (sender : ℕ)
      (entry : CommitEntry), env.auth sender = true →
        ((machine 0 ℤ).run ⟨.deployed, 0⟩ calls).storage.commit sender = some entry →
        Expired env ((machine 0 ℤ).run ⟨.deployed, 0⟩ calls).storage entry →
          ExpiredFreesSlot env ((machine 0 ℤ).run ⟨.deployed, 0⟩ calls) sender := by
  intro hlaw
  have hfrees := hlaw oneCommitCalls { signedBy 20 with sequence := 10 } 20
    ⟨Vector.replicate 32 7, 1⟩ (by decide) (by rfl) (by unfold Expired; decide)
  exact hfrees.commit (Vector.replicate 32 9) (by rfl)

end CoralSwap.Router
