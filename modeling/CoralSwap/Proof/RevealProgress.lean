import CoralSwap.Proof.RevealSafety

/-!
# Nobody blocks a reveal

A commit stays until it expires, whatever others do in between, also in the sender's name. Its reveal is then
the trade it stands for, as if there had been no commit: it is refused where the trade is, and for the same
reason.
-/

namespace CoralSwap.Router

open Host Host.Call

variable {Address χ : Type} [LinearOrder Address] {router : Address}
variable {env : RouterEnv router χ} {w w' : RouterWorld Address χ} {s s' : RouterStorage Address}
variable {sender : Address} {entry : CommitEntry} {nonce : ℕ}

/-- The trade of a reveal without the commit: the whole amount over the path that is best at the moment. -/
def tradeBestPath (env : RouterEnv router χ) (rest : χ) (s : RouterStorage Address)
    (sender tokenIn tokenOut : Address) (amountIn minOut : ℤ) : Call RouterError χ := do
  let (path, _) ← getBestPath env rest s tokenIn tokenOut amountIn
  let (executed, _) ← swapExactTokensMultiHop env rest s path amountIn minOut sender u64.max.toNat none
  pure executed

/-- The sender's commit waits for a reveal under a nonce that is free. -/
structure Waits (sender : Address) (entry : CommitEntry) (nonce : ℕ) (s : RouterStorage Address) : Prop where
  stored : s.commit sender = some entry
  unused : s.nonceUsed sender nonce = false

omit [LinearOrder Address] in
/-- The commit can still be revealed at a ledger. -/
def LiveAt (sequence : ℕ) (entry : CommitEntry) (s : RouterStorage Address) : Prop :=
  sequence ≤ lastLedger s.commitConfig entry

omit [LinearOrder Address] in
instance (sequence : ℕ) (entry : CommitEntry) (s : RouterStorage Address) :
    Decidable (LiveAt sequence entry s) :=
  inferInstanceAs (Decidable (sequence ≤ lastLedger s.commitConfig entry))

/-! ### Calls of others -/

omit [LinearOrder Address] in
theorem failIf_of_not {c : Prop} [Decidable c] (hc : ¬c) (code : RouterError) : failIf c code = pure () :=
  if_neg hc

theorem auth_of_commitSwap {hash : Bytes32} (hcommit : commitSwap env s sender hash = .ok s') :
    env.auth sender = true := by
  simp only [commitSwap, bind_eq_ok, require_eq_ok, exists_const] at hcommit
  exact hcommit.1

theorem auth_of_executePath {rest executed : χ} {factory dst : Address} {path : List Address} {amountIn : ℤ}
    {amounts : List ℤ} (hrun : executePath env rest factory dst path amountIn amounts = .ok executed) :
    env.auth dst = true := by
  simp only [executePath, bind_eq_ok, require_eq_ok, exists_const] at hrun
  exact hrun.1

theorem auth_of_swapExactTokensMultiHop {rest rest' : χ} {path : List Address}
    {amountIn amountOutMin finalOut : ℤ} {dst : Address} {deadline : ℕ} {deadlineLedger : Option ℕ}
    (hswap : swapExactTokensMultiHop env rest s path amountIn amountOutMin dst deadline deadlineLedger =
      .ok (rest', finalOut)) : env.auth dst = true := by
  simp only [swapExactTokensMultiHop, bind_eq_ok] at hswap
  obtain ⟨_, -, _, -, _, -, factory, -, amounts, -, out, -, _, -, _, -, _, -, executed, hrun, -⟩ := hswap
  exact auth_of_executePath hrun

/-- A commit is made and revealed with the sender's signature only. -/
theorem auth_of_touches {call : RouterCall router χ} (htouches : Touches sender call)
    (hexec : exec w call = .ok w') : call.1.auth sender = true := by
  obtain ⟨env, op⟩ := call
  rcases htouches with ⟨hash, hop⟩ | ⟨tokenIn, tokenOut, amountIn, minOut, nonce, salt, hop⟩
  · dsimp only at hop
    subst hop
    simp only [exec, bind_eq_ok] at hexec
    obtain ⟨storage, hcommit, -⟩ := hexec
    exact auth_of_commitSwap hcommit
  · dsimp only at hop
    subst hop
    obtain ⟨entry, finalOut, hsettles⟩ := exec_revealSwap_ok hexec
    obtain ⟨path, quoted, -, hswap⟩ := hsettles.executed
    exact auth_of_swapExactTokensMultiHop hswap

/-- **Step.** A call that is not the sender's keeps a commit that has not expired. -/
theorem waits_of_exec {sequence : ℕ} {op : Op Address χ} (hwaits : Waits sender entry nonce w.storage)
    (hlive : LiveAt sequence entry w.storage) (hclock : env.sequence ≤ sequence)
    (huntouched : ¬Touches sender (env, op)) (hexec : exec w (env, op) = .ok w') :
    Waits sender entry nonce w'.storage := by
  have hother : ∀ {s : RouterStorage Address} {other : Address} {value : Option CommitEntry},
      other ≠ sender → (s.setCommit other value).commit sender = s.commit sender :=
    fun hne => Function.update_of_ne hne.symm _ _
  have hforeign : ∀ {other : Address}, (other = sender → Touches sender (env, op)) → other ≠ sender :=
    fun htouches hsame => huntouched (htouches hsame)
  cases commitEffect_of_exec hexec with
  | @opened other hash hnone hroom hresult =>
      have hne : other ≠ sender := hforeign fun hsame => Or.inl ⟨hash, by rw [hsame]⟩
      rw [hresult]
      exact ⟨(hother hne).trans hwaits.stored, hwaits.unused⟩
  | @replaced other hash existing hstored hroom hresult =>
      have hne : other ≠ sender := hforeign fun hsame => Or.inl ⟨hash, by rw [hsame]⟩
      rw [hresult]
      exact ⟨(hother hne).trans hwaits.stored, hwaits.unused⟩
  | @pruned other pruned hstored hexpired hresult =>
      have hne : other ≠ sender := by
        rintro rfl
        obtain rfl := Option.some.inj (hstored.symm.trans hwaits.stored)
        exact absurd hexpired (not_lt.mpr (hclock.trans hlive))
      rw [hresult]
      exact ⟨(hother hne).trans hwaits.stored, hwaits.unused⟩
  | @revealed other tokenIn tokenOut amountIn minOut used salt _ hstored hresult =>
      have hne : other ≠ sender :=
        hforeign fun hsame => Or.inr ⟨tokenIn, tokenOut, amountIn, minOut, used, salt, by rw [hsame]⟩
      rw [hresult]
      refine ⟨(hother hne).trans hwaits.stored, ?_⟩
      change Function.update w.storage.nonceUsed other _ sender nonce = false
      rw [Function.update_of_ne hne.symm]
      exact hwaits.unused
  | configured hmax hresult =>
      rw [hresult]
      exact ⟨hwaits.stored, hwaits.unused⟩
  | kept hsame => exact ⟨by rw [hsame.commit, hwaits.stored], by rw [hsame.nonceUsed, hwaits.unused]⟩

/-- A call of somebody else's before the reveal, while the commit is live. -/
structure Interferes (sender : Address) (entry : CommitEntry) (sequence : ℕ) (w : RouterWorld Address χ)
    (call : RouterCall router χ) : Prop where
  unsigned : Touches sender call → call.1.auth sender = false
  clock : call.1.sequence ≤ sequence
  live : LiveAt sequence entry w.storage

/-- **Run.** -/
theorem waits_of_run {sequence : ℕ} {calls : List (RouterCall router χ)}
    (hwaits : Waits sender entry nonce w.storage)
    (hcalls : (machine router χ).Along (Interferes sender entry sequence) w calls) :
    Waits sender entry nonce ((machine router χ).run w calls).storage := by
  refine Machine.run_invariant (m := machine router χ) (I := fun w => Waits sender entry nonce w.storage)
    (fun w call w' hwaits hcall hexec => ?_) hwaits hcalls
  refine waits_of_exec hwaits hcall.live hcall.clock (fun htouches => ?_) hexec
  have hsigned := auth_of_touches htouches hexec
  rw [hcall.unsigned htouches] at hsigned
  cases hsigned

/-! ### The reveal -/

theorem waits_of_commitSwap {hash : Bytes32} (hunused : s.nonceUsed sender nonce = false)
    (hcommit : commitSwap env s sender hash = .ok s') : Waits sender ⟨hash, env.sequence⟩ nonce s' := by
  refine ⟨commit_of_commitSwap hcommit, ?_⟩
  cases commitSwap_ok hcommit with
  | opened hnone hroom hresult => rwa [hresult]
  | replaced hstored hroom hresult => rwa [hresult]
  | kept hsame => rwa [hsame.nonceUsed]

/-- A reveal that passes its own checks is the trade. -/
theorem revealSwap_eq_trade {rest : χ} {tokenIn tokenOut : Address} {amountIn minOut : ℤ} {salt : Bytes32}
    (hwaits : Waits sender entry nonce s) (hlate : entry.ledger < env.sequence)
    (hlive : LiveAt env.sequence entry s)
    (hhash : computeSwapHash env.crypto sender tokenIn tokenOut amountIn minOut nonce salt =
      entry.hash.toList) :
    (fun revealed => revealed.2.1) <$>
        revealSwap env s rest sender tokenIn tokenOut amountIn minOut nonce salt =
      tradeBestPath env rest s sender tokenIn tokenOut amountIn minOut := by
  have hchecked : revealSwap env s rest sender tokenIn tokenOut amountIn minOut nonce salt = (do
      let (path, _) ← getBestPath env rest s tokenIn tokenOut amountIn
      let (executed, finalOut) ←
        swapExactTokensMultiHop env rest s path amountIn minOut sender u64.max.toNat none
      pure ((releaseSlot (s.setCommit sender none)).setNonceUsed sender nonce, executed, finalOut)) := by
    have hfound : (okOr (s.commit sender) .commitNotFound : Call RouterError CommitEntry) = pure entry := by
      rw [hwaits.stored]
      rfl
    simp only [revealSwap, hfound, pure_bind, failIf_of_not (not_le.mpr hlate), failIf_of_not (not_lt.mpr hlive),
      hwaits.unused, failIf_of_not Bool.false_ne_true, hhash, failIf_of_not (not_not.mpr rfl)]
    rfl
  rw [hchecked, tradeBestPath]
  simp only [map_bind, map_pure]

theorem rest_map_exec_reveal (w : RouterWorld Address χ) (intent : SwapIntent Address) :
    RouterWorld.rest <$> exec w (env, intent.reveal) =
      (fun revealed => revealed.2.1) <$> revealSwap env w.storage w.rest intent.sender intent.tokenIn
        intent.tokenOut intent.amountIn intent.minOut intent.nonce intent.salt := by
  simp only [SwapIntent.reveal, exec, map_bind, map_pure]
  rfl

/-- **Nobody blocks a reveal.** Between an accepted commit and the reveal of what it hashes, before the commit
expires, others may call what they like. The reveal does what the trade over the best path of the moment does. -/
theorem reveal_trades {commitEnv revealEnv : RouterEnv router χ} {intent : SwapIntent Address} {hash : Bytes32}
    {calls : List (RouterCall router χ)}
    (hcommit : (machine router χ).Accepts w (commitEnv, .commitSwap intent.sender hash))
    (hhash : intent.hash revealEnv.crypto = hash.toList)
    (hunused : w.storage.nonceUsed intent.sender intent.nonce = false)
    (hcalls : (machine router χ).Along (Interferes intent.sender ⟨hash, commitEnv.sequence⟩ revealEnv.sequence)
      ((machine router χ).step w (commitEnv, .commitSwap intent.sender hash)) calls)
    (hlate : commitEnv.sequence < revealEnv.sequence)
    (hlive : LiveAt revealEnv.sequence ⟨hash, commitEnv.sequence⟩
      ((machine router χ).run w ((commitEnv, .commitSwap intent.sender hash) :: calls)).storage) :
    let w' := (machine router χ).run w ((commitEnv, .commitSwap intent.sender hash) :: calls)
    RouterWorld.rest <$> exec w' (revealEnv, intent.reveal) =
      tradeBestPath revealEnv w'.rest w'.storage intent.sender intent.tokenIn intent.tokenOut intent.amountIn
        intent.minOut := by
  obtain ⟨committed, hexec⟩ := hcommit
  have hwaits : Waits intent.sender ⟨hash, commitEnv.sequence⟩ intent.nonce
      ((machine router χ).step w (commitEnv, .commitSwap intent.sender hash)).storage := by
    rw [Machine.step_of_exec_ok hexec]
    simp only [machine, exec, bind_eq_ok, pure_eq_ok] at hexec
    obtain ⟨storage, hstored, rfl⟩ := hexec
    exact waits_of_commitSwap hunused hstored
  have hwaiting := waits_of_run hwaits hcalls
  intro w'
  rw [rest_map_exec_reveal]
  exact revealSwap_eq_trade hwaiting hlate hlive hhash

/-- The calls of somebody who has seen the commit: a commit of their own, a prune and a reveal. -/
def hubRivals : List (RouterCall 0 (Network ℕ)) :=
  let env : RouterEnv 0 (Network ℕ) := { hubEnvAt 6 with auth := fun who => who = 2 }
  [(env, .commitSwap 2 (Vector.replicate 32 1)), (env, .pruneExpiredCommit 1), (env, hubIntent.reveal)]

theorem hubHash_size : (hubIntent.hash hubCrypto).toArray.size = 32 := by decide +kernel

def hubHash : Bytes32 := ⟨(hubIntent.hash hubCrypto).toArray, hubHash_size⟩

def hubConfigured : RouterWorld ℕ (Network ℕ) :=
  (machine 0 _).run ⟨.deployed, hubNetwork⟩ [(hubEnvAt 5, .initializeRouter 5 [21])]

theorem reveal_trades_hub :
    let w' := (machine 0 _).run hubConfigured ((hubEnvAt 5, .commitSwap hubIntent.sender hubHash) :: hubRivals)
    RouterWorld.rest <$> exec w' (hubEnvAt 7, hubIntent.reveal) =
      tradeBestPath (hubEnvAt 7) w'.rest w'.storage hubIntent.sender hubIntent.tokenIn hubIntent.tokenOut
        hubIntent.amountIn hubIntent.minOut := by
  have haccepted : (machine 0 _).Accepts hubConfigured (hubEnvAt 5, .commitSwap hubIntent.sender hubHash) :=
    ⟨_, Machine.exec_of_isOk (by decide +kernel)⟩
  refine reveal_trades haccepted (by decide +kernel) (by decide +kernel) ?_ (by decide) (by decide +kernel)
  exact ⟨⟨fun _ => rfl, by decide, by decide +kernel⟩, ⟨fun _ => rfl, by decide, by decide +kernel⟩,
    ⟨fun _ => rfl, by decide, by decide +kernel⟩, trivial⟩

end CoralSwap.Router
