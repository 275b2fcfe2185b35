import CoralSwap.Proof.Digests
import CoralSwap.Proof.RouterCommits
import CoralSwap.Proof.RouterSwaps

/-!
# Commit and reveal along a run

A reveal goes back to one commit of its sender, with nothing of the sender's in between, so a commit
leads to one reveal at most. What is revealed is what was committed, in time, under a nonce no reveal
has used, and it is delivered.
-/

namespace CoralSwap.Router

open Host Host.Call Host.Encoding

variable {Address χ : Type} [LinearOrder Address] {router : Address}

/-! ### Whose commit it is -/

def Reveals (sender : Address) (call : RouterCall router χ) : Prop :=
  ∃ tokenIn tokenOut amountIn minOut nonce salt,
    call.2 = .revealSwap sender tokenIn tokenOut amountIn minOut nonce salt

/-- The calls that store or use up a commit of `sender`, when they are accepted. -/
def Touches (sender : Address) (call : RouterCall router χ) : Prop :=
  (∃ hash, call.2 = .commitSwap sender hash) ∨ Reveals sender call

def Commits (sender : Address) (entry : CommitEntry) (call : RouterCall router χ) : Prop :=
  call.1.sequence = entry.ledger ∧ call.2 = .commitSwap sender entry.hash

def RevealsNonce (sender : Address) (nonce : ℕ) (call : RouterCall router χ) : Prop :=
  ∃ tokenIn tokenOut amountIn minOut salt,
    call.2 = .revealSwap sender tokenIn tokenOut amountIn minOut nonce salt

section Origin

variable {env : RouterEnv router χ} {w w' : RouterWorld Address χ} {s s' : RouterStorage Address}
variable {sender : Address} {entry : CommitEntry} {hash : Bytes32} {nonce : ℕ} {op : Op Address χ}

theorem commit_of_commitSwap (hcommit : commitSwap env s sender hash = .ok s') :
    s'.commit sender = some ⟨hash, env.sequence⟩ := by
  simp only [commitSwap, bind_eq_ok] at hcommit
  obtain ⟨-, -, hcommit⟩ := hcommit
  split at hcommit
  · simp only [bind_eq_ok, failIf_eq_ok, pure_eq_ok, exists_const] at hcommit
    obtain ⟨-, rfl⟩ := hcommit
    exact Function.update_self _ _ _
  · simp only [bind_eq_ok, failIf_eq_ok, pure_eq_ok, exists_const] at hcommit
    obtain ⟨-, rfl⟩ := hcommit
    exact Function.update_self _ _ _

theorem exec_revealSwap_ok {tokenIn tokenOut : Address} {amountIn minOut : ℤ} {salt : Bytes32}
    (hexec : exec w (env, .revealSwap sender tokenIn tokenOut amountIn minOut nonce salt) = .ok w') :
    ∃ entry finalOut, RevealSettles env w.storage w.rest sender tokenIn tokenOut amountIn minOut nonce
      salt entry w'.storage w'.rest finalOut := by
  simp only [exec, bind_eq_ok, pure_eq_ok, Prod.exists] at hexec
  obtain ⟨storage, rest, finalOut, hreveal, rfl⟩ := hexec
  obtain ⟨entry, hsettles⟩ := revealSwap_ok hreveal
  exact ⟨entry, finalOut, hsettles⟩

theorem commit_of_reveals {call : RouterCall router χ} (hreveals : Reveals sender call)
    (hexec : exec w call = .ok w') : w'.storage.commit sender = none := by
  obtain ⟨env, op⟩ := call
  obtain ⟨tokenIn, tokenOut, amountIn, minOut, nonce, salt, rfl⟩ := hreveals
  obtain ⟨entry, finalOut, hsettles⟩ := exec_revealSwap_ok hexec
  rw [hsettles.result]
  exact Function.update_self _ _ _

/-- A call that touches the sender's commit leaves the one it stores, or none. -/
theorem commits_of_touches {call : RouterCall router χ} (htouches : Touches sender call)
    (hexec : exec w call = .ok w') (hstored : w'.storage.commit sender = some entry) :
    Commits sender entry call := by
  rcases htouches with ⟨hash, hop⟩ | hreveals
  · obtain ⟨env, op⟩ := call
    dsimp only at hop
    subst hop
    simp only [exec, bind_eq_ok, pure_eq_ok] at hexec
    obtain ⟨storage, hcommit, rfl⟩ := hexec
    obtain rfl := Option.some.inj ((commit_of_commitSwap hcommit).symm.trans hstored)
    exact ⟨rfl, rfl⟩
  · rw [commit_of_reveals hreveals hexec] at hstored
    cases hstored

/-- Any other call keeps the sender's commit or prunes it. -/
theorem commit_of_untouched {call : RouterCall router χ} (huntouched : ¬Touches sender call)
    (hexec : exec w call = .ok w') (hstored : w'.storage.commit sender = some entry) :
    w.storage.commit sender = some entry := by
  obtain ⟨env, op⟩ := call
  have heffect := commitEffect_of_exec hexec
  have hother : ∀ {s : RouterStorage Address} {other : Address} {value : Option CommitEntry},
      other ≠ sender → (s.setCommit other value).commit sender = s.commit sender :=
    fun hne => Function.update_of_ne hne.symm _ _
  cases heffect with
  | @opened other hash hnone hroom hresult =>
      have hne : other ≠ sender := by
        rintro rfl
        exact huntouched (Or.inl ⟨hash, rfl⟩)
      rw [hresult, hother hne] at hstored
      exact hstored
  | @replaced other hash existing hexisting hroom hresult =>
      have hne : other ≠ sender := by
        rintro rfl
        exact huntouched (Or.inl ⟨hash, rfl⟩)
      rw [hresult, hother hne] at hstored
      exact hstored
  | @pruned other pruned hpruned hexpired hresult =>
      by_cases hne : other = sender
      · subst hne
        rw [hresult, releaseSlot] at hstored
        have hnone : (w.storage.setCommit other none).commit other = none :=
          Function.update_self _ _ _
        exact absurd (hnone.symm.trans hstored) (by simp)
      · rw [hresult] at hstored
        exact (hother hne).symm.trans hstored
  | @revealed other tokenIn tokenOut amountIn minOut nonce salt used hused hresult =>
      have hne : other ≠ sender := by
        rintro rfl
        exact huntouched (Or.inr ⟨tokenIn, tokenOut, amountIn, minOut, nonce, salt, rfl⟩)
      rw [hresult] at hstored
      exact (hother hne).symm.trans hstored
  | configured hmax hresult =>
      rw [hresult] at hstored
      exact hstored
  | kept hsame =>
      rw [hsame.commit] at hstored
      exact hstored

/-- **Origin.** A stored commit is the work of one accepted call, after which no call of the sender's
has touched it. -/
theorem exists_commit {calls : List (RouterCall router χ)} (hstart : w.storage.commit sender = none)
    (hstored : ((machine router χ).run w calls).storage.commit sender = some entry) :
    ∃ first call second, calls = first ++ call :: second ∧ Commits sender entry call ∧
      (machine router χ).Accepts ((machine router χ).run w first) call ∧
        ¬(machine router χ).Occurs (Touches sender) ((machine router χ).run w (first ++ [call]))
          second := by
  rcases Machine.exists_origin (m := machine router χ)
    (I := fun w => w.storage.commit sender = some entry)
    (fun _ _ _ htouches hexec hstored => commits_of_touches htouches hexec hstored)
    (fun _ _ _ huntouched hexec hstored => commit_of_untouched huntouched hexec hstored) hstored
    with ⟨hheld, -⟩ | horigin
  · rw [hstart] at hheld
    cases hheld
  · exact horigin

/-- Between two reveals of a sender's there is a commit of the sender's. -/
theorem commit_occurs_of_reveals {calls first second : List (RouterCall router χ)}
    {earlier : RouterCall router χ} (hcalls : calls = first ++ earlier :: second)
    (hreveals : Reveals sender earlier)
    (haccepted : (machine router χ).Accepts ((machine router χ).run w first) earlier)
    (hstored : ((machine router χ).run w calls).storage.commit sender = some entry) :
    (machine router χ).Occurs (fun call => ∃ hash, call.2 = .commitSwap sender hash)
      ((machine router χ).run w (first ++ [earlier])) second := by
  obtain ⟨revealed, hexec⟩ := haccepted
  have hafter : (machine router χ).run w (first ++ [earlier]) = revealed := by
    rw [Machine.run_append, Machine.run_cons, Machine.run_nil, Machine.step_of_exec_ok hexec]
  have hsplit : (machine router χ).run w calls = (machine router χ).run revealed second := by
    rw [hcalls, ← hafter, ← Machine.run_append, List.append_assoc, List.singleton_append]
  rw [hsplit] at hstored
  rw [hafter]
  obtain ⟨between, call, rest, rfl, ⟨-, hop⟩, haccepted, -⟩ :=
    exists_commit (commit_of_reveals hreveals hexec) hstored
  exact Machine.occurs_append (Or.inl ⟨⟨_, hop⟩, haccepted⟩)

/-! ### Nonces -/

theorem nonceUsed_of_effect (heffect : CommitEffect env s s' op)
    (hused : s.nonceUsed sender nonce = true) : s'.nonceUsed sender nonce = true := by
  cases heffect with
  | opened hnone hroom hresult => rwa [hresult]
  | replaced hstored hroom hresult => rwa [hresult]
  | pruned hstored hexpired hresult => rwa [hresult]
  | @revealed other _ _ _ _ fresh _ _ hstored hresult =>
      rw [hresult]
      change Function.update s.nonceUsed other _ sender nonce = true
      by_cases hsender : sender = other
      · subst hsender
        rw [Function.update_self]
        by_cases hnonce : nonce = fresh
        · rw [hnonce, Function.update_self]
        · rwa [Function.update_of_ne hnonce]
      · rwa [Function.update_of_ne hsender]
  | configured hmax hresult => rwa [hresult]
  | kept hsame => rwa [hsame.nonceUsed]

theorem nonceUsed_of_reveals {call : RouterCall router χ} (hreveals : RevealsNonce sender nonce call)
    (hexec : exec w call = .ok w') : w'.storage.nonceUsed sender nonce = true := by
  obtain ⟨env, op⟩ := call
  obtain ⟨tokenIn, tokenOut, amountIn, minOut, salt, rfl⟩ := hreveals
  obtain ⟨entry, finalOut, hsettles⟩ := exec_revealSwap_ok hexec
  rw [hsettles.result]
  change Function.update w.storage.nonceUsed sender _ sender nonce = true
  rw [Function.update_self, Function.update_self]

theorem nonceUsed_of_occurs {calls : List (RouterCall router χ)}
    (hoccurs : (machine router χ).Occurs (RevealsNonce sender nonce) w calls) :
    ((machine router χ).run w calls).storage.nonceUsed sender nonce = true :=
  Machine.run_of_occurs (m := machine router χ) (I := fun _ => True) (P := fun _ _ => True)
    (R := fun w => w.storage.nonceUsed sender nonce = true) (fun _ _ _ _ _ _ => trivial)
    (fun _ _ _ _ hreveals hexec => nonceUsed_of_reveals hreveals hexec)
    (fun _ _ _ hused _ hexec => nonceUsed_of_effect (commitEffect_of_exec hexec) hused.2) trivial
    (Machine.along_of_forall_mem (P := fun _ => True) (fun _ _ => trivial) w) hoccurs

end Origin

/-! ### The path of a reveal -/

section BestPath

variable {env : RouterEnv router χ} {rest : χ} {storage : RouterStorage Address} {factory : Address}
variable {tokenIn tokenOut : Address} {amountIn quoted : ℤ} {path : List Address}

def Joins (tokenIn tokenOut : Address) (path : List Address) : Prop :=
  path.head? = some tokenIn ∧ path.getLast? = some tokenOut

theorem joins_of_candidate {hubs : List Address}
    (hcandidate : path ∈ [tokenIn, tokenOut] :: (oneHubPaths hubs tokenIn tokenOut ++
      twoHubPaths hubs tokenIn tokenOut)) : Joins tokenIn tokenOut path := by
  rw [List.mem_cons, List.mem_append] at hcandidate
  rcases hcandidate with rfl | hone | htwo
  · exact ⟨rfl, rfl⟩
  · obtain ⟨hub, -, rfl⟩ := List.mem_map.mp hone
    exact ⟨rfl, rfl⟩
  · obtain ⟨⟨hubI, i⟩, -, htwo⟩ := List.mem_flatMap.mp htwo
    obtain ⟨⟨hubJ, j⟩, -, rfl⟩ := List.mem_map.mp htwo
    exact ⟨rfl, rfl⟩

theorem joins_of_getBestPath
    (hbest : getBestPath env rest storage tokenIn tokenOut amountIn = .ok (path, quoted)) :
    tokenIn ≠ tokenOut ∧ Joins tokenIn tokenOut path := by
  simp only [getBestPath, bind_eq_ok, failIf_eq_ok, pure_eq_ok, exists_const] at hbest
  obtain ⟨hne, -, factory, -, best, hloop, hfound, rfl⟩ := hbest
  have hjoins : quoted < 0 ∨ Joins tokenIn tokenOut path := by
    refine foldlM_invariant (I := fun best => best.2 < 0 ∨ Joins tokenIn tokenOut best.1) ?_
      (Or.inl (show (-1 : ℤ) < 0 by decide)) hloop
    intro best candidate best' hcandidate hinv himprove
    simp only [improve, bind_eq_ok] at himprove
    obtain ⟨out, -, himprove⟩ := himprove
    cases out with
    | none =>
        obtain rfl := pure_eq_ok.mp himprove
        exact hinv
    | some out =>
        obtain rfl := pure_eq_ok.mp himprove
        split_ifs
        · exact Or.inr (joins_of_candidate hcandidate)
        · exact hinv
  exact ⟨hne, hjoins.resolve_left hfound⟩

end BestPath

/-! ### Every reveal -/

/-- What an accepted reveal of a run stands for. It goes back to a commit with no reveal of the
sender's in between, so to none that an earlier reveal goes back to. -/
structure RevealSafe (router : Address) (w₀ : RouterWorld Address (Network Address))
    (calls : List (RouterCall router (Network Address))) (env : RouterEnv router (Network Address))
    (revealed : SwapIntent Address) (w' : RouterWorld Address (Network Address)) : Prop where
  committed : ∃ first commitEnv hash second,
    calls = first ++ (commitEnv, .commitSwap revealed.sender hash) :: second ∧
    (machine router _).Accepts ((machine router _).run w₀ first)
      (commitEnv, .commitSwap revealed.sender hash) ∧
    ¬(machine router _).Occurs (Touches revealed.sender)
      ((machine router _).run w₀ (first ++ [(commitEnv, .commitSwap revealed.sender hash)])) second ∧
    commitEnv.sequence < env.sequence ∧
    env.sequence ≤ commitEnv.sequence +
      ((machine router _).run w₀ calls).storage.commitConfig.expiryLedgers ∧
    ∀ committed : SwapIntent Address, committed.hash env.crypto = hash.toList →
      SwapIntent.NoCollision env.crypto committed revealed → committed = revealed
  once : ∀ {first second earlier}, calls = first ++ earlier :: second →
    Reveals revealed.sender earlier → (machine router _).Accepts ((machine router _).run w₀ first) earlier →
      (machine router _).Occurs (fun call => ∃ hash, call.2 = .commitSwap revealed.sender hash)
        ((machine router _).run w₀ (first ++ [earlier])) second
  fresh : ¬(machine router _).Occurs (RevealsNonce revealed.sender revealed.nonce) w₀ calls
  delivered : ∀ {envOf : (pair : Address) → Env pair} {factory : Address},
    env.chain = networkChain envOf →
    ((machine router _).run w₀ calls).storage.factory = some factory →
    (∀ path, PathServed ((machine router _).run w₀ calls).rest factory router revealed.sender path) →
      (((machine router _).run w₀ calls).rest.ledger revealed.tokenOut).balance revealed.sender +
        revealed.minOut ≤ (w'.rest.ledger revealed.tokenOut).balance revealed.sender

def SwapIntent.reveal (intent : SwapIntent Address) : Op Address χ :=
  .revealSwap intent.sender intent.tokenIn intent.tokenOut intent.amountIn intent.minOut intent.nonce
    intent.salt

omit [LinearOrder Address] in
theorem lastLedger_le (config : RouterCommitConfig) (entry : CommitEntry) :
    lastLedger config entry ≤ entry.ledger + config.expiryLedgers := by
  unfold lastLedger Word.saturatingAdd Word.saturate u32
  dsimp only
  omega

/-- **Commit and reveal.** -/
theorem reveal_safe (rest : Network Address) {calls : List (RouterCall router (Network Address))}
    {env : RouterEnv router (Network Address)} {revealed : SwapIntent Address}
    {w' : RouterWorld Address (Network Address)} (hxdr : PrefixFree env.crypto.toXdr)
    (hexec : exec ((machine router _).run ⟨.deployed, rest⟩ calls) (env, revealed.reveal) = .ok w') :
    RevealSafe router ⟨.deployed, rest⟩ calls env revealed w' := by
  obtain ⟨entry, finalOut, hsettles⟩ := exec_revealSwap_ok hexec
  constructor
  · obtain ⟨first, ⟨commitEnv, op⟩, second, hcalls, ⟨hledger, hop⟩, haccepted, huntouched⟩ :=
      exists_commit (w := ⟨.deployed, rest⟩) rfl hsettles.stored
    dsimp only at hledger hop
    subst hop
    refine ⟨first, commitEnv, entry.hash, second, hcalls, haccepted, huntouched, ?_, ?_, ?_⟩
    · rw [hledger]
      exact hsettles.late
    · rw [hledger]
      exact hsettles.live.trans (lastLedger_le _ _)
    · intro committed hhash hcollision
      exact SwapIntent.eq_of_hash hxdr hcollision (hhash.trans hsettles.hash.symm)
  · intro first second earlier hcalls hreveals haccepted
    exact commit_occurs_of_reveals hcalls hreveals haccepted hsettles.stored
  · intro hoccurs
    have hused := nonceUsed_of_occurs hoccurs
    rw [hsettles.unused] at hused
    cases hused
  · intro envOf factory hchain hfactory hserved
    obtain ⟨path, quoted, hbest, hswap⟩ := hsettles.executed
    obtain ⟨hne, hin, hout⟩ := joins_of_getBestPath hbest
    have hstored : w'.storage.factory = some factory := by
      rw [hsettles.result]
      exact hfactory
    exact minimum_le_of_swap hchain hstored (hserved path) hin hout hne hswap

/-- An address is encoded in unary, and a digest is the start of what is hashed. -/
def hubCrypto : Crypto ℕ where
  toXdr := fun who => List.replicate who 1 ++ [0]
  sha256 := fun bytes => bytes.take 32
  ed25519Verify := fun _ _ _ => false

theorem hubCrypto_prefixFree : PrefixFree hubCrypto.toXdr := by
  intro x y hprefix
  induction x generalizing y with
  | zero =>
      cases y with
      | zero => rfl
      | succ y => simp [hubCrypto, List.replicate_succ] at hprefix
  | succ x ih =>
      cases y with
      | zero => simp [hubCrypto, List.replicate_succ] at hprefix
      | succ y =>
          have htail : hubCrypto.toXdr x <+: hubCrypto.toXdr y := by
            simpa [hubCrypto, List.replicate_succ] using hprefix
          rw [ih y htail]

def hubIntent : SwapIntent ℕ where
  sender := 1
  tokenIn := 20
  tokenOut := 22
  amountIn := 1000
  minOut := 900
  nonce := 3
  salt := Vector.replicate 32 7
  amountIn_fits := by decide
  minOut_fits := by decide
  nonce_fits := by decide

def hubEnvAt (sequence : ℕ) : RouterEnv 0 (Network ℕ) :=
  { hubEnv with sequence, crypto := hubCrypto }

def hubCalls : List (RouterCall 0 (Network ℕ)) :=
  [(hubEnvAt 5, .initializeRouter 5 [21]),
    (hubEnvAt 5, .commitSwap 1 ⟨(hubIntent.hash hubCrypto).toArray, by decide +kernel⟩)]

theorem reveal_safe_hub : ∃ w', (w'.rest.ledger 22).balance 1 = 20903 ∧
    RevealSafe 0 ⟨.deployed, hubNetwork⟩ hubCalls (hubEnvAt 6) hubIntent w' := by
  obtain ⟨w', hexec, hbalance⟩ := exists_ok_of_map_eq
    (f := fun w : RouterWorld ℕ (Network ℕ) => (w.rest.ledger 22).balance 1) (b := 20903)
    (show _ <$> exec ((machine 0 _).run ⟨.deployed, hubNetwork⟩ hubCalls)
      (hubEnvAt 6, hubIntent.reveal) = _ by decide +kernel)
  exact ⟨w', hbalance, reveal_safe hubNetwork hubCrypto_prefixFree hexec⟩

end CoralSwap.Router
