import CoralSwap.Router.Machine

/-!
# Who configures the router

The commit bounds and the sweep ask the fee setter of the stored factory. The stored factory and the
hubs themselves are written by calls that ask nobody, so whoever replaces the factory also becomes
the one who is asked.
-/

namespace CoralSwap.Router

open Host Host.Call

variable {Address χ : Type} [LinearOrder Address] {router : Address}

structure SameConfig (s s' : RouterStorage Address) : Prop where
  factory : s'.factory = s.factory
  hubs : s'.hubs = s.hubs
  commitConfig : s'.commitConfig = s.commitConfig

/-- The call is authorised by the address that `factory` reports as its fee setter. -/
def GovernedBy (factory : Address) (w : RouterWorld Address χ) (call : RouterCall router χ) : Prop :=
  ∃ governance, call.1.chain.feeToSetter w.rest factory = some (some governance) ∧
    call.1.auth governance = true

/-- What a call may do to the configuration and to the router's balance when `factory` governs it. -/
structure ConfigGoverned (factory : Address) (w : RouterWorld Address χ)
    (call : RouterCall router χ) : Prop where
  config : ¬SameConfig w.storage ((machine router χ).step w call).storage → GovernedBy factory w call
  sweep : ∀ token recipient, call.2 = .sweep token recipient → (machine router χ).Accepts w call →
    GovernedBy factory w call

/-- `initialize` repeats the factory, and neither it nor `set_hubs` changes the hubs without the fee
setter of `factory`. -/
def KeepsGovernance (factory : Address) (w : RouterWorld Address χ) (call : RouterCall router χ) :
    Prop :=
  (∀ factory' hubs, call.2 = .initializeRouter factory' hubs →
      factory' = factory ∧ (hubs = w.storage.hubs ∨ GovernedBy factory w call)) ∧
    ∀ hubs, call.2 = .setHubs hubs → hubs = w.storage.hubs ∨ GovernedBy factory w call

/-! ### One call -/

section Call

variable {env : RouterEnv router χ} {w w' : RouterWorld Address χ} {factory : Address}

omit [LinearOrder Address] in
theorem SameConfig.refl (s : RouterStorage Address) : SameConfig s s := ⟨rfl, rfl, rfl⟩

theorem SameConfig.setCommit {s s' : RouterStorage Address} (h : SameConfig s s') (sender : Address)
    (entry : Option CommitEntry) : SameConfig s (s'.setCommit sender entry) :=
  ⟨h.factory, h.hubs, h.commitConfig⟩

omit [LinearOrder Address] in
theorem SameConfig.setCommitCount {s s' : RouterStorage Address} (h : SameConfig s s') (count : ℕ) :
    SameConfig s (s'.setCommitCount count) :=
  ⟨h.factory, h.hubs, h.commitConfig⟩

theorem SameConfig.setNonceUsed {s s' : RouterStorage Address} (h : SameConfig s s')
    (sender : Address) (nonce : ℕ) : SameConfig s (s'.setNonceUsed sender nonce) :=
  ⟨h.factory, h.hubs, h.commitConfig⟩

omit [LinearOrder Address] in
theorem SameConfig.of_eq {s s' : RouterStorage Address} (heq : s' = s) : SameConfig s s' :=
  heq ▸ .refl s

omit [LinearOrder Address] in
/-- A call whose result only replaces the state of the other contracts. -/
theorem storage_of_rest {α : Type} {call : Call RouterError (χ × α)}
    (hexec : (call >>= fun r => pure { w with rest := r.1 }) = .ok w') : w'.storage = w.storage := by
  simp only [bind_eq_ok, pure_eq_ok] at hexec
  obtain ⟨_, -, rfl⟩ := hexec
  rfl

theorem sameConfig_of_commitSwap {s s' : RouterStorage Address} {sender : Address} {hash : Bytes32}
    (hcommit : commitSwap env s sender hash = .ok s') : SameConfig s s' := by
  simp only [commitSwap, bind_eq_ok] at hcommit
  obtain ⟨-, -, hcommit⟩ := hcommit
  split at hcommit
  · simp only [bind_eq_ok, pure_eq_ok] at hcommit
    obtain ⟨-, -, rfl⟩ := hcommit
    exact ((SameConfig.refl s).setCommitCount _).setCommit _ _
  · simp only [bind_eq_ok, pure_eq_ok] at hcommit
    obtain ⟨-, -, rfl⟩ := hcommit
    exact (SameConfig.refl s).setCommit _ _

theorem sameConfig_of_pruneExpiredCommit (s : RouterStorage Address) (sender : Address) :
    SameConfig s (pruneExpiredCommit env s sender).1 := by
  unfold pruneExpiredCommit
  split
  · split
    · exact ((SameConfig.refl s).setCommit _ _).setCommitCount _
    · exact .refl s
  · exact .refl s

theorem sameConfig_of_revealSwap {s s' : RouterStorage Address} {rest rest' : χ}
    {sender tokenIn tokenOut : Address} {amountIn minOut out : ℤ} {nonce : ℕ} {salt : Bytes32}
    (hreveal : revealSwap env s rest sender tokenIn tokenOut amountIn minOut nonce salt =
      .ok (s', rest', out)) : SameConfig s s' := by
  simp only [revealSwap, bind_eq_ok, pure_eq_ok, Prod.exists] at hreveal
  obtain ⟨_, -, -, -, -, -, -, -, -, -, _, _, -, _, _, -, hresult⟩ := hreveal
  cases hresult
  exact (((SameConfig.refl s).setCommit _ _).setCommitCount _).setNonceUsed _ _

omit [LinearOrder Address] in
theorem governedBy_of_requireGovernance {op : Op Address χ} {u : Unit}
    (hfactory : w.storage.factory = some factory) (hguard : requireGovernance env w = .ok u) :
    GovernedBy factory w (env, op) := by
  simp only [requireGovernance, RouterStorage.getFactory, bind_eq_ok, okOr_eq_ok, orTrap_eq_ok,
    require_eq_ok] at hguard
  obtain ⟨stored, hstored, setter, hreported, governance, hsetter, hauth⟩ := hguard
  obtain rfl : stored = factory := Option.some.inj (hstored.symm.trans hfactory)
  exact ⟨governance, by rw [hreported, hsetter], hauth⟩

/-- **Step.** An accepted call keeps the configuration, or is one of the three that write it; those
that sweep or set the commit bounds are authorised by the stored factory's fee setter. -/
theorem config_of_exec {op : Op Address χ} (hfactory : w.storage.factory = some factory)
    (hkeeps : KeepsGovernance factory w (env, op)) (hexec : exec w (env, op) = .ok w') :
    w'.storage.factory = some factory ∧
      (¬SameConfig w.storage w'.storage → GovernedBy factory w (env, op)) := by
  have hsame : SameConfig w.storage w'.storage → w'.storage.factory = some factory ∧
      (¬SameConfig w.storage w'.storage → GovernedBy factory w (env, op)) :=
    fun hsame => ⟨hsame.factory.trans hfactory, fun hchanged => absurd hsame hchanged⟩
  cases op with
  | initializeRouter factory' hubs =>
      obtain rfl := pure_eq_ok.mp hexec
      obtain ⟨rfl, hhubs⟩ := hkeeps.1 factory' hubs rfl
      refine ⟨rfl, fun hchanged => hhubs.resolve_left ?_⟩
      rintro rfl
      exact hchanged ⟨hfactory.symm, rfl, rfl⟩
  | setHubs hubs =>
      obtain rfl := pure_eq_ok.mp hexec
      refine ⟨hfactory, fun hchanged => (hkeeps.2 hubs rfl).resolve_left ?_⟩
      rintro rfl
      exact hchanged ⟨rfl, rfl, rfl⟩
  | sweep token recipient =>
      simp only [exec, sweep, bind_eq_ok, pure_eq_ok] at hexec
      obtain ⟨_, ⟨_, -, _, -, _, -, _, -, rfl⟩, rfl⟩ := hexec
      exact hsame (.refl _)
  | getBestPath =>
      simp only [exec, bind_eq_ok, pure_eq_ok] at hexec
      obtain ⟨_, -, rfl⟩ := hexec
      exact hsame (.refl _)
  | swapExactTokensMultiHop => exact hsame (.of_eq (storage_of_rest hexec))
  | swapExactTokensForTokens => exact hsame (.of_eq (storage_of_rest hexec))
  | swapTokensForExactTokens => exact hsame (.of_eq (storage_of_rest hexec))
  | addLiquidity => exact hsame (.of_eq (storage_of_rest hexec))
  | removeLiquidity => exact hsame (.of_eq (storage_of_rest hexec))
  | commitSwap sender hash =>
      simp only [exec, bind_eq_ok, pure_eq_ok] at hexec
      obtain ⟨_, hcommit, rfl⟩ := hexec
      exact hsame (sameConfig_of_commitSwap hcommit)
  | setCommitConfig maxCommits expiryLedgers =>
      simp only [exec, setCommitConfig, bind_eq_ok, pure_eq_ok] at hexec
      obtain ⟨_, hguard, _, -, rfl⟩ := hexec
      exact ⟨hfactory, fun _ => governedBy_of_requireGovernance hfactory hguard⟩
  | pruneExpiredCommit sender =>
      obtain rfl := pure_eq_ok.mp hexec
      exact hsame (sameConfig_of_pruneExpiredCommit _ _)
  | revealSwap sender tokenIn tokenOut amountIn minOut nonce salt =>
      simp only [exec, bind_eq_ok, pure_eq_ok] at hexec
      obtain ⟨⟨_, _, _⟩, hreveal, rfl⟩ := hexec
      exact hsame (sameConfig_of_revealSwap hreveal)
  | elsewhere rest =>
      obtain rfl := pure_eq_ok.mp hexec
      exact hsame (.refl _)

omit [LinearOrder Address] in
theorem governedBy_of_sweep {token recipient : Address} {amount : ℤ}
    (hfactory : w.storage.factory = some factory)
    (hsweep : sweep env w token recipient = .ok (w', amount)) :
    GovernedBy factory w (env, Op.sweep token recipient) := by
  simp only [sweep, bind_eq_ok] at hsweep
  obtain ⟨_, hguard, -⟩ := hsweep
  exact governedBy_of_requireGovernance hfactory hguard

theorem configGoverned_of_keepsGovernance {call : RouterCall router χ}
    (hfactory : w.storage.factory = some factory) (hkeeps : KeepsGovernance factory w call) :
    ConfigGoverned factory w call := by
  obtain ⟨env, op⟩ := call
  constructor
  · intro hchanged
    rcases Machine.step_cases (m := machine router χ) w (env, op) with hexec | hstay
    · exact (config_of_exec hfactory hkeeps hexec).2 hchanged
    · rw [hstay] at hchanged
      exact absurd (SameConfig.refl _) hchanged
  · rintro token recipient rfl ⟨w', hexec⟩
    obtain ⟨⟨swept, amount⟩, hsweep, -⟩ := bind_eq_ok.mp hexec
    exact governedBy_of_sweep hfactory hsweep

end Call

/-! ### Runs -/

/-- **Governance.** After a first `initialize`, as long as nobody replaces the factory or the hubs, the
router keeps its factory, and what is configured or swept is authorised by its fee setter. -/
theorem config_governed {env₀ : RouterEnv router χ} {w₀ w : RouterWorld Address χ}
    {factory : Address} {hubs : List Address} {calls : List (RouterCall router χ)}
    (hinit : exec w₀ (env₀, .initializeRouter factory hubs) = .ok w)
    (hkeeps : (machine router χ).Along (KeepsGovernance factory) w calls) :
    (machine router χ).Along (ConfigGoverned factory) w calls ∧
      ((machine router χ).run w calls).storage.factory = some factory := by
  have hfactory : w.storage.factory = some factory := by
    obtain rfl := pure_eq_ok.mp hinit
    rfl
  have hstep : ∀ (w : RouterWorld Address χ) (call : RouterCall router χ) w',
      w.storage.factory = some factory → KeepsGovernance factory w call → exec w call = .ok w' →
        w'.storage.factory = some factory :=
    fun w call w' hfactory hkeeps hexec => (config_of_exec hfactory hkeeps hexec).1
  constructor
  · exact Machine.along_of_invariant (m := machine router χ)
      (I := fun w => w.storage.factory = some factory) hstep
      (fun _ _ => configGoverned_of_keepsGovernance) hfactory hkeeps
  · exact Machine.run_invariant (m := machine router χ)
      (I := fun w => w.storage.factory = some factory) hstep hfactory hkeeps

/-! ### Two factories -/

/-- Factory `f` has the fee setter `10 * f`, and the router at `0` holds the state's amount of the
only token. -/
def twoFactories : Chain ℕ ℤ where
  getPair := fun _ _ _ _ => none
  isPair := fun _ _ _ => none
  feeToSetter := fun _ factory => some (some (10 * factory))
  getReserves := fun _ _ => none
  getEffectiveFeeBps := fun _ _ => none
  swap := fun _ _ _ _ _ => none
  mint := fun _ _ _ => none
  depositLp := fun _ _ _ _ => none
  burn := fun _ _ _ => none
  transfer := fun held _ source _ amount => some (if source = 0 then held - amount else held)
  balance := fun held _ holder => some (if holder = 0 then held else 0)

def signedBy (signer : ℕ) : RouterEnv 0 ℤ where
  sequence := 1
  timestamp := 1
  auth := fun address => decide (address = signer)
  crypto := ⟨fun _ => [], fun _ => [], fun _ _ _ => false⟩
  chain := twoFactories

theorem config_governed_by_first_setter :
    let calls : List (RouterCall 0 ℤ) := [(signedBy 10, .setHubs [7]),
      (signedBy 10, .setCommitConfig 5 100), (signedBy 10, .sweep 7 10)]
    let w : RouterWorld ℕ ℤ := ⟨initializeRouter .deployed 1 [], 50⟩
    (machine 0 ℤ).Along (ConfigGoverned 1) w calls ∧
      ((machine 0 ℤ).run w calls).storage.factory = some 1 := by
  intro calls w
  have hinit : exec ⟨.deployed, 50⟩ (signedBy 10, .initializeRouter 1 []) = .ok w := rfl
  refine config_governed hinit ⟨⟨?_, ?_⟩, ⟨?_, ?_⟩, ⟨?_, ?_⟩, trivial⟩
  · rintro _ _ ⟨⟩
  · rintro hubs -
    exact Or.inr ⟨10, rfl, rfl⟩
  all_goals
    rintro _
    first | rintro _ ⟨⟩ | rintro ⟨⟩

/-- Anyone can call `initialize` again with a factory of their own, which then names them as the one
who may sweep. -/
theorem config_governed_fails_after_second_initialize :
    ¬∀ (env₀ : RouterEnv (0 : ℕ) ℤ) (w₀ w : RouterWorld ℕ ℤ) (factory : ℕ) (hubs : List ℕ)
      (calls : List (RouterCall 0 ℤ)),
      exec w₀ (env₀, .initializeRouter factory hubs) = .ok w →
        (machine 0 ℤ).Along (ConfigGoverned factory) w calls := by
  intro hlaw
  obtain ⟨-, hsecond, -⟩ := hlaw (signedBy 10) ⟨.deployed, 50⟩ _ 1 []
    [(signedBy 20, .initializeRouter 2 []), (signedBy 20, .sweep 7 20)] rfl
  obtain ⟨governance, hsetter, hauth⟩ := hsecond.sweep 7 20 rfl ⟨_, rfl⟩
  obtain rfl : 10 = governance := by simpa [signedBy, twoFactories] using hsetter
  simp [signedBy] at hauth

end CoralSwap.Router
