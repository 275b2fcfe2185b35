import CoralSwap.Factory.Governance
import CoralSwap.Lib.Majority

/-!
# The quorum of the registered signers

`verify_multisig` accepts exactly the lists of signatures that are a quorum, so any two it accepts share a
signer. It counts distinct signers against the length of the registered list, which `initialize` takes
as it comes: a list with enough repetitions has no quorum.
-/

namespace CoralSwap.Factory

open Host Host.Call Majority

variable {Address : Type} [DecidableEq Address]
variable {env : FactoryEnv Address} {registered earlier presented : List Address}

theorem checkSigners_eq_ok {u : Unit} : checkSigners registered earlier presented = .ok u ↔
    presented ⊆ registered ∧ presented.Nodup ∧ earlier.Disjoint presented := by
  induction presented generalizing earlier with
  | nil => simp [checkSigners]
  | cons signer rest ih =>
      simp only [checkSigners, bind_eq_ok, failIf_eq_ok, exists_const, not_not, ih,
        List.cons_subset, List.nodup_cons, List.disjoint_append_left, List.disjoint_cons_right,
        List.singleton_disjoint]
      constructor
      · rintro ⟨hmem, hnew, hsubset, hnodup, hdisjoint, hnotMem⟩
        exact ⟨⟨hmem, hsubset⟩, ⟨hnotMem, hnodup⟩, hnew, hdisjoint⟩
      · rintro ⟨⟨hmem, hsubset⟩, ⟨hnotMem, hnodup⟩, hnew, hdisjoint⟩
        exact ⟨hmem, hnew, hsubset, hnodup, hdisjoint, hnotMem⟩

theorem verifyMultisig_eq_ok {u : Unit} : verifyMultisig env registered presented = .ok u ↔
    registered ≠ [] ∧ Quorum registered presented ∧ ∀ signer ∈ presented, env.auth signer = true := by
  simp only [verifyMultisig, bind_eq_ok, failIf_eq_ok, require_eq_ok, exists_const,
    checkSigners_eq_ok, List.disjoint_nil_left, and_true, not_lt]
  unfold quorumThreshold
  constructor
  · rintro ⟨hne, ⟨hsubset, hnodup⟩, hlength, hauth⟩
    exact ⟨hne, ⟨hnodup, hsubset, by omega⟩, hauth⟩
  · rintro ⟨hne, ⟨hnodup, hsubset, hhalf⟩, hauth⟩
    exact ⟨hne, ⟨hsubset, hnodup⟩, by omega, hauth⟩

/-! ### Any two quorums -/

/-- **Quorum intersection.** -/
theorem verifyMultisig_iff_and_share (registered : List Address) :
    (∀ (env : FactoryEnv Address) (presented : List Address),
      verifyMultisig env registered presented = .ok () ↔
        registered ≠ [] ∧ presented.Nodup ∧ (∀ signer ∈ presented, signer ∈ registered) ∧
          (∀ signer ∈ presented, env.auth signer = true) ∧
          registered.length < 2 * presented.length) ∧
      ∀ (env env' : FactoryEnv Address) (first second : List Address),
        verifyMultisig env registered first = .ok () →
          verifyMultisig env' registered second = .ok () →
            ∃ signer, signer ∈ first ∧ signer ∈ second := by
  constructor
  · intro env presented
    rw [verifyMultisig_eq_ok]
    constructor
    · rintro ⟨hne, ⟨hnodup, hsubset, hhalf⟩, hauth⟩
      exact ⟨hne, hnodup, fun _ hsigner => hsubset hsigner, hauth, hhalf⟩
    · rintro ⟨hne, hnodup, hsubset, hauth, hhalf⟩
      exact ⟨hne, ⟨hnodup, fun _ hsigner => hsubset _ hsigner, hhalf⟩, hauth⟩
  · intro env env' first second hfirst hsecond
    exact (verifyMultisig_eq_ok.mp hfirst).2.1.inter (verifyMultisig_eq_ok.mp hsecond).2.1

/-! ### Whether there is one -/

/-- Some signers, all of them willing, can act for the registered ones. -/
def QuorumReachable (registered : List Address) : Prop :=
  ∃ presented : List Address, ∀ env : FactoryEnv Address,
    (∀ signer ∈ presented, env.auth signer = true) →
      verifyMultisig env registered presented = .ok ()

theorem quorumReachable_of_ne_nil (hne : registered ≠ []) :
    QuorumReachable registered ↔ ∃ votes, Quorum registered votes := by
  constructor
  · rintro ⟨presented, haccepted⟩
    exact ⟨presented, (verifyMultisig_eq_ok.mp (haccepted ⟨fun _ => true⟩ fun _ _ => rfl)).2.1⟩
  · rintro ⟨votes, hquorum⟩
    exact ⟨votes, fun env hauth => verifyMultisig_eq_ok.mpr ⟨hne, hquorum, hauth⟩⟩

variable {f f' : Factory Address} {signers : List Address} {feeToSetter : Address}
variable {pairWasmHash concentratedPairWasmHash lpTokenWasmHash : Bytes32}

omit [DecidableEq Address] in
theorem initializeFactory_ok (hinit : initializeFactory f signers pairWasmHash
    concentratedPairWasmHash lpTokenWasmHash feeToSetter = .ok f') :
    f.storage = none ∧ 1 ≤ signers.length ∧ f' = f.setStorage
      { signers, pairWasmHash, concentratedPairWasmHash, lpTokenWasmHash
        pairCount := 0, protocolVersion, paused := false
        feeTo := none, feeToSetter, feeBps := 0 } := by
  simp only [initializeFactory, bind_eq_ok, failIf_eq_ok, pure_eq_ok, exists_const,
    Bool.not_eq_true, Option.isSome_eq_false_iff, Option.isNone_iff_eq_none, not_or] at hinit
  obtain ⟨hnone, ⟨hlength, -⟩, rfl⟩ := hinit
  exact ⟨hnone, by omega, rfl⟩

/-- **Reachable quorums.** The signers registered by `initialize` can act exactly when the distinct ones
among them are as many as the threshold for the list. -/
theorem quorumReachable_iff {storage : FactoryStorage Address}
    (hinit : initializeFactory f signers pairWasmHash concentratedPairWasmHash lpTokenWasmHash
      feeToSetter = .ok f') (hstorage : f'.storage = some storage) :
    QuorumReachable storage.signers ↔ quorumThreshold signers.length ≤ signers.dedup.length := by
  obtain ⟨-, hlength, rfl⟩ := initializeFactory_ok hinit
  obtain rfl := Option.some.inj hstorage
  have hne : signers ≠ [] := List.ne_nil_of_length_pos hlength
  rw [quorumReachable_of_ne_nil hne, exists_quorum_iff, quorumThreshold]
  constructor <;> intro hhalf <;> omega

theorem quorumReachable_iff_of_three :
    ∃ f' storage, initializeFactory (deployed : Factory ℕ) [1, 2, 1] (.replicate 32 0)
      (.replicate 32 0) (.replicate 32 0) 9 = .ok f' ∧ f'.storage = some storage ∧
        (QuorumReachable storage.signers ↔
          quorumThreshold [1, 2, 1].length ≤ [1, 2, 1].dedup.length) :=
  ⟨_, _, rfl, rfl, quorumReachable_iff (f := deployed) rfl rfl⟩

theorem not_quorumReachable_of_repeated_signer :
    ¬∀ (f f' : Factory ℕ) (signers : List ℕ) (hash : Bytes32) (storage : FactoryStorage ℕ),
      initializeFactory f signers hash hash hash 9 = .ok f' → f'.storage = some storage →
        QuorumReachable storage.signers := by
  intro hreachable
  have hquorum := hreachable deployed _ [1, 1] (.replicate 32 0) _ rfl rfl
  obtain ⟨votes, hvotes⟩ := (quorumReachable_of_ne_nil (by simp)).mp hquorum
  have hlength := hvotes.length_le_dedup
  have hhalf := hvotes.half
  simp at hlength hhalf
  omega

end CoralSwap.Factory
