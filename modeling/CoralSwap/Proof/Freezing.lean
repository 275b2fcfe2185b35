import CoralSwap.Proof.PairRegistry

/-!
# A frozen pool is frozen everywhere

The frozen flag is kept twice, by the factory and by the pair. Only the factory's freeze calls write either copy, and
they write both or neither, so the copies agree. A call that sets the flag was signed by the fee setter or a quorum, one
that clears it by a quorum, and in between the guarded calls of the pair all fail.
-/

namespace CoralSwap

open Host Host.Call

/-! ### The guarded calls of a pair -/

section Pair

variable {Address : Type} [DecidableEq Address] {contract : Address}
variable {env : Env contract} {w w' : World Address}

def Op.NeedsUnfrozen : Op Address → Prop
  | .swap _ _ _ => True
  | .mint _ => True
  | .mintWithOneToken _ _ _ _ => True
  | .burnSingleSide _ _ _ _ => True
  | .flashLoan _ _ _ _ _ => True
  | _ => False

theorem unfrozen_of_exec {op : Op Address} (hop : op.NeedsUnfrozen) (hexec : exec w (env, op) = .ok w') :
    w.pair.frozen = false := by
  cases op with
  | swap amountAOut amountBOut dst =>
      simp only [exec, swap, bind_eq_ok, World.acquireLock_eq_ok, World.ensureNotFrozen_eq_ok] at hexec
      obtain ⟨_, ⟨_, ⟨-, rfl⟩, _, hfrozen, -⟩, -⟩ := hexec
      exact hfrozen
  | mint dst =>
      simp only [exec, bind_eq_ok] at hexec
      obtain ⟨⟨_, _⟩, hmint, -⟩ := hexec
      obtain ⟨_, _, _, hmint⟩ := mint_ok hmint
      exact hmint.unfrozen
  | mintWithOneToken dst tokenIn amount minLpOut =>
      simp only [exec, bind_eq_ok] at hexec
      obtain ⟨⟨_, _⟩, hmint, -⟩ := hexec
      obtain ⟨_, _, _, _, _, _, _, _, hmint⟩ := mintWithOneToken_ok hmint
      exact hmint.unfrozen
  | burnSingleSide dst lpAmount preferredToken minAmountOut =>
      simp only [exec, burnSingleSide, bind_eq_ok, World.acquireLock_eq_ok,
        World.ensureNotFrozen_eq_ok] at hexec
      obtain ⟨_, ⟨_, -, _, ⟨-, rfl⟩, _, hfrozen, -⟩, -⟩ := hexec
      exact hfrozen
  | flashLoan receiver amountA amountB dataLen callback =>
      simp only [exec, flashLoan, bind_eq_ok, World.ensureNotFrozen_eq_ok] at hexec
      obtain ⟨_, hfrozen, -⟩ := hexec
      exact hfrozen
  | _ => exact hop.elim

omit [DecidableEq Address] in
/-- A pair is frozen by its factory alone. -/
theorem auth_of_setFrozen {frozen : Bool} {state : PairStorage Address}
    (hstate : w.pair.pairState = some state) (hset : setFrozen env w frozen = .ok w') :
    env.auth state.factory = true := by
  simp only [setFrozen, bind_eq_ok, require_eq_ok, World.getPairState_eq_ok] at hset
  obtain ⟨state', hstate', _, hauth, -⟩ := hset
  obtain rfl := Option.some.inj (hstate'.symm.trans hstate)
  exact hauth

end Pair

/-! ### One call -/

namespace Protocol

variable {Address : Type} [LinearOrder Address]
variable {d : Deployment Address} {env : ProtocolEnv Address} {p p' : Protocol Address}

/-- An accepted call writes no frozen flag, or is a freeze call and writes both copies of one. -/
inductive FreezeStep (env : ProtocolEnv Address) (p p' : Protocol Address) (op : Op Address) : Prop where
  | kept (hflags : p'.factory.pairFrozen = p.factory.pairFrozen)
      (hpools : ∀ pair w', p'.pool pair = some w' →
        (p.pool pair = none ∧ w'.pair.frozen = false) ∨
          ∃ w, p.pool pair = some w ∧ w'.pair.frozen = w.pair.frozen)
  | froze {signers : List Address} {pair : Address} {frozen : Bool} {w' : World Address}
      (hop : op.asFreeze = some (signers, pair, frozen))
      (hauth : authorizes env p signers frozen = .ok ()) (hlisted : pair ∈ p.factory.pairList)
      (hflags : p'.factory.pairFrozen = Function.update p.factory.pairFrozen pair frozen)
      (hpools : p'.pool = Function.update p.pool pair (some w')) (hfrozen : w'.pair.frozen = frozen)

theorem FreezeStep.of_pool_eq {op : Op Address} (hflags : p'.factory.pairFrozen = p.factory.pairFrozen)
    (hpool : p'.pool = p.pool) : FreezeStep env p p' op := by
  refine .kept hflags fun pair w hafter => Or.inr ⟨w, ?_, rfl⟩
  rw [← hpool]
  exact hafter

/-- A call that writes to one pool, and not its flag. -/
theorem FreezeStep.of_one_pool {op : Op Address} {called : Address} {w w' : World Address}
    (hflags : p'.factory.pairFrozen = p.factory.pairFrozen) (hbefore : p.pool called = some w)
    (hafter : p'.pool called = some w') (hothers : ∀ pair, pair ≠ called → p'.pool pair = p.pool pair)
    (hfrozen : w'.pair.frozen = w.pair.frozen) : FreezeStep env p p' op := by
  refine .kept hflags fun pair v hpool => Or.inr ?_
  by_cases hpair : pair = called
  · subst hpair
    obtain rfl := Option.some.inj (hafter.symm.trans hpool)
    exact ⟨w, hbefore, hfrozen⟩
  · rw [hothers pair hpair] at hpool
    exact ⟨v, hpool, rfl⟩

/-- Nobody but the factory can make a pool set its flag, and outside the freeze calls it does not. -/
theorem not_setFrozen_of_asPairCall (hregistered : Registered d p) {op : Op Address} {byFactory : Bool}
    {pair : Address} {pairOp : CoralSwap.Op Address} {w w' : World Address}
    (hop : op.asPairCall = some (byFactory, pair, pairOp))
    (hcall : CallsPool d env p byFactory pair pairOp w w' p') (frozen : Bool) :
    pairOp ≠ .setFrozen frozen := by
  rintro rfl
  obtain ⟨state, hstate, hfactory, -⟩ := hregistered.opened pair w hcall.pool
  have hauth := auth_of_setFrozen hstate hcall.called
  have hbyFactory : byFactory = false := by
    cases op with
    | pair contract call =>
        cases hop
        rfl
    | _ => cases hop
  rw [hfactory, hbyFactory] at hauth
  simp [pairEnv] at hauth

theorem freezeStep_of_exec (hregistered : Registered d p) {op : Op Address}
    (hexec : exec d p (env, op) = .ok p') : FreezeStep env p p' op := by
  cases effect_of_exec hexec with
  | recorded _ _ hresult =>
      subst hresult
      exact .of_pool_eq rfl rfl
  | still _ hresult =>
      subst hresult
      exact .of_pool_eq rfl rfl
  | @created _ _ _ _ opened _ _ _ hcreate =>
      refine .kept (by rw [hcreate.result]; rfl) fun pair w hafter => ?_
      by_cases hpair : pair = opened
      · subst hpair
        left
        obtain rfl := Option.some.inj (hcreate.pool_self.symm.trans hafter)
        obtain ⟨-, -, hopened⟩ := initializePair_ok hcreate.opened
        refine ⟨?_, by rw [hopened]; rfl⟩
        rw [← Option.not_isSome_iff_eq_none, hregistered.pool]
        exact hcreate.unlisted hregistered
      · rw [hcreate.pool_of_ne hpair] at hafter
        exact Or.inr ⟨w, hafter, rfl⟩
  | @froze _ _ pair _ w w' relayed hop hauth hpair hcall hresult =>
      subst hresult
      have hlisted := (hregistered.isPair_iff pair).mp hpair
      have hpools : relayed.pool = Function.update p.pool pair (some w') := by
        rw [hcall.result]
        rfl
      exact .froze hop hauth hlisted rfl hpools (by rw [setFrozen_ok hcall.called])
  | froze_unknown _ hpair hpool =>
      obtain ⟨w, hsome⟩ := hregistered.exists_pool ((hregistered.isPair_iff _).mp hpair)
      cases hpool.symm.trans hsome
  | deposited hresult =>
      subst hresult
      exact .of_pool_eq rfl rfl
  | proposed _ _ _ hresult =>
      subst hresult
      exact .of_pool_eq rfl rfl
  | executed _ _ hresult =>
      subst hresult
      exact .of_pool_eq rfl rfl
  | cancelled _ hresult =>
      subst hresult
      exact .of_pool_eq rfl rfl
  | called hop hcall =>
      have hfrozen := frozen_of_exec (not_setFrozen_of_asPairCall hregistered hop hcall) hcall.called
      have hflags : p'.factory.pairFrozen = p.factory.pairFrozen := by
        rw [hcall.result]
        rfl
      exact .of_one_pool hflags hcall.pool hcall.pool_self (fun _ hne => hcall.pool_of_ne hne) hfrozen
  | reinitialized hpool _ hresult =>
      subst hresult
      exact .of_one_pool rfl hpool (pool_setPool_self ..) (fun _ hne => pool_setPool_of_ne hne _) rfl

/-! ### Runs -/

/-- The copies of the flag agree, and no flag is set for what is not a pair. -/
structure FrozenTogether (p : Protocol Address) : Prop where
  pool : ∀ pair w, p.pool pair = some w → w.pair.frozen = p.factory.isPairFrozen pair
  unlisted : ∀ pair, pair ∉ p.factory.pairList → p.factory.isPairFrozen pair = false

theorem frozenTogether_of_exec (hregistered : Registered d p) (htogether : FrozenTogether p)
    {op : Op Address} (hexec : exec d p (env, op) = .ok p') : FrozenTogether p' := by
  have hgrows := pairList_prefix_of_exec hexec
  cases freezeStep_of_exec hregistered hexec with
  | kept hflags hpools =>
      have hfrozen : p'.factory.isPairFrozen = p.factory.isPairFrozen := hflags
      constructor
      · intro pair w' hafter
        rw [hfrozen]
        rcases hpools pair w' hafter with ⟨hnone, hunfrozen⟩ | ⟨w, hbefore, hkept⟩
        · have hunlisted : pair ∉ p.factory.pairList := by
            rw [← hregistered.pool, hnone]
            exact Bool.false_ne_true
          rw [hunfrozen, htogether.unlisted pair hunlisted]
        · rw [hkept, htogether.pool pair w hbefore]
      · intro pair hunlisted
        rw [hfrozen]
        exact htogether.unlisted pair fun hlisted => hunlisted (hgrows.mem hlisted)
  | @froze _ frozenPair frozen w' _ _ hlisted hflags hpools hfrozen =>
      have hflag : ∀ pair, p'.factory.isPairFrozen pair =
          if pair = frozenPair then frozen else p.factory.isPairFrozen pair := by
        intro pair
        rw [FactoryContract.isPairFrozen, hflags, Function.update_apply]
        rfl
      constructor
      · intro pair v hafter
        rw [hflag]
        rw [hpools, Function.update_apply] at hafter
        split at hafter
        · rename_i hpair
          obtain rfl := Option.some.inj hafter
          rw [if_pos hpair, hfrozen]
        · rename_i hpair
          rw [if_neg hpair]
          exact htogether.pool pair v hafter
      · intro pair hunlisted
        have hne : pair ≠ frozenPair := by
          rintro rfl
          exact hunlisted (hgrows.mem hlisted)
        rw [hflag, if_neg hne]
        exact htogether.unlisted pair fun hlisted => hunlisted (hgrows.mem hlisted)

theorem frozenTogether_deployed (d : Deployment Address) : FrozenTogether (deployed d) where
  pool := fun _ _ hnone => nomatch hnone
  unlisted := fun _ _ => rfl

theorem frozenTogether_after (d : Deployment Address) (calls : List (ProtocolCall Address)) :
    FrozenTogether (after d calls) :=
  after_invariant (frozenTogether_deployed d)
    (fun _ _ _ _ _ hregistered htogether hexec => frozenTogether_of_exec hregistered htogether hexec) calls

/-! ### Who freezes, and who thaws -/

def SetterSigned (env : ProtocolEnv Address) (p : Protocol Address) (signers : List Address) : Prop :=
  ∃ storage, p.factory.storage = some storage ∧ signers = [storage.feeToSetter] ∧
    env.auth storage.feeToSetter = true

def QuorumSigned (env : ProtocolEnv Address) (p : Protocol Address) (signers : List Address) : Prop :=
  ∃ storage, p.factory.storage = some storage ∧
    Factory.verifyMultisig env.toFactoryEnv storage.signers signers = .ok ()

theorem signed_of_authorizeFreeze {signers : List Address} {u : Unit}
    (hauth : authorizeFreeze env p signers = .ok u) :
    SetterSigned env p signers ∨ QuorumSigned env p signers := by
  simp only [authorizeFreeze, Factory.getStorage, bind_eq_ok, okOr_eq_ok] at hauth
  obtain ⟨storage, hstored, hauth⟩ := hauth
  split at hauth
  · rename_i hsetter
    exact Or.inl ⟨storage, hstored, hsetter, require_eq_ok.mp hauth⟩
  · simp only [bind_eq_ok] at hauth
    obtain ⟨_, hquorum, -⟩ := hauth
    exact Or.inr ⟨storage, hstored, hquorum⟩

theorem signed_of_authorizeUnfreeze {signers : List Address} {u : Unit}
    (hauth : authorizeUnfreeze env p signers = .ok u) : QuorumSigned env p signers := by
  simp only [authorizeUnfreeze, Factory.getStorage, bind_eq_ok, okOr_eq_ok] at hauth
  obtain ⟨storage, hstored, _, hquorum, -⟩ := hauth
  exact ⟨storage, hstored, hquorum⟩

/-- A call that changes the flag of `pair` to `frozen` is the freeze call that does so, and is authorised. -/
theorem freeze_of_changed (hregistered : Registered d p) {op : Op Address} {pair : Address} {frozen : Bool}
    (hexec : exec d p (env, op) = .ok p') (hbefore : p.factory.isPairFrozen pair ≠ frozen)
    (hafter : p'.factory.isPairFrozen pair = frozen) :
    ∃ signers, op.asFreeze = some (signers, pair, frozen) ∧ authorizes env p signers frozen = .ok () := by
  cases freezeStep_of_exec hregistered hexec with
  | kept hflags =>
      rw [FactoryContract.isPairFrozen, hflags] at hafter
      exact absurd hafter hbefore
  | @froze signers frozenPair written _ hop hauth _ hflags =>
      rw [FactoryContract.isPairFrozen, hflags, Function.update_apply] at hafter
      split at hafter
      · rename_i hpair
        subst hpair hafter
        exact ⟨signers, hop, hauth⟩
      · exact absurd hafter hbefore

structure FreezeCoherent (d : Deployment Address) (p : Protocol Address) : Prop where
  together : ∀ pair ∈ p.factory.pairList, ∃ w, p.pool pair = some w ∧
    w.pair.frozen = p.factory.isPairFrozen pair
  blocks : ∀ pair ∈ p.factory.pairList, p.factory.isPairFrozen pair = true → ∀ env op,
    CoralSwap.Op.NeedsUnfrozen op → ¬(machine d).Accepts p (env, .pair pair op) ∧
      (machine d).step p (env, .pair pair op) = p
  /-- Whoever sets a flag is the fee setter or a quorum. -/
  sets : ∀ pair env op p', exec d p (env, op) = .ok p' → p.factory.isPairFrozen pair = false →
    p'.factory.isPairFrozen pair = true → ∃ signers, op = .freezePair signers pair ∧
      (SetterSigned env p signers ∨ QuorumSigned env p signers)
  /-- Whoever clears a flag is a quorum. -/
  clears : ∀ pair env op p', exec d p (env, op) = .ok p' → p.factory.isPairFrozen pair = true →
    p'.factory.isPairFrozen pair = false → ∃ signers, op = .unfreezePair signers pair ∧
      QuorumSigned env p signers

/-- **Freezing.** -/
theorem freezeCoherent (d : Deployment Address) (calls : List (ProtocolCall Address)) :
    FreezeCoherent d (after d calls) := by
  have hregistered := registered_after d calls
  have htogether := frozenTogether_after d calls
  refine ⟨?_, ?_, ?_, ?_⟩
  · intro pair hlisted
    obtain ⟨w, hpool⟩ := hregistered.exists_pool hlisted
    exact ⟨w, hpool, htogether.pool pair w hpool⟩
  · intro pair hlisted hflag env op hop
    obtain ⟨w, hpool⟩ := hregistered.exists_pool hlisted
    have hrejects : ¬(machine d).Accepts (after d calls) (env, .pair pair op) := by
      rintro ⟨p', hexec⟩
      rcases callPair_ok (mapCode_eq_ok.mp hexec) with ⟨w₀, w', hcall⟩ | ⟨hnone, -⟩
      · obtain rfl := Option.some.inj (hcall.pool.symm.trans hpool)
        have hunfrozen := unfrozen_of_exec hop hcall.called
        rw [htogether.pool pair w₀ hpool, hflag] at hunfrozen
        cases hunfrozen
      · cases hnone.symm.trans hpool
    refine ⟨hrejects, ?_⟩
    rcases Machine.step_cases (m := machine d) (after d calls) (env, .pair pair op) with hexec | hstay
    · exact absurd ⟨_, hexec⟩ hrejects
    · exact hstay
  · intro pair env op p' hexec hbefore hafter
    obtain ⟨signers, hop, hauth⟩ := freeze_of_changed hregistered hexec (by simp [hbefore]) hafter
    cases op with
    | freezePair signers' pair' =>
        cases hop
        exact ⟨signers, rfl, signed_of_authorizeFreeze hauth⟩
    | _ => cases hop
  · intro pair env op p' hexec hbefore hafter
    obtain ⟨signers, hop, hauth⟩ := freeze_of_changed hregistered hexec (by simp [hbefore]) hafter
    cases op with
    | unfreezePair signers' pair' =>
        cases hop
        exact ⟨signers, rfl, signed_of_authorizeUnfreeze hauth⟩
    | _ => cases hop

end Protocol

end CoralSwap
