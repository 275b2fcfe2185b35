import Mathlib.Tactic

/-!
# Contract calls

A call of a contract either returns, fails with a typed error of the contract, or is trapped by the
host. A failing call leaves no trace: whoever runs it keeps the state the call started from. The
combinators below are the ways a contract ends a call early, each with the inversion rule that
recovers what a successful call went through.
-/

namespace Host

inductive Fault (ε : Type) where
  | error (code : ε)
  | trap
  deriving DecidableEq, Repr

abbrev Call (ε α : Type) := Except (Fault ε) α

namespace Call

variable {ε δ α β : Type}

def fail (code : ε) : Call ε α := .error (.error code)

def trap : Call ε α := .error .trap

def failIf (c : Prop) [Decidable c] (code : ε) : Call ε Unit :=
  if c then fail code else .ok ()

def okOr (value : Option α) (code : ε) : Call ε α :=
  match value with
  | some a => .ok a
  | none => fail code

/-- An operation of the host or of the language that traps when it has no result. -/
def orTrap (value : Option α) : Call ε α :=
  match value with
  | some a => .ok a
  | none => trap

def require (c : Prop) [Decidable c] : Call ε Unit :=
  if c then .ok () else trap

def nested (call : Call δ α) : Call ε α :=
  match call with
  | .ok a => .ok a
  | .error _ => trap

/-- `call.ok()`: a typed error is caught, a trap is not. -/
def attempt (call : Call δ α) : Call ε (Option α) :=
  match call with
  | .ok a => .ok (some a)
  | .error (.error _) => .ok none
  | .error .trap => trap

/-- `try_call().map_err(|_| code)?` at both layers: a typed error and a trap end in the same error. -/
def orFail (call : Call δ α) (code : ε) : Call ε α :=
  match call with
  | .ok a => .ok a
  | .error _ => fail code

/-- A call seen from outside, its typed error under another name. -/
def mapCode (name : δ → ε) (call : Call δ α) : Call ε α :=
  match call with
  | .ok a => .ok a
  | .error (.error code) => fail (name code)
  | .error .trap => trap

/-- The state a top-level call leaves behind: a failing call is rolled back. -/
def commit {σ : Type} (call : Call ε σ) (before : σ) : σ :=
  match call with
  | .ok after => after
  | .error _ => before

@[simp]
theorem bind_eq_ok {call : Call ε α} {next : α → Call ε β} {b : β} :
    (call >>= next) = .ok b ↔ ∃ a, call = .ok a ∧ next a = .ok b := by
  cases call with
  | error fault => simp [bind, Except.bind]
  | ok a => simp [bind, Except.bind]

@[simp]
theorem pure_eq_ok {a b : α} : (pure a : Call ε α) = .ok b ↔ a = b := by
  simp [pure, Except.pure]

@[simp]
theorem fail_ne_ok {code : ε} {a : α} : (fail code : Call ε α) = .ok a ↔ False := by
  simp [fail]

@[simp]
theorem trap_ne_ok {a : α} : (trap : Call ε α) = .ok a ↔ False := by
  simp [trap]

@[simp]
theorem failIf_eq_ok {c : Prop} [Decidable c] {code : ε} {u : Unit} :
    failIf c code = .ok u ↔ ¬c := by
  unfold failIf
  split <;> simp_all

@[simp]
theorem okOr_eq_ok {value : Option α} {code : ε} {a : α} :
    okOr value code = .ok a ↔ value = some a := by
  cases value <;> simp [okOr]

@[simp]
theorem orTrap_eq_ok {value : Option α} {a : α} :
    (orTrap value : Call ε α) = .ok a ↔ value = some a := by
  cases value <;> simp [orTrap]

@[simp]
theorem orTrap_some (a : α) : (orTrap (some a) : Call ε α) = pure a := rfl

@[simp]
theorem require_eq_ok {c : Prop} [Decidable c] {u : Unit} :
    (require c : Call ε Unit) = .ok u ↔ c := by
  unfold require
  split <;> simp_all

@[simp]
theorem nested_eq_ok {call : Call δ α} {a : α} :
    (nested call : Call ε α) = .ok a ↔ call = .ok a := by
  cases call <;> simp [nested]

@[simp]
theorem orFail_eq_ok {call : Call δ α} {code : ε} {a : α} :
    orFail call code = .ok a ↔ call = .ok a := by
  cases call <;> simp [orFail]

@[simp]
theorem mapCode_eq_ok {name : δ → ε} {call : Call δ α} {a : α} :
    mapCode name call = .ok a ↔ call = .ok a := by
  rcases call with ⟨code | _⟩ | a <;> simp [mapCode]

@[simp]
theorem toOption_eq_some {call : Call ε α} {a : α} : call.toOption = some a ↔ call = .ok a := by
  cases call <;> simp [Except.toOption]

@[simp]
theorem commit_ok {σ : Type} (after before : σ) :
    commit (.ok after : Call ε σ) before = after := rfl

@[simp]
theorem commit_error {σ : Type} (fault : Fault ε) (before : σ) :
    commit (.error fault : Call ε σ) before = before := rfl

/-- Every result of the call satisfies `P`. Where `P` is settled by the last steps of a call, the ones before
them are passed over one by one. -/
def Returns (P : α → Prop) (call : Call ε α) : Prop := ∀ a, call = .ok a → P a

theorem Returns.bind {P : β → Prop} {call : Call ε α} {next : α → Call ε β}
    (hnext : ∀ a, Returns P (next a)) : Returns P (call >>= next) := by
  intro b hcall
  obtain ⟨a, -, hb⟩ := bind_eq_ok.mp hcall
  exact hnext a b hb

theorem Returns.ret {P : α → Prop} {a : α} (ha : P a) : Returns P (pure a : Call ε α) := by
  intro b hcall
  exact pure_eq_ok.mp hcall ▸ ha

/-- **Loops.** What every round of a loop keeps holds when it ends. -/
theorem foldlM_invariant {I : β → Prop} {round : β → α → Call ε β} {items : List α} {b b' : β}
    (hround : ∀ b a b', a ∈ items → I b → round b a = .ok b' → I b') (hstart : I b)
    (hloop : items.foldlM round b = .ok b') : I b' := by
  induction items generalizing b with
  | nil =>
      obtain rfl := pure_eq_ok.mp hloop
      exact hstart
  | cons a items ih =>
      rw [List.foldlM_cons, bind_eq_ok] at hloop
      obtain ⟨next, hnext, hloop⟩ := hloop
      exact ih (fun b c b' hc => hround b c b' (List.mem_cons_of_mem _ hc))
        (hround b a next List.mem_cons_self hstart hnext) hloop

theorem exists_ok_of_map_eq {call : Call ε α} {f : α → β} {b : β} (hcall : f <$> call = .ok b) :
    ∃ a, call = .ok a ∧ f a = b := by
  cases call with
  | error fault => cases hcall
  | ok a =>
      cases hcall
      exact ⟨a, rfl, rfl⟩

end Call

end Host
