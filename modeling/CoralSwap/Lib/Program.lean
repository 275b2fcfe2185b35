import CoralSwap.Lib.Machine

/-!
# Contracts that call out

The code of a contract as a program: it reads and writes its storage, may fail, and now and then hands
control to a callee. A callee acts on its own and calls the contract back, each call back with callees of
its own. What the frame of a call leaves behind before anything is rolled back is part of its outcome, and
so is a log of the calls back.
-/

namespace Host

open Call

inductive Program (σ ε α : Type) where
  | ret (a : α)
  | stop (fault : Fault ε)
  | get (next : σ → Program σ ε α)
  | put (s : σ) (next : Program σ ε α)
  | callOut (next : Bool → Program σ ε α)

namespace Program

variable {σ ε ι κ η α β : Type}

def bind : Program σ ε α → (α → Program σ ε β) → Program σ ε β
  | .ret a, f => f a
  | .stop fault, _ => .stop fault
  | .get next, f => .get fun s => (next s).bind f
  | .put s next, f => .put s (next.bind f)
  | .callOut next, f => .callOut fun returns => (next returns).bind f

instance : Monad (Program σ ε) where
  pure := .ret
  bind := bind

def lift : Call ε α → Program σ ε α
  | .ok a => .ret a
  | .error fault => .stop fault

def read : Program σ ε σ := .get .ret

def write (s : σ) : Program σ ε Unit := .put s (.ret ())

/-- Hands control to the next callee, and learns whether it returns. -/
def handOver : Program σ ε Bool := .callOut .ret

/-- A guard that is dropped on every exit: `cleanup` runs on return and on a typed error, not on a trap. -/
def onExit (cleanup : σ → σ) : Program σ ε α → Program σ ε α
  | .ret a => .get fun s => .put (cleanup s) (.ret a)
  | .stop (.error code) => .get fun s => .put (cleanup s) (.stop (.error code))
  | .stop .trap => .stop .trap
  | .get next => .get fun s => (next s).onExit cleanup
  | .put s next => .put s (next.onExit cleanup)
  | .callOut next => .callOut fun returns => (next returns).onExit cleanup

/-- How a frame ends: its result, the storage it leaves behind, and what its callees have logged. -/
structure Frame (σ ε η α : Type) where
  result : Call ε α
  exit : σ
  log : List η

/-- The storage after the frame: that of a failing frame is rolled back. -/
def Frame.settle (frame : Frame σ ε η α) (before : σ) : σ :=
  commit (frame.result.map fun _ => frame.exit) before

structure Callee (σ η : Type) where
  act : σ → σ × List η
  returns : Bool

/-- The program with its callees in order; once they have run out, a callee does nothing and returns. -/
def play : Program σ ε α → List (Callee σ η) → σ → Frame σ ε η α
  | .ret a, _, s => ⟨.ok a, s, []⟩
  | .stop fault, _, s => ⟨.error fault, s, []⟩
  | .get next, callees, s => (next s).play callees s
  | .put s next, callees, _ => next.play callees s
  | .callOut next, [], s => (next true).play [] s
  | .callOut next, callee :: rest, s =>
      let frame := (next callee.returns).play rest (callee.act s).1
      { frame with log := (callee.act s).2 ++ frame.log }

/-- The program on its own: its callees do nothing and return. -/
def run : Program σ ε α → σ → Call ε (α × σ)
  | .ret a, s => .ok (a, s)
  | .stop fault, _ => .error fault
  | .get next, s => (next s).run s
  | .put s next, _ => next.run s
  | .callOut next, s => (next true).run s

/-- Wherever the program has written, and wherever it calls out, `I` holds of its storage, as long as its
callees keep it. -/
def Keeps (I : σ → Prop) : Program σ ε α → Prop
  | .ret _ => True
  | .stop _ => True
  | .get next => ∀ s, I s → (next s).Keeps I
  | .put s next => I s ∧ next.Keeps I
  | .callOut next => ∀ returns, (next returns).Keeps I

/-- At `s` the program ends before it writes or calls out. -/
def EndsAtOnce (p : Program σ ε α) (s : σ) (result : Call ε α) : Prop :=
  ∀ (η : Type) (callees : List (Callee σ η)), p.play callees s = ⟨result, s, []⟩

/-! ### Calls back -/

/-- What a callee does: act outside the contract, or call it back, with the callees that call meets. -/
inductive Action (ι κ : Type) where
  | outside (action : κ)
  | enter (call : ι) (callees : List (List (Action ι κ) × Bool))

structure Event (σ ι ε : Type) where
  call : ι
  before : σ
  result : Call ε Unit
  exit : σ

/-- A contract by the code of its calls, and what can happen outside it. -/
structure Contract (σ ι κ ε : Type) where
  code : ι → Program σ ε Unit
  outside : Machine σ κ ε

namespace Contract

variable (c : Contract σ ι κ ε)

mutual

def act : Action ι κ → σ → σ × List (Event σ ι ε)
  | .outside action, s => (c.outside.step s action, [])
  | .enter call callees, s =>
      let frame := (c.code call).play (calleesOf callees) s
      (frame.settle s, ⟨call, s, frame.result, frame.exit⟩ :: frame.log)

def actAll : List (Action ι κ) → σ → σ × List (Event σ ι ε)
  | [], s => (s, [])
  | action :: rest, s =>
      let first := act action s
      let others := actAll rest first.1
      (others.1, first.2 ++ others.2)

def calleeOf : List (Action ι κ) × Bool → Callee σ (Event σ ι ε)
  | (actions, returns) => ⟨actAll actions, returns⟩

def calleesOf : List (List (Action ι κ) × Bool) → List (Callee σ (Event σ ι ε))
  | [] => []
  | callee :: rest => calleeOf callee :: calleesOf rest

end

end Contract

/-! ### Running a program on its own -/

section Run

variable {p : Program σ ε α} {f : α → Program σ ε β} {s : σ}

@[simp]
theorem run_pure (a : α) : (pure a : Program σ ε α).run s = pure (a, s) := rfl

@[simp]
theorem run_bind : (p >>= f).run s = p.run s >>= fun done => (f done.1).run done.2 := by
  show (p.bind f).run s = _
  induction p generalizing s with
  | ret a => rfl
  | stop fault => rfl
  | get next ih => exact ih s
  | put s next ih => exact ih
  | callOut next ih => exact ih true

@[simp]
theorem run_lift (call : Call ε α) :
    (lift call : Program σ ε α).run s = call >>= fun a => pure (a, s) := by
  cases call with
  | ok a => rfl
  | error fault => rfl

@[simp]
theorem run_read : (read : Program σ ε σ).run s = pure (s, s) := rfl

@[simp]
theorem run_write (s' : σ) : (write s' : Program σ ε Unit).run s = pure ((), s') := rfl

@[simp]
theorem run_handOver : (handOver : Program σ ε Bool).run s = pure (true, s) := rfl

@[simp]
theorem run_onExit (cleanup : σ → σ) :
    (p.onExit cleanup).run s = p.run s >>= fun done => pure (done.1, cleanup done.2) := by
  induction p generalizing s with
  | ret a => rfl
  | stop fault => cases fault <;> rfl
  | get next ih => exact ih s
  | put s next ih => exact ih
  | callOut next ih => exact ih true

end Run

/-! ### What holds throughout a program -/

section Keeps

variable {I : σ → Prop} {p : Program σ ε α} {f : α → Program σ ε β}

theorem Keeps.bind (hp : p.Keeps I) (hf : ∀ a, (f a).Keeps I) : (p >>= f).Keeps I := by
  show (p.bind f).Keeps I
  induction p with
  | ret a => exact hf a
  | stop fault => trivial
  | get next ih => exact fun s hs => ih s (hp s hs)
  | put s next ih => exact ⟨hp.1, ih hp.2⟩
  | callOut next ih => exact fun returns => ih returns (hp returns)

theorem keeps_pure (a : α) : (pure a : Program σ ε α).Keeps I := trivial

theorem keeps_lift (call : Call ε α) : (lift call : Program σ ε α).Keeps I := by
  cases call <;> trivial

theorem Keeps.lift_bind_of_ok {call : Call ε α} (hf : ∀ a, call = .ok a → (f a).Keeps I) :
    (lift call >>= f).Keeps I := by
  cases call with
  | ok a => exact hf a rfl
  | error fault => trivial

theorem Keeps.lift_bind {call : Call ε α} (hf : ∀ a, (f a).Keeps I) : (lift call >>= f).Keeps I :=
  .lift_bind_of_ok fun a _ => hf a

theorem keeps_handOver : (handOver : Program σ ε Bool).Keeps I := fun _ => trivial

theorem Keeps.read_bind {f : σ → Program σ ε β} (hf : ∀ s, I s → (f s).Keeps I) :
    (read >>= f).Keeps I := fun s hs => hf s hs

theorem keeps_write {s : σ} (hs : I s) : (write s : Program σ ε Unit).Keeps I := ⟨hs, trivial⟩

theorem Keeps.write_bind {s : σ} {f : Unit → Program σ ε β} (hs : I s) (hf : (f ()).Keeps I) :
    (write s >>= f).Keeps I := ⟨hs, hf⟩

theorem Keeps.ite {c : Prop} [Decidable c] {p q : Program σ ε α} (hp : p.Keeps I) (hq : q.Keeps I) :
    (if c then p else q).Keeps I := by
  split
  · exact hp
  · exact hq

/-- **Frames.** What holds throughout a program and is kept by its callees holds of the storage the frame
leaves behind; what the callees only log is all that is logged. -/
theorem play_of_keeps {L : η → Prop} (hp : p.Keeps I) {callees : List (Callee σ η)}
    (hcallees : ∀ callee ∈ callees, ∀ s, I s →
      I (callee.act s).1 ∧ ∀ event ∈ (callee.act s).2, L event) {s : σ} (hs : I s) :
    I (p.play callees s).exit ∧ ∀ event ∈ (p.play callees s).log, L event := by
  induction p generalizing callees s with
  | ret a => exact ⟨hs, by simp [play]⟩
  | stop fault => exact ⟨hs, by simp [play]⟩
  | get next ih => exact ih s (hp s hs) hcallees hs
  | put s next ih => exact ih hp.2 hcallees hp.1
  | callOut next ih =>
      cases callees with
      | nil => exact ih true (hp true) (by simp) hs
      | cons callee rest =>
          obtain ⟨hacted, hlogged⟩ := hcallees callee List.mem_cons_self s hs
          obtain ⟨hexit, hlater⟩ := ih callee.returns (hp callee.returns)
            (fun other hother => hcallees other (List.mem_cons_of_mem _ hother)) hacted
          refine ⟨hexit, fun event hevent => ?_⟩
          exact (List.mem_append.mp hevent).elim (hlogged event) (hlater event)

/-- Callees that return and leave the storage as it is make no difference. -/
theorem play_of_idle (hp : p.Keeps I) {callees : List (Callee σ η)}
    (hcallees : ∀ callee ∈ callees, callee.returns = true ∧ ∀ s, I s → (callee.act s).1 = s) {s : σ}
    (hs : I s) : (p.play callees s).result.map (fun a => (a, (p.play callees s).exit)) = p.run s := by
  induction p generalizing callees s with
  | ret a => rfl
  | stop fault => rfl
  | get next ih => exact ih s (hp s hs) hcallees hs
  | put s next ih => exact ih hp.2 hcallees hp.1
  | callOut next ih =>
      cases callees with
      | nil => exact ih true (hp true) (by simp) hs
      | cons callee rest =>
          obtain ⟨hreturns, hacts⟩ := hcallees callee List.mem_cons_self
          have hrest := ih true (hp true)
            (fun other hother => hcallees other (List.mem_cons_of_mem _ hother)) hs
          simp only [play, run, hreturns, hacts s hs]
          exact hrest

theorem play_onExit (cleanup : σ → σ) (callees : List (Callee σ η)) (s : σ) :
    ((p.onExit cleanup).play callees s).result = (p.play callees s).result ∧
      ((p.onExit cleanup).play callees s).log = (p.play callees s).log ∧
      ((p.play callees s).result ≠ .error .trap →
        ((p.onExit cleanup).play callees s).exit = cleanup (p.play callees s).exit) := by
  induction p generalizing callees s with
  | ret a => exact ⟨rfl, rfl, fun _ => rfl⟩
  | stop fault =>
      cases fault with
      | error code => exact ⟨rfl, rfl, fun _ => rfl⟩
      | trap => exact ⟨rfl, rfl, fun hresult => absurd rfl hresult⟩
  | get next ih => exact ih s callees s
  | put written next ih => exact ih callees written
  | callOut next ih =>
      cases callees with
      | nil => exact ih true [] s
      | cons callee rest =>
          obtain ⟨hresult, hlog, hexit⟩ := ih callee.returns rest (callee.act s).1
          exact ⟨hresult, congrArg ((callee.act s).2 ++ ·) hlog, hexit⟩

end Keeps

/-! ### Calls that end at once -/

section EndsAtOnce

variable {s : σ} {result : Call ε β}

theorem endsAtOnce_stop (fault : Fault ε) : (.stop fault : Program σ ε α).EndsAtOnce s (.error fault) :=
  fun _ _ => rfl

theorem EndsAtOnce.read_bind {f : σ → Program σ ε β} (hf : (f s).EndsAtOnce s result) :
    (read >>= f).EndsAtOnce s result := fun η callees => hf η callees

end EndsAtOnce

/-! ### Contracts that bar calls back -/

section Barred

variable {c : Contract σ ι κ ε} {I : σ → Prop} {idle : ι → Prop}

/-- While `I` holds every call ends at once, and succeeds only if it is idle; nothing outside the contract
ends `I`. -/
structure Bars (c : Contract σ ι κ ε) (I : σ → Prop) (idle : ι → Prop) : Prop where
  enter : ∀ call s, I s → ∃ result, (c.code call).EndsAtOnce s result ∧ (result = .ok () → idle call)
  outside : ∀ s action s', I s → c.outside.exec s action = .ok s' → I s'

/-- A call back that was made while `I` held, and that has failed, or idled, leaving the storage as it
was. -/
structure Barred (I : σ → Prop) (idle : ι → Prop) (event : Event σ ι ε) : Prop where
  before : I event.before
  exit : event.exit = event.before
  result : event.result = .ok () → idle event.call

variable {s : σ}

theorem Bars.act (hbars : Bars c I idle) (hs : I s) (action : Action ι κ) :
    I (c.act action s).1 ∧ ∀ event ∈ (c.act action s).2, Barred I idle event := by
  cases action with
  | outside action =>
      refine ⟨?_, by simp [Contract.act]⟩
      rcases Machine.step_cases (m := c.outside) s action with hexec | hstay
      · exact hbars.outside s action _ hs hexec
      · rw [Contract.act, hstay]
        exact hs
  | enter call callees =>
      obtain ⟨result, hends, hidle⟩ := hbars.enter call s hs
      have hframe := hends (Event σ ι ε) (c.calleesOf callees)
      simp only [Contract.act, hframe, List.mem_singleton, forall_eq]
      refine ⟨?_, hs, rfl, hidle⟩
      cases result with
      | ok u => exact hs
      | error fault => exact hs

theorem Bars.actAll (hbars : Bars c I idle) (hs : I s) (actions : List (Action ι κ)) :
    I (c.actAll actions s).1 ∧ ∀ event ∈ (c.actAll actions s).2, Barred I idle event := by
  induction actions generalizing s with
  | nil => exact ⟨hs, by simp [Contract.actAll]⟩
  | cons action rest ih =>
      obtain ⟨hfirst, hlogged⟩ := hbars.act hs action
      obtain ⟨hothers, hlater⟩ := ih hfirst
      refine ⟨hothers, fun event hevent => ?_⟩
      rw [Contract.actAll, List.mem_append] at hevent
      exact hevent.elim (hlogged event) (hlater event)

theorem mem_calleesOf {callees : List (List (Action ι κ) × Bool)} {callee : Callee σ (Event σ ι ε)}
    (hcallee : callee ∈ c.calleesOf callees) :
    ∃ entry ∈ callees, callee = ⟨c.actAll entry.1, entry.2⟩ := by
  induction callees with
  | nil => simp [Contract.calleesOf] at hcallee
  | cons entry rest ih =>
      rw [Contract.calleesOf, List.mem_cons] at hcallee
      rcases hcallee with hhead | htail
      · obtain ⟨actions, returns⟩ := entry
        exact ⟨(actions, returns), List.mem_cons_self, hhead⟩
      · obtain ⟨other, hother, hcallee⟩ := ih htail
        exact ⟨other, List.mem_cons_of_mem _ hother, hcallee⟩

/-- A callee that does nothing but call back, and returns. -/
def CallsBack (callee : List (Action ι κ) × Bool) : Prop :=
  callee.2 = true ∧ ∀ action ∈ callee.1, ∃ call callees, action = .enter call callees

theorem Bars.actAll_of_callsBack (hbars : Bars c I idle) (hs : I s) {actions : List (Action ι κ)}
    (hactions : ∀ action ∈ actions, ∃ call callees, action = .enter call callees) :
    (c.actAll actions s).1 = s := by
  induction actions with
  | nil => rfl
  | cons action rest ih =>
      obtain ⟨call, callees, rfl⟩ := hactions action List.mem_cons_self
      obtain ⟨result, hends, -⟩ := hbars.enter call s hs
      have hframe := hends (Event σ ι ε) (c.calleesOf callees)
      have hentered : (c.act (.enter call callees) s).1 = s := by
        simp only [Contract.act, hframe]
        cases result <;> rfl
      rw [Contract.actAll, hentered]
      exact ih fun other hother => hactions other (List.mem_cons_of_mem _ hother)

/-- **No effect.** Callees that only call back make no difference to a program that keeps `I`. -/
theorem Bars.play_of_callsBack (hbars : Bars c I idle) {p : Program σ ε α} (hp : p.Keeps I) (hs : I s)
    {callees : List (List (Action ι κ) × Bool)} (hcallees : ∀ callee ∈ callees, CallsBack callee) :
    (p.play (c.calleesOf callees) s).result.map
      (fun a => (a, (p.play (c.calleesOf callees) s).exit)) = p.run s := by
  refine play_of_idle hp (fun callee hcallee => ?_) hs
  obtain ⟨entry, hentry, rfl⟩ := mem_calleesOf hcallee
  obtain ⟨hreturns, hactions⟩ := hcallees entry hentry
  exact ⟨hreturns, fun s hs => hbars.actAll_of_callsBack hs hactions⟩

/-- **Exclusion.** Throughout a program that keeps `I`, every call back is barred, however the calls
back are nested. -/
theorem Bars.play (hbars : Bars c I idle) {p : Program σ ε α} (hp : p.Keeps I) (hs : I s)
    (callees : List (List (Action ι κ) × Bool)) :
    I (p.play (c.calleesOf callees) s).exit ∧
      ∀ event ∈ (p.play (c.calleesOf callees) s).log, Barred I idle event := by
  refine play_of_keeps hp (fun callee hcallee s hs => ?_) hs
  obtain ⟨entry, -, rfl⟩ := mem_calleesOf hcallee
  exact hbars.actAll hs entry.1

end Barred

end Program

end Host
